/-
The registry of schedules: the id list, the schedule mapping and the counters
of the holders speak of the same schedules, and a schedule keeps its terms.
They are linked through a hash only, so two ids must not collide.
-/
import Palmy.VestingSolvency

namespace Palmy

open Solidity
open TokenVesting

/-- What a schedule becomes later: its terms stay, what is released stays
released, and a revocation is final. -/
structure VestingSchedule.Continues (g g' : VestingSchedule) : Prop where
  initialized : g'.initialized = g.initialized
  beneficiary : g'.beneficiary = g.beneficiary
  cliff : g'.cliff = g.cliff
  start : g'.start = g.start
  duration : g'.duration = g.duration
  slicePeriodSeconds : g'.slicePeriodSeconds = g.slicePeriodSeconds
  revocable : g'.revocable = g.revocable
  amountTotal : g'.amountTotal = g.amountTotal
  released_le : g.released ≤ g'.released
  revoked : g.revoked = true → g'.revoked = true

namespace VestingSchedule.Continues

variable {g g' g'' : VestingSchedule}

theorem refl (g : VestingSchedule) : Continues g g :=
  ⟨rfl, rfl, rfl, rfl, rfl, rfl, rfl, rfl, le_rfl, id⟩

theorem trans (h : Continues g g') (h' : Continues g' g'') : Continues g g'' where
  initialized := h'.initialized.trans h.initialized
  beneficiary := h'.beneficiary.trans h.beneficiary
  cliff := h'.cliff.trans h.cliff
  start := h'.start.trans h.start
  duration := h'.duration.trans h.duration
  slicePeriodSeconds := h'.slicePeriodSeconds.trans h.slicePeriodSeconds
  revocable := h'.revocable.trans h.revocable
  amountTotal := h'.amountTotal.trans h.amountTotal
  released_le := le_trans h.released_le h'.released_le
  revoked := h'.revoked ∘ h.revoked

theorem pay {amount released : Uint256} (hreleased : released.val = g.released.val + amount.val) :
    Continues g { g with released := released } :=
  { refl g with released_le := Fin.le_def.mpr (hreleased ▸ Nat.le_add_right _ _) }

theorem close (g : VestingSchedule) : Continues g { g with revoked := true } :=
  { refl g with revoked := fun _ => rfl }

end VestingSchedule.Continues

namespace TokenVesting

variable {d : Deployment}

/-- The id list, the mapping and the counters agree. -/
structure Registry (s : TokenVesting d) : Prop where
  nodup : s.vestingSchedulesIds.Nodup
  mem_iff : ∀ id, id ∈ s.vestingSchedulesIds ↔ (s.vestingSchedules id).initialized = true
  used : ∀ holder index, index < s.holdersVestingCount holder →
    (s.vestingSchedules
        (computeVestingScheduleIdForAddressAndIndex d holder index)).initialized = true ∧
      (s.vestingSchedules
        (computeVestingScheduleIdForAddressAndIndex d holder index)).beneficiary = holder
  counted : ∑ holder, (s.holdersVestingCount holder).val = s.vestingSchedulesIds.length

theorem registry_genesis (owner : Address) (ledger : d.tokens.Ledger) :
    Registry (genesis d owner ledger) where
  nodup := List.nodup_nil
  mem_iff _ := iff_of_false List.not_mem_nil Bool.false_ne_true
  used _ index hlt := absurd hlt (Nat.not_lt_zero index.val)
  counted := Finset.sum_const_zero

/-- Rewriting a schedule that exists keeps the registry when its beneficiary
stays. -/
theorem Registry.update {s s' : TokenVesting d} (h : Registry s) {id : Bytes32}
    {g : VestingSchedule} (hcontinues : (s.vestingSchedules id).Continues g)
    (hschedules : s'.vestingSchedules = Function.update s.vestingSchedules id g)
    (hids : s'.vestingSchedulesIds = s.vestingSchedulesIds)
    (hcounts : s'.holdersVestingCount = s.holdersVestingCount) : Registry s' := by
  have hkept : ∀ j, (s'.vestingSchedules j).initialized = (s.vestingSchedules j).initialized ∧
      (s'.vestingSchedules j).beneficiary = (s.vestingSchedules j).beneficiary := by
    intro j
    rw [hschedules]
    by_cases heq : j = id
    · rw [heq, Function.update_self]
      exact ⟨hcontinues.initialized, hcontinues.beneficiary⟩
    · rw [Function.update_of_ne heq]
      exact ⟨rfl, rfl⟩
  exact
    { nodup := hids ▸ h.nodup
      mem_iff := fun j => by
        rw [hids, (hkept j).1]
        exact h.mem_iff j
      used := fun holder index hlt => by
        rw [(hkept _).1, (hkept _).2]
        exact h.used holder index (hcounts ▸ hlt)
      counted := by
        rw [hids, hcounts]
        exact h.counted }

/-- An index below a raised counter is an old one or the last. -/
theorem lt_update_cases {counts : Address → Uint256} {beneficiary holder : Address}
    {count index : Uint256} (hcount : count.val = (counts beneficiary).val + 1)
    (hlt : index < Function.update counts beneficiary count holder) :
    index < counts holder ∨ holder = beneficiary ∧ index = counts beneficiary := by
  by_cases heq : holder = beneficiary
  · subst heq
    rw [Function.update_self, Fin.lt_def, hcount] at hlt
    rcases Nat.lt_succ_iff_lt_or_eq.mp hlt with hbefore | hlast
    · exact Or.inl hbefore
    · exact Or.inr ⟨rfl, Fin.ext hlast⟩
  · rw [Function.update_of_ne heq] at hlt
    exact Or.inl hlt

/-- Registering a schedule under an id nobody took. -/
theorem Registry.create {s s' : TokenVesting d} (h : Registry s) {g : VestingSchedule}
    {count : Uint256} (hinitialized : g.initialized = true)
    (hcount : count.val = (s.holdersVestingCount g.beneficiary).val + 1)
    (hunused : ¬ (s.vestingSchedules
      (computeNextVestingScheduleIdForHolder d s g.beneficiary)).initialized = true)
    (hschedules : s'.vestingSchedules = Function.update s.vestingSchedules
      (computeNextVestingScheduleIdForHolder d s g.beneficiary) g)
    (hids : s'.vestingSchedulesIds = s.vestingSchedulesIds ++
      [computeNextVestingScheduleIdForHolder d s g.beneficiary])
    (hcounts : s'.holdersVestingCount =
      Function.update s.holdersVestingCount g.beneficiary count) : Registry s' where
  nodup := by
    rw [hids, ← List.concat_eq_append]
    exact h.nodup.concat fun htaken => hunused ((h.mem_iff _).mp htaken)
  mem_iff id := by
    rw [hids, List.mem_append, List.mem_singleton, hschedules]
    by_cases heq : id = computeNextVestingScheduleIdForHolder d s g.beneficiary
    · rw [heq, Function.update_self]
      exact iff_of_true (Or.inr rfl) hinitialized
    · rw [Function.update_of_ne heq, or_iff_left heq]
      exact h.mem_iff id
  used holder index hlt := by
    rw [hschedules]
    rw [hcounts] at hlt
    rcases lt_update_cases hcount hlt with hbefore | ⟨rfl, rfl⟩
    · have hused := h.used holder index hbefore
      have hne : computeVestingScheduleIdForAddressAndIndex d holder index ≠
          computeNextVestingScheduleIdForHolder d s g.beneficiary :=
        fun heq => hunused (heq ▸ hused.1)
      rwa [Function.update_of_ne hne]
    · have hself := Function.update_self
        (computeNextVestingScheduleIdForHolder d s g.beneficiary) g s.vestingSchedules
      exact ⟨(congrArg VestingSchedule.initialized hself).trans hinitialized,
        congrArg VestingSchedule.beneficiary hself⟩
  counted := by
    have hsum := Delegation.total_update Fin.val s.holdersVestingCount g.beneficiary count
    rw [hids, hcounts, List.length_append, List.length_singleton, ← h.counted]
    omega

end TokenVesting

section Runs

variable {d : Deployment} {v v' : VestingState d}

theorem VestingChange.vesting (hchange : VestingChange v v')
    (hall : AllVesting v.now v.contract) : AllVesting v'.now v'.contract := by
  cases hchange with
  | wait htime => exact fun id => (hall id).mono htime
  | create hnew hbalance hroom htotal hcount => exact vesting_create hall hnew hcount
  | pay henter hactive hreleased hvested hle htotal hpaid =>
      exact vesting_pay hall hactive hreleased hvested
  | close => exact vesting_close hall
  | _ => exact hall

/-- Rewriting an active schedule, seen from any other or from itself. -/
theorem schedule_update_cases {s : TokenVesting d} {id other : Bytes32} {g : VestingSchedule}
    (hactive : (s.vestingSchedules other).Active)
    (hcontinues : (s.vestingSchedules other).Continues g) :
    Function.update s.vestingSchedules other g id = s.vestingSchedules id ∨
      (s.vestingSchedules id).Active ∧
        (s.vestingSchedules id).Continues (Function.update s.vestingSchedules other g id) := by
  by_cases heq : id = other
  · subst heq
    rw [Function.update_self]
    exact Or.inr ⟨hactive, hcontinues⟩
  · exact Or.inl (Function.update_of_ne heq _ _)

/-- What one change does to a schedule that exists, as long as no two ids
collide: nothing, or it is paid or closed while it is active. -/
theorem VestingChange.schedule_cases (hchange : VestingChange v v')
    (hall : AllVesting v.now v.contract)
    (hcollision : Set.InjOn d.keccak256 v'.contract.hashed) {id : Bytes32}
    (hexists : (v.contract.vestingSchedules id).initialized = true) :
    v'.contract.vestingSchedules id = v.contract.vestingSchedules id ∨
      (v.contract.vestingSchedules id).Active ∧
        (v.contract.vestingSchedules id).Continues (v'.contract.vestingSchedules id) := by
  cases hchange with
  | @create now s g balance total count log hnew hbalance hroom htotal hcount =>
      have hunused := next_unused hall hcount rfl hcollision
      have hne : id ≠ computeNextVestingScheduleIdForHolder d s g.beneficiary := by
        rintro rfl
        exact hunused hexists
      exact Or.inl (Function.update_of_ne hne _ _)
  | pay henter hactive hreleased hvested hle htotal hpaid =>
      exact schedule_update_cases hactive (.pay hreleased)
  | close hactive hrevocable hle htotal => exact schedule_update_cases hactive (.close _)
  | _ => exact Or.inl rfl

theorem VestingChange.continues (hchange : VestingChange v v')
    (hall : AllVesting v.now v.contract)
    (hcollision : Set.InjOn d.keccak256 v'.contract.hashed) {id : Bytes32}
    (hexists : (v.contract.vestingSchedules id).initialized = true) :
    (v.contract.vestingSchedules id).Continues (v'.contract.vestingSchedules id) := by
  rcases hchange.schedule_cases hall hcollision hexists with hsame | ⟨-, hcontinues⟩
  · rw [hsame]
    exact .refl _
  · exact hcontinues

/-- One change keeps the registry. -/
theorem VestingChange.registry (hchange : VestingChange v v')
    (hall : AllVesting v.now v.contract)
    (hcollision : Set.InjOn d.keccak256 v'.contract.hashed) (hinv : Registry v.contract) :
    Registry v'.contract := by
  cases hchange with
  | create hnew hbalance hroom htotal hcount =>
      have hunused := next_unused hall hcount rfl hcollision
      exact hinv.create hnew.active.1 hcount hunused rfl rfl rfl
  | pay henter hactive hreleased hvested hle htotal hpaid =>
      exact hinv.update (.pay hreleased) rfl rfl rfl
  | close => exact hinv.update (.close _) rfl rfl rfl
  | _ => exact { hinv with }

theorem vesting_of_changes (hall : AllVesting v.now v.contract)
    (hrun : Relation.ReflTransGen VestingChange v v') : AllVesting v'.now v'.contract := by
  induction hrun with
  | refl => exact hall
  | tail _ hchange ih => exact hchange.vesting ih

theorem continues_of_changes (hall : AllVesting v.now v.contract)
    (hrun : Relation.ReflTransGen VestingChange v v')
    (hcollision : Set.InjOn d.keccak256 v'.contract.hashed) {id : Bytes32}
    (hexists : (v.contract.vestingSchedules id).initialized = true) :
    (v.contract.vestingSchedules id).Continues (v'.contract.vestingSchedules id) := by
  induction hrun with
  | refl => exact .refl _
  | tail hrun hchange ih =>
      have hbefore := ih (hcollision.mono hchange.hashed_subset)
      exact hbefore.trans (hchange.continues (vesting_of_changes hall hrun) hcollision
        (hbefore.initialized.trans hexists))

theorem registry_of_changes (hall : AllVesting v.now v.contract) (hinv : Registry v.contract)
    (hrun : Relation.ReflTransGen VestingChange v v')
    (hcollision : Set.InjOn d.keccak256 v'.contract.hashed) : Registry v'.contract := by
  induction hrun with
  | refl => exact hinv
  | tail hrun hchange ih =>
      exact hchange.registry (vesting_of_changes hall hrun) hcollision
        (ih (hcollision.mono hchange.hashed_subset))

/-- No reachable schedule is overdrawn or unsound. -/
theorem VestingState.Reachable.vesting (hdoc : d.Documented) (hreach : v.Reachable) :
    AllVesting v.now v.contract := by
  obtain ⟨now, owner, ledger, hrun⟩ := hreach
  exact vesting_of_changes (allVesting_genesis now owner ledger)
    (VestingStep.changes_of_run hdoc hrun)

theorem VestingState.Reachable.registry (hdoc : d.Documented) (hreach : v.Reachable)
    (hcollision : Set.InjOn d.keccak256 v.contract.hashed) : Registry v.contract := by
  obtain ⟨now, owner, ledger, hrun⟩ := hreach
  exact registry_of_changes (allVesting_genesis now owner ledger) (registry_genesis owner ledger)
    (VestingStep.changes_of_run hdoc hrun) hcollision

section Creation

variable {m : Message} {beneficiary : Address}
  {start cliff duration slicePeriodSeconds amount : Uint256} {revocable : Bool}
  {s' : TokenVesting d}

theorem VestingState.Reachable.created (hreach : v.Reachable) (htime : v.now ≤ m.timestamp)
    (h : createVestingSchedule d m beneficiary start cliff duration slicePeriodSeconds revocable
      amount v.contract = .ok s') : (⟨m.timestamp, s'⟩ : VestingState d).Reachable := by
  apply hreach.run
  exact .single (.of_ok (.createVestingSchedule beneficiary start cliff duration
    slicePeriodSeconds revocable amount) htime h)

/-- A creation stores the schedule with the time of its cliff. -/
theorem stored_of_createVestingSchedule (hdoc : d.Documented) {s : TokenVesting d}
    (h : createVestingSchedule d m beneficiary start cliff duration slicePeriodSeconds revocable
      amount s = .ok s') :
    ∃ cliffTime : Uint256, cliffTime.val = start.val + cliff.val ∧
      VestingSchedule.New ⟨true, beneficiary, cliffTime, start, duration, slicePeriodSeconds,
        revocable, amount, 0, false⟩ ∧
      s'.vestingSchedules (computeNextVestingScheduleIdForHolder d s beneficiary) =
        ⟨true, beneficiary, cliffTime, start, duration, slicePeriodSeconds, revocable, amount, 0,
          false⟩ := by
  obtain ⟨cliffTime, _, _, _, _, hcliff, hnew, -, -, -, -, -, rfl⟩ :=
    createVestingSchedule_cases hdoc h
  exact ⟨cliffTime, hcliff, hnew, Function.update_self _ _ _⟩

/-- A creation takes an id that nobody used, and writes no other schedule. -/
theorem VestingState.Reachable.fresh (hdoc : d.Documented) (hreach : v.Reachable)
    (h : createVestingSchedule d m beneficiary start cliff duration slicePeriodSeconds revocable
      amount v.contract = .ok s')
    (hcollision : Set.InjOn d.keccak256 s'.hashed) :
    (v.contract.vestingSchedules
        (computeNextVestingScheduleIdForHolder d v.contract beneficiary)).initialized = false ∧
      ∀ id, (v.contract.vestingSchedules id).initialized = true →
        s'.vestingSchedules id = v.contract.vestingSchedules id := by
  obtain ⟨_, _, _, count, _, -, -, -, -, -, -, hcount, rfl⟩ := createVestingSchedule_cases hdoc h
  have hunused := next_unused (hreach.vesting hdoc) hcount rfl hcollision
  refine ⟨Bool.eq_false_iff.mpr hunused, ?_⟩
  intro id hexists
  apply Function.update_of_ne
  rintro rfl
  exact hunused hexists

end Creation

end Runs

/-- The registry of schedules.  In every reachable state the list of ids has no
duplicates and lists exactly the schedules that exist, the counter of a holder
says which of its indices are taken, and the counters add up to the number of
schedules.  Along every run a schedule keeps its terms, is never paid back and
stays revoked once it is, and a creation never overwrites one. -/
theorem schedules_are_registered {d : Deployment} {v : VestingState d} (hdoc : d.Documented)
    (hreach : v.Reachable) (hcollision : Set.InjOn d.keccak256 v.contract.hashed) :
    v.contract.vestingSchedulesIds.Nodup ∧
      (∀ id, id ∈ v.contract.vestingSchedulesIds ↔
        (v.contract.vestingSchedules id).initialized = true) ∧
      (∀ holder index,
        Set.InjOn d.keccak256 (insert (holder.packed ++ wordBytes index) v.contract.hashed) →
        ((v.contract.vestingSchedules
            (computeVestingScheduleIdForAddressAndIndex d holder index)).initialized = true ↔
          index < v.contract.holdersVestingCount holder) ∧
        (index < v.contract.holdersVestingCount holder →
          (v.contract.vestingSchedules
            (computeVestingScheduleIdForAddressAndIndex d holder index)).beneficiary = holder)) ∧
      ∑ holder, (v.contract.holdersVestingCount holder).val =
        getVestingSchedulesCount d v.contract ∧
      (∀ w, Relation.ReflTransGen VestingStep v w → Set.InjOn d.keccak256 w.contract.hashed →
        ∀ id, (v.contract.vestingSchedules id).initialized = true →
          (v.contract.vestingSchedules id).Continues (w.contract.vestingSchedules id)) ∧
      ∀ m beneficiary start cliff duration slicePeriodSeconds revocable amount s',
        createVestingSchedule d m beneficiary start cliff duration slicePeriodSeconds revocable
          amount v.contract = .ok s' → Set.InjOn d.keccak256 s'.hashed →
        (v.contract.vestingSchedules
            (computeNextVestingScheduleIdForHolder d v.contract beneficiary)).initialized = false ∧
          ∀ id, (v.contract.vestingSchedules id).initialized = true →
            s'.vestingSchedules id = v.contract.vestingSchedules id := by
  have hvesting := hreach.vesting hdoc
  have hregistry := hreach.registry hdoc hcollision
  refine ⟨hregistry.nodup, hregistry.mem_iff, ?_, hregistry.counted, ?_, ?_⟩
  · intro holder index hinjective
    refine ⟨⟨?_, fun hlt => (hregistry.used holder index hlt).1⟩,
      fun hlt => (hregistry.used holder index hlt).2⟩
    intro hexists
    obtain ⟨owner, taken, hlt, hid⟩ := (hvesting _).registered hexists
    have hsame := hinjective (Set.mem_insert _ _)
      (Set.mem_insert_of_mem _ ⟨owner, taken, hlt, rfl⟩) hid
    obtain ⟨rfl, rfl⟩ := Address.packed_append_inj hsame
    exact hlt
  · intro w hrun hinjective id hexists
    exact continues_of_changes hvesting (VestingStep.changes_of_run hdoc hrun) hinjective hexists
  · intro m beneficiary start cliff duration slicePeriodSeconds revocable amount s' h hinjective
    exact hreach.fresh hdoc h hinjective

/-- Bob's grant is the one schedule there is. -/
theorem schedules_are_registered_sample :
    Sample.collected.contract.vestingSchedulesIds = [Sample.grantId] ∧
      Sample.collected.contract.vestingSchedulesIds.Nodup ∧
      ∑ holder, (Sample.collected.contract.holdersVestingCount holder).val = 1 := by
  obtain ⟨hnodup, -, -, hcounted, -⟩ := schedules_are_registered Sample.deployment_documented
    Sample.collected_reachable (Sample.injOn_hashed_of_one Sample.collected_counts)
  exact ⟨by rfl, hnodup, hcounted⟩

end Palmy
