/-
The event log of the vesting contract tells all of its schedules: an indexer
that saw nothing but the log holds every schedule, the registry and the total,
and can account for every token that was ever granted.
-/
import Palmy.Library.EventSourcing
import Palmy.VestingRevocation

namespace Palmy

open Solidity
open TokenVesting

/-- What an indexer holds. -/
@[ext] structure VestingIndex where
  schedules : Bytes32 → VestingSchedule
  ids : List Bytes32
  total : Uint256
  counts : Address → Uint256

namespace VestingIndex

/-- Before the first event. -/
def empty : VestingIndex := ⟨fun _ => .empty, [], 0, fun _ => 0⟩

/-- What the indexer makes of one event. -/
def observe (index : VestingIndex) : VestingEvent → VestingIndex
  | .scheduleCreated id beneficiary start cliff duration slicePeriodSeconds revocable amount =>
      { schedules := Function.update index.schedules id
          ⟨true, beneficiary, cliff, start, duration, slicePeriodSeconds, revocable, amount, 0,
            false⟩
        ids := index.ids ++ [id]
        total := index.total + amount
        counts := Function.update index.counts beneficiary (index.counts beneficiary + 1) }
  | .released id amount =>
      { index with
        schedules := Function.update index.schedules id
          { index.schedules id with released := (index.schedules id).released + amount }
        total := index.total - amount }
  | .revoked id =>
      { index with
        schedules := Function.update index.schedules id
          { index.schedules id with revoked := true }
        total := index.total -
          ((index.schedules id).amountTotal - (index.schedules id).released) }

/-- What the indexer makes of a log. -/
def replay (index : VestingIndex) (events : List VestingEvent) : VestingIndex :=
  EventSourcing.replay observe index events

end VestingIndex

namespace TokenVesting

variable {d : Deployment} {m : Message} {id : Bytes32} {amount : Uint256}
  {s s₁ s' : TokenVesting d}

/-- The part of the storage the log tells. -/
def index (s : TokenVesting d) : VestingIndex :=
  ⟨s.vestingSchedules, s.vestingSchedulesIds, s.vestingSchedulesTotalAmount,
    s.holdersVestingCount⟩

/-- A call logs what it does to the schedules. -/
abbrev Logged (s s' : TokenVesting d) : Prop :=
  EventSourcing.Told TokenVesting.log index VestingIndex.observe s s'

theorem logged_createVestingSchedule (hdoc : d.Documented) {beneficiary : Address}
    {start cliff duration slicePeriodSeconds : Uint256} {revocable : Bool}
    (h : createVestingSchedule d m beneficiary start cliff duration slicePeriodSeconds revocable
      amount s = .ok s') : Logged s s' := by
  simp only [createVestingSchedule, bind_eq_ok, pure_eq_ok, hdoc.safeMath.add_eq_ok] at h
  obtain ⟨-, -, _, -, -, -, -, -, -, -, -, -, -, -, cliffTime, hcliff, total, htotal, count, hcount,
    rfl⟩ := h
  refine .single rfl (VestingIndex.ext rfl rfl (eq_add_of_val htotal) ?_)
  change Function.update s.holdersVestingCount beneficiary count = _
  rw [eq_add_of_val hcount]
  rfl

theorem logged_release (hdoc : d.Documented) (h : release d m id amount s = .ok s') :
    Logged s s' := by
  obtain ⟨_, _, released, total, _, -, -, -, -, -, hreleased, hle, htotal, -, rfl⟩ :=
    (release_eq_ok hdoc.safeMath).mp h
  have hsum : total.val + amount.val = s.vestingSchedulesTotalAmount.val := by omega
  refine .single rfl (VestingIndex.ext ?_ rfl (eq_sub_of_val hsum) rfl)
  change Function.update s.vestingSchedules id _ = _
  rw [eq_add_of_val hreleased]
  rfl

theorem logged_closeSchedule (hdoc : d.Documented) (h : closeSchedule d id s = .ok s') :
    Logged s s' := by
  obtain ⟨total, hle, htotal, rfl⟩ := (closeSchedule_eq_ok hdoc.safeMath).mp h
  refine .single rfl (VestingIndex.ext rfl rfl (eq_sub_of_val ?_) rfl)
  change total.val + ((s.vestingSchedules id).amountTotal -
    (s.vestingSchedules id).released).val = _
  rw [Fin.sub_val_of_le hle]
  exact htotal

/-- Rule of calls, for what is said of schedules and log: a call creates a
schedule, releases, closes a schedule that exists, possibly after a release, or
leaves both alone. -/
theorem execute_rule {R : TokenVesting d → TokenVesting d → Prop} (hdoc : d.Documented)
    (hsame : ∀ s', s'.index = s.index → s'.log = s.log → R s s')
    (htrans : ∀ s₁, R s s₁ → R s₁ s' → R s s')
    (hcreate : ∀ beneficiary start cliff duration slicePeriodSeconds revocable amount,
      createVestingSchedule d m beneficiary start cliff duration slicePeriodSeconds revocable
        amount s = .ok s' → R s s')
    (hrelease : ∀ id amount s₁, release d m id amount s = .ok s₁ → R s s₁)
    (hclose : ∀ id s₁, (s₁.vestingSchedules id).initialized = true →
      closeSchedule d id s₁ = .ok s' → R s₁ s')
    {call : Call} (h : execute d m s call = .ok s') : R s s' := by
  cases call with
  | initialzie token =>
      simp only [execute, initialzie, bind_eq_ok, requireSilently_eq_ok, pure_eq_ok] at h
      obtain ⟨_, -, -, -, rfl⟩ := h
      exact hsame _ rfl rfl
  | createVestingSchedule => exact hcreate _ _ _ _ _ _ _ h
  | revoke id =>
      simp only [execute, revoke, bind_eq_ok, onlyIfVestingScheduleNotRevoked_eq_ok] at h
      obtain ⟨_, -, _, hactive, _, -, due, -, paid, hpaid, hfinish⟩ := h
      split at hpaid
      · apply htrans paid (hrelease id due paid hpaid)
        apply hclose id paid _ hfinish
        obtain ⟨_, _, _, _, _, -, -, -, -, -, -, -, -, -, rfl⟩ :=
          (release_eq_ok hdoc.safeMath).mp hpaid
        change (Function.update s.vestingSchedules id _ id).initialized = true
        rw [Function.update_self]
        exact hactive.1
      · rw [pure_eq_ok] at hpaid
        subst hpaid
        exact hclose id s hactive.1 hfinish
  | withdraw amount =>
      simp only [execute, withdraw, bind_eq_ok, pure_eq_ok] at h
      obtain ⟨_, -, _, -, _, -, _, -, _, -, rfl⟩ := h
      exact hsame _ rfl rfl
  | release id amount => exact hrelease id amount s' h
  | transferOwnership newOwner =>
      simp only [execute, bind_eq_ok, pure_eq_ok] at h
      obtain ⟨_, -, rfl⟩ := h
      exact hsame _ rfl rfl
  | renounceOwnership =>
      simp only [execute, bind_eq_ok, pure_eq_ok] at h
      obtain ⟨_, -, rfl⟩ := h
      exact hsame _ rfl rfl

theorem logged_execute (hdoc : d.Documented) {call : Call} (h : execute d m s call = .ok s') :
    Logged s s' :=
  execute_rule hdoc (fun _ hindex hlog => .of_same hlog hindex) (fun _ => EventSourcing.Told.trans)
    (fun _ _ _ _ _ _ _ => logged_createVestingSchedule hdoc)
    (fun _ _ _ => logged_release hdoc) (fun _ _ _ => logged_closeSchedule hdoc) h

end TokenVesting

section Runs

variable {d : Deployment} {v w : VestingState d}

theorem VestingStep.logged (hdoc : d.Documented) (hstep : VestingStep v w) :
    Logged v.contract w.contract := by
  cases hstep with
  | call m call htime =>
      rcases commit_cases v.contract (execute d m v.contract call) with hsame | hok
      · rw [hsame]
        exact .of_same rfl rfl
      · exact logged_execute hdoc hok
  | deposit hkept => exact .of_same rfl rfl

theorem logged_of_run (hdoc : d.Documented) (hrun : Relation.ReflTransGen VestingStep v w) :
    Logged v.contract w.contract := by
  change EventSourcing.Told (fun v : VestingState d => v.contract.log) (fun v => v.contract.index)
    VestingIndex.observe v w
  apply EventSourcing.Told.of_run _ hrun
  intro _ _ hstep
  exact hstep.logged hdoc

end Runs

/-- The log of the vesting contract rebuilds its schedules.  In every reachable
state an indexer that starts empty and replays the log holds every schedule, the
list of ids, the counters and the total; and over any further run what the log
gains takes the indexer to the later state. -/
theorem vesting_log_rebuilds_the_schedules {d : Deployment} {v : VestingState d}
    (hdoc : d.Documented) (hreach : v.Reachable) :
    VestingIndex.empty.replay v.contract.log = v.contract.index ∧
      ∀ w, Relation.ReflTransGen VestingStep v w →
        ∃ events, w.contract.log = v.contract.log ++ events ∧
          v.contract.index.replay events = w.contract.index := by
  constructor
  · obtain ⟨now, owner, ledger, hrun⟩ := hreach
    exact (logged_of_run hdoc hrun).rebuilds rfl
  · intro w hrun
    obtain ⟨events, hlog, hindex⟩ := logged_of_run hdoc hrun
    exact ⟨events, hlog, hindex.symm⟩

/-- The log after Bob's collection holds his grant. -/
theorem vesting_log_rebuilds_the_schedules_sample :
    (VestingIndex.empty.replay Sample.collected.contract.log).ids = [Sample.grantId] := by
  rw [(vesting_log_rebuilds_the_schedules Sample.deployment_documented
    Sample.collected_reachable).1]
  rfl

/-- What an event grants. -/
def VestingEvent.granted : VestingEvent → ℕ
  | .scheduleCreated _ _ _ _ _ _ _ amount => amount.val
  | _ => 0

/-- What an event releases of one schedule. -/
def VestingEvent.releasedOf (id : Bytes32) : VestingEvent → ℕ
  | .released id' amount => if id' = id then amount.val else 0
  | _ => 0

/-- All that a log grants. -/
def grantedIn (events : List VestingEvent) : ℕ := (events.map VestingEvent.granted).sum

/-- All that a log releases of one schedule. -/
def releasedIn (id : Bytes32) (events : List VestingEvent) : ℕ :=
  (events.map (VestingEvent.releasedOf id)).sum

@[simp] theorem grantedIn_concat (events : List VestingEvent) (event : VestingEvent) :
    grantedIn (events ++ [event]) = grantedIn events + event.granted := by
  simp [grantedIn]

@[simp] theorem releasedIn_concat (id : Bytes32) (events : List VestingEvent)
    (event : VestingEvent) :
    releasedIn id (events ++ [event]) = releasedIn id events + event.releasedOf id := by
  simp [releasedIn]

namespace TokenVesting

variable {d : Deployment} {now : Uint256} {m : Message} {id : Bytes32} {amount : Uint256}
  {s s' : TokenVesting d}

/-- The schedules are what the log has granted and released. -/
structure Booked (s : TokenVesting d) : Prop where
  granted : ∑ id, (s.vestingSchedules id).amountTotal.val = grantedIn s.log
  released : ∀ id, (s.vestingSchedules id).released.val = releasedIn id s.log
  unwritten : ∀ id, (s.vestingSchedules id).initialized = false →
    s.vestingSchedules id = VestingSchedule.empty

theorem booked_genesis (owner : Address) (ledger : d.tokens.Ledger) :
    Booked (genesis d owner ledger) where
  granted := Finset.sum_eq_zero fun _ _ => rfl
  released _ := rfl
  unwritten _ _ := rfl

theorem Booked.congr (h : Booked s) (hindex : s'.index = s.index) (hlog : s'.log = s.log) :
    Booked s' := by
  have hschedules : s'.vestingSchedules = s.vestingSchedules :=
    congrArg VestingIndex.schedules hindex
  exact ⟨by rw [hschedules, hlog]; exact h.granted, by rw [hschedules, hlog]; exact h.released,
    by rw [hschedules]; exact h.unwritten⟩

theorem Booked.write (h : Booked s) {g : VestingSchedule} {event : VestingEvent}
    (hexists : g.initialized = true)
    (hgranted : g.amountTotal.val = (s.vestingSchedules id).amountTotal.val + event.granted)
    (hreleased : g.released.val = (s.vestingSchedules id).released.val + event.releasedOf id)
    (hothers : ∀ other ≠ id, event.releasedOf other = 0)
    (hschedules : s'.vestingSchedules = Function.update s.vestingSchedules id g)
    (hlog : s'.log = s.log ++ [event]) : Booked s' where
  granted := by
    have hsum := Delegation.total_update (fun g : VestingSchedule => g.amountTotal.val)
      s.vestingSchedules id g
    rw [hschedules, hlog, grantedIn_concat, ← h.granted]
    omega
  released other := by
    rw [hschedules, hlog, releasedIn_concat, ← h.released]
    by_cases heq : other = id
    · rw [heq, Function.update_self]
      exact hreleased
    · rw [Function.update_of_ne heq, hothers other heq, Nat.add_zero]
  unwritten other hnone := by
    rw [hschedules] at hnone ⊢
    by_cases heq : other = id
    · rw [heq, Function.update_self, hexists] at hnone
      cases hnone
    · rw [Function.update_of_ne heq] at hnone ⊢
      exact h.unwritten other hnone

theorem Booked.release (h : Booked s) (hdoc : d.Documented)
    (hok : TokenVesting.release d m id amount s = .ok s') : Booked s' := by
  obtain ⟨_, _, released, _, _, -, hactive, -, -, -, hreleased, -, -, -, rfl⟩ :=
    (release_eq_ok hdoc.safeMath).mp hok
  refine h.write (g := { s.vestingSchedules id with released := released }) hactive.1 rfl ?_ ?_
    rfl rfl
  · rw [VestingEvent.releasedOf, if_pos rfl]
    exact hreleased
  · intro other hne
    exact if_neg hne.symm

theorem Booked.close (h : Booked s) (hdoc : d.Documented)
    (hexists : (s.vestingSchedules id).initialized = true)
    (hok : closeSchedule d id s = .ok s') : Booked s' := by
  obtain ⟨_, -, -, rfl⟩ := (closeSchedule_eq_ok hdoc.safeMath).mp hok
  exact h.write (g := { s.vestingSchedules id with revoked := true }) hexists rfl rfl
    (fun _ _ => rfl) rfl rfl

theorem Booked.create (h : Booked s) (hdoc : d.Documented) (hall : AllVesting now s)
    {beneficiary : Address} {start cliff duration slicePeriodSeconds : Uint256} {revocable : Bool}
    (hok : createVestingSchedule d m beneficiary start cliff duration slicePeriodSeconds revocable
      amount s = .ok s') (hcollision : Set.InjOn d.keccak256 s'.hashed) : Booked s' := by
  simp only [createVestingSchedule, bind_eq_ok, pure_eq_ok, hdoc.safeMath.add_eq_ok] at hok
  obtain ⟨-, -, _, -, -, -, -, -, -, -, -, -, -, -, cliffTime, -, total, -, count, hcount,
    rfl⟩ := hok
  have hunused := next_unused hall hcount rfl hcollision
  have hempty := h.unwritten _ (Bool.eq_false_iff.mpr hunused)
  refine h.write (g := ⟨true, beneficiary, cliffTime, start, duration, slicePeriodSeconds,
    revocable, amount, 0, false⟩) rfl ?_ ?_ (fun _ _ => rfl) rfl rfl
  · rw [hempty]
    exact (Nat.zero_add _).symm
  · rw [hempty]
    rfl

end TokenVesting

section Runs

variable {d : Deployment} {v w : VestingState d}

theorem VestingStep.booked (hdoc : d.Documented) (hstep : VestingStep v w)
    (hall : AllVesting v.now v.contract) (hcollision : Set.InjOn d.keccak256 w.contract.hashed)
    (hbooked : Booked v.contract) : Booked w.contract := by
  cases hstep with
  | call m call htime =>
      rcases commit_cases v.contract (execute d m v.contract call) with hsame | hok
      · rw [hsame]
        exact hbooked
      · refine execute_rule (R := fun s s' => Booked s → Booked s') hdoc
          (fun _ hindex hlog h => h.congr hindex hlog)
          (fun _ hfirst hsecond h => hsecond (hfirst h)) ?_
          (fun _ _ _ hok h => h.release hdoc hok)
          (fun _ _ hexists hok h => h.close hdoc hexists hok) hok hbooked
        intro beneficiary start cliff duration slicePeriodSeconds revocable amount hok h
        exact h.create hdoc hall hok hcollision
  | deposit hkept => exact { hbooked with }

theorem VestingStep.hashed_subset (hdoc : d.Documented) (hstep : VestingStep v w) :
    v.contract.hashed ⊆ w.contract.hashed := by
  have hchanges := hstep.changes hdoc
  clear hstep
  induction hchanges with
  | refl => exact subset_rfl
  | tail _ hchange ih => exact ih.trans hchange.hashed_subset

theorem booked_of_run (hdoc : d.Documented) (hall : AllVesting v.now v.contract)
    (hbooked : Booked v.contract) (hrun : Relation.ReflTransGen VestingStep v w)
    (hcollision : Set.InjOn d.keccak256 w.contract.hashed) : Booked w.contract := by
  induction hrun with
  | refl => exact hbooked
  | tail hrun hstep ih =>
      have hvesting := vesting_of_changes hall (VestingStep.changes_of_run hdoc hrun)
      exact hstep.booked hdoc hvesting hcollision
        (ih (hcollision.mono (hstep.hashed_subset hdoc)))

end Runs

/-- Every token that was granted is accounted for.  In every reachable state the
amount released of each schedule is what its events say, and everything granted
so far has been released, is still owed, or was freed by a revocation. -/
theorem granted_tokens_are_accounted_for {d : Deployment} {v : VestingState d}
    (hdoc : d.Documented) (hreach : v.Reachable)
    (hfaithful : v.contract.token ≠ 0 → d.tokens.Faithful v.contract.token)
    (hcollision : Set.InjOn d.keccak256 v.contract.hashed) :
    (∀ id, (v.contract.vestingSchedules id).released.val = releasedIn id v.contract.log) ∧
      grantedIn v.contract.log = ∑ id, releasedIn id v.contract.log +
        v.contract.vestingSchedulesTotalAmount.val +
        ∑ id with (v.contract.vestingSchedules id).revoked = true,
          ((v.contract.vestingSchedules id).amountTotal.val -
            (v.contract.vestingSchedules id).released.val) := by
  have hinv := hreach.accounted hdoc hfaithful hcollision
  have hbooked : Booked v.contract := by
    obtain ⟨now, owner, ledger, hrun⟩ := hreach
    exact booked_of_run hdoc (allVesting_genesis now owner ledger)
      (booked_genesis owner ledger) hrun hcollision
  refine ⟨hbooked.released, ?_⟩
  rw [← hbooked.granted, hinv.total, Finset.sum_filter, ← Finset.sum_add_distrib,
    ← Finset.sum_add_distrib]
  apply Finset.sum_congr rfl
  intro id _
  rw [← hbooked.released id]
  have hle := (hinv.vesting id).released_le
  by_cases hactive : (v.contract.vestingSchedules id).Active
  · rw [VestingSchedule.outstanding_of_active hactive, if_neg (by rw [hactive.2]; decide)]
    omega
  · rw [VestingSchedule.outstanding_of_not_active hactive]
    by_cases hexists : (v.contract.vestingSchedules id).initialized = true
    · have hrevoked : (v.contract.vestingSchedules id).revoked = true := by
        by_contra hopen
        exact hactive ⟨hexists, Bool.eq_false_iff.mpr hopen⟩
      rw [if_pos hrevoked]
      omega
    · rw [hbooked.unwritten id (Bool.eq_false_iff.mpr hexists)]
      rfl

/-- Of Bob's thousand units two hundred are released, and none was freed. -/
theorem granted_tokens_are_accounted_for_sample :
    releasedIn Sample.grantId Sample.collected.contract.log = 200 := by
  rw [← (granted_tokens_are_accounted_for Sample.deployment_documented Sample.collected_reachable
    Sample.collected_faithful (Sample.injOn_hashed_of_one Sample.collected_counts)).1,
    Sample.collected_grant]
  rfl

end Palmy
