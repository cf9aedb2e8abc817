/-
Schedules that lock their tokens.  A creation checks that start and cliff add
up, but not that start and duration do; the release formula adds them from the
cliff on, so that a schedule whose end overflows answers to nobody any more.
Nor does it check that the clock ever comes to the cliff and the end.
-/
import Palmy.VestingCurve
import Palmy.VestingRevocation

namespace Palmy

open Solidity
open TokenVesting

/-- The time and the supply of PLMY are too small to overflow the formula. -/
theorem VestingSchedule.scaled_lt {g : VestingSchedule} {t : Uint256}
    (hamount : g.amountTotal.val ≤ 10 ^ 25) (hclock : t.val < 2 ^ 64) :
    g.amountTotal.val * g.terms.elapsed t.val < 2 ^ 256 := by
  have helapsed : g.terms.elapsed t.val ≤ 2 ^ 64 := by
    have := g.terms.elapsed_le t.val
    omega
  exact Nat.lt_of_le_of_lt (Nat.mul_le_mul hamount helapsed) (by decide)

namespace TokenVesting

variable {d : Deployment} {now : Uint256} {s s' : TokenVesting d} {m : Message} {id : Bytes32}

theorem succeeds_computeReleasableAmount_iff :
    Succeeds (computeReleasableAmount d m id s) ↔ (s.vestingSchedules id).Active ∧
      Succeeds (computeReleasableAmountInternal d m.timestamp (s.vestingSchedules id)) := by
  simp only [Succeeds, computeReleasableAmount, bind_eq_ok,
    onlyIfVestingScheduleNotRevoked_eq_ok, exists_const]
  exact exists_and_left

/-- A schedule whose end does not overflow answers at every time the clock can
show, and so does one whose cliff the clock never reaches. -/
theorem Vesting.succeeds (hdoc : d.safeMath.Documented) {counts : Address → Uint256}
    {g : VestingSchedule} (h : Vesting d now counts id g) (hactive : g.Active)
    (hamount : g.amountTotal.val ≤ 10 ^ 25)
    (hterms : g.start.val + g.duration.val < 2 ^ 256 ∨ 2 ^ 64 ≤ g.cliff.val) {t : Uint256}
    (htime : now ≤ t) (hclock : t.val < 2 ^ 64) :
    Succeeds (computeReleasableAmountInternal d t g) := by
  rcases hterms with hfinish | hcliff
  · have hvesting := h.mono htime
    exact succeeds_computeReleasableAmountInternal hdoc (hvesting.sound hactive.1) hfinish
      (fun _ => VestingSchedule.scaled_lt hamount hclock) (hvesting.released_le_vested hactive)
  · have hearly : t < g.cliff := Nat.lt_of_lt_of_le hclock hcliff
    rw [computeReleasableAmountInternal, if_pos (Or.inl hearly)]
    exact succeeds_pure 0

/-- A schedule whose end overflows answers no call from the cliff on. -/
theorem locked_of_overflow (hdoc : d.safeMath.Documented) {g : VestingSchedule}
    (hstored : s.vestingSchedules id = g) (hactive : g.Active)
    (hoverflow : 2 ^ 256 ≤ g.start.val + g.duration.val) (hcliff : g.cliff ≤ m.timestamp) :
    ¬ Succeeds (computeReleasableAmount d m id s) ∧ ¬ Succeeds (revoke d m id s) ∧
      ∀ amount, ¬ Succeeds (release d m id amount s) := by
  subst hstored
  have hnone := not_succeeds_computeReleasableAmountInternal hdoc hactive hcliff hoverflow
  refine ⟨fun h => hnone (succeeds_computeReleasableAmount_iff.mp h).2, ?_, ?_⟩
  · rintro ⟨s', h⟩
    simp only [revoke, bind_eq_ok] at h
    obtain ⟨_, -, _, -, _, -, due, hdue, -⟩ := h
    exact hnone ⟨due, hdue⟩
  · rintro amount ⟨s', h⟩
    obtain ⟨_, due, _, _, _, -, -, -, hdue, -⟩ := (release_eq_ok hdoc).mp h
    exact hnone ⟨due, hdue⟩

/-- What a schedule still owes is within reach: the formula answers, what is due
can be released, and the rest leaves the total when the owner revokes or, where
he may not, when the beneficiary releases it in the end. -/
structure Unlocked (d : Deployment) (m : Message) (id : Bytes32) (s : TokenVesting d) :
    Prop where
  answers : Succeeds (computeReleasableAmount d m id s)
  releases : ∀ due amount, computeReleasableAmount d m id s = .ok due → amount ≤ due →
    m.msgSender = (s.vestingSchedules id).beneficiary ∨
      m.msgSender = d.ownable.owner s.owner →
    Succeeds (release d m id amount s)
  revokes : (s.vestingSchedules id).revocable = true →
    m.msgSender = d.ownable.owner s.owner →
    ∃ s', revoke d m id s = .ok s' ∧
      s'.vestingSchedulesTotalAmount.val + (s.vestingSchedules id).outstanding =
        s.vestingSchedulesTotalAmount.val
  ends : (s.vestingSchedules id).revocable = false →
    ∃ t rest s', m.timestamp ≤ t ∧ t.val < 2 ^ 64 ∧
      release d ⟨(s.vestingSchedules id).beneficiary, t⟩ id rest s = .ok s' ∧
      s'.vestingSchedulesTotalAmount.val + (s.vestingSchedules id).outstanding =
        s.vestingSchedulesTotalAmount.val

theorem total_of_release {amount : Uint256} (hdoc : d.safeMath.Documented)
    (h : release d m id amount s = .ok s') :
    s'.vestingSchedulesTotalAmount.val + amount.val = s.vestingSchedulesTotalAmount.val := by
  obtain ⟨_, _, _, total, _, -, -, -, -, -, -, hle, htotal, -, rfl⟩ := (release_eq_ok hdoc).mp h
  change total.val + amount.val = _
  omega

/-- When the cliff and the end are passed, all that is owed is due. -/
theorem Vesting.due_of_end (hdoc : d.safeMath.Documented) {counts : Address → Uint256}
    {g : VestingSchedule} (h : Vesting d now counts id g) (hactive : g.Active)
    (hamount : g.amountTotal.val ≤ 10 ^ 25) {t : Uint256} (htime : now ≤ t)
    (hclock : t.val < 2 ^ 64) (hcliff : g.cliff ≤ t) (hend : g.start.val + g.duration.val ≤ t.val) :
    ∃ due, computeReleasableAmountInternal d t g = .ok due ∧ due.val = g.outstanding := by
  obtain ⟨due, hdue⟩ := h.succeeds hdoc hactive hamount (Or.inl (by omega)) htime hclock
  refine ⟨due, hdue, ?_⟩
  rw [VestingSchedule.outstanding_of_active hactive]
  rcases computeReleasableAmountInternal_cases hdoc hactive hdue with ⟨hearly, -⟩ | ⟨-, hsum⟩
  · exact absurd hearly (not_lt.mpr hcliff)
  · have hall : g.vestedAt t = g.amountTotal.val := Accrual.accrued_of_end_le hcliff hend
    omega

/-- Nobody can release all that is owed before both the cliff and the end. -/
theorem ended_of_release {rest : Uint256} (hdoc : d.safeMath.Documented)
    (hsound : (s.vestingSchedules id).Sound) (howed : 0 < (s.vestingSchedules id).outstanding)
    (h : release d m id rest s = .ok s')
    (hrest : s'.vestingSchedulesTotalAmount.val + (s.vestingSchedules id).outstanding =
      s.vestingSchedulesTotalAmount.val) :
    (s.vestingSchedules id).cliff ≤ m.timestamp ∧
      (s.vestingSchedules id).start.val + (s.vestingSchedules id).duration.val ≤
        m.timestamp.val := by
  have hpaid := total_of_release hdoc h
  obtain ⟨_, due, _, _, _, -, hactive, -, hdue, henough, -⟩ := (release_eq_ok hdoc).mp h
  rw [VestingSchedule.outstanding_of_active hactive] at howed hrest
  have hvested : (s.vestingSchedules id).amountTotal.val ≤
      (s.vestingSchedules id).vestedAt m.timestamp := by
    rcases computeReleasableAmountInternal_cases hdoc hactive hdue with ⟨-, rfl⟩ | ⟨-, hsum⟩
    · have hnothing : rest.val = 0 := Nat.le_zero.mp henough
      omega
    · omega
  exact (Accrual.total_le_accrued_iff (p := (s.vestingSchedules id).terms)
    (Nat.lt_of_lt_of_le howed (Nat.sub_le _ _)) hsound.duration).mp hvested

/-- Balanced accounts lock nothing of a schedule for which the formula answers, and
which can be revoked or comes to its end. -/
theorem Accounted.unlocked (hinv : Accounted now s) (hdoc : d.Documented)
    (hstandard : d.tokens.Standard s.token) (hactive : (s.vestingSchedules id).Active)
    (hformula : Succeeds (computeReleasableAmountInternal d m.timestamp (s.vestingSchedules id)))
    (hend : (s.vestingSchedules id).revocable = false → ∃ t due, m.timestamp ≤ t ∧
      t.val < 2 ^ 64 ∧ computeReleasableAmountInternal d t (s.vestingSchedules id) = .ok due ∧
      due.val = (s.vestingSchedules id).outstanding) :
    Unlocked d m id s where
  answers := succeeds_computeReleasableAmount_iff.mpr ⟨hactive, hformula⟩
  releases due amount hanswer henough hcaller := by
    simp only [computeReleasableAmount, bind_eq_ok] at hanswer
    obtain ⟨_, -, hdue⟩ := hanswer
    exact hinv.succeeds_release hdoc (hstandard.pays _) hactive hdue henough hcaller
  revokes hrevocable howner := by
    obtain ⟨due, hdue⟩ := hformula
    obtain ⟨s', -, hrevoke, -, -, htotal, -⟩ := hinv.revoke hdoc hstandard.toFaithful
      (hstandard.pays _) hactive hrevocable hdue howner
    rw [VestingSchedule.outstanding_of_active hactive]
    exact ⟨s', hrevoke, htotal⟩
  ends hirrevocable := by
    obtain ⟨t, due, hlater, hclock, hdue, hall⟩ := hend hirrevocable
    obtain ⟨s', hrelease⟩ := hinv.succeeds_release
      (m := ⟨(s.vestingSchedules id).beneficiary, t⟩) hdoc (hstandard.pays _) hactive hdue le_rfl
      (Or.inl rfl)
    exact ⟨t, due, s', hlater, hclock, hrelease,
      hall ▸ total_of_release hdoc.safeMath hrelease⟩

end TokenVesting

section Runs

variable {d : Deployment} {v w : VestingState d} {m : Message} {id : Bytes32}
  {g : VestingSchedule}

/-- In a later state the accounts balance, in the same token, and the schedule has
its old terms. -/
theorem schedule_of_run (hdoc : d.Documented) (hreach : v.Reachable)
    (hbound : v.contract.token ≠ 0) (hfaithful : d.tokens.Faithful v.contract.token)
    (hstored : v.contract.vestingSchedules id = g) (hexists : g.initialized = true)
    (hrun : Relation.ReflTransGen VestingStep v w)
    (hcollision : Set.InjOn d.keccak256 w.contract.hashed) :
    w.contract.token = v.contract.token ∧ Accounted w.now w.contract ∧
      g.Continues (w.contract.vestingSchedules id) := by
  subst hstored
  have hchanges := VestingStep.changes_of_run hdoc hrun
  have htoken := token_eq_of_changes hdoc (hreach.tokenFixed hdoc) hbound hchanges
  exact ⟨htoken, (hreach.run hrun).accounted hdoc (fun _ => htoken ▸ hfaithful) hcollision,
    continues_of_changes (hreach.vesting hdoc) hchanges hcollision hexists⟩

/-- There the formula answers as long as the schedule is not revoked. -/
theorem answers_of_run (hdoc : d.Documented) (hinv : Accounted w.now w.contract)
    (hcontinues : g.Continues (w.contract.vestingSchedules id)) (hexists : g.initialized = true)
    (hamount : g.amountTotal.val ≤ 10 ^ 25)
    (hterms : g.start.val + g.duration.val < 2 ^ 256 ∨ 2 ^ 64 ≤ g.cliff.val)
    (htime : w.now ≤ m.timestamp) (hclock : m.timestamp.val < 2 ^ 64)
    (hrevoked : (w.contract.vestingSchedules id).revoked = false) :
    (w.contract.vestingSchedules id).Active ∧
      Succeeds (computeReleasableAmountInternal d m.timestamp (w.contract.vestingSchedules id)) := by
  have hactive : (w.contract.vestingSchedules id).Active :=
    ⟨hcontinues.initialized.trans hexists, hrevoked⟩
  rw [← hcontinues.amountTotal] at hamount
  rw [← hcontinues.start, ← hcontinues.duration, ← hcontinues.cliff] at hterms
  exact ⟨hactive, (hinv.vesting id).succeeds hdoc.safeMath hactive hamount hterms htime hclock⟩

/-- A schedule whose end does not overflow, or whose cliff is out of reach, answers as
long as it is not revoked, and its owner can revoke it. -/
theorem never_locks (hdoc : d.Documented) (hreach : v.Reachable)
    (hbound : v.contract.token ≠ 0) (hstandard : d.tokens.Standard v.contract.token)
    (hstored : v.contract.vestingSchedules id = g) (hexists : g.initialized = true)
    (hamount : g.amountTotal.val ≤ 10 ^ 25)
    (hterms : g.start.val + g.duration.val < 2 ^ 256 ∨ 2 ^ 64 ≤ g.cliff.val)
    (hrun : Relation.ReflTransGen VestingStep v w)
    (hcollision : Set.InjOn d.keccak256 w.contract.hashed) (htime : w.now ≤ m.timestamp)
    (hclock : m.timestamp.val < 2 ^ 64)
    (hrevoked : (w.contract.vestingSchedules id).revoked = false) :
    Succeeds (computeReleasableAmount d m id w.contract) ∧
      (g.revocable = true → m.msgSender = d.ownable.owner w.contract.owner →
        Succeeds (revoke d m id w.contract)) := by
  obtain ⟨htoken, hinv, hcontinues⟩ := schedule_of_run hdoc hreach hbound hstandard.toFaithful
    hstored hexists hrun hcollision
  obtain ⟨hactive, hformula⟩ := answers_of_run hdoc hinv hcontinues hexists hamount hterms htime
    hclock hrevoked
  refine ⟨succeeds_computeReleasableAmount_iff.mpr ⟨hactive, hformula⟩, ?_⟩
  intro hrevocable howner
  obtain ⟨due, hdue⟩ := hformula
  obtain ⟨s', -, hrevoke, -⟩ := hinv.revoke hdoc (htoken ▸ hstandard.toFaithful)
    (htoken ▸ hstandard.pays _) hactive (hcontinues.revocable.trans hrevocable) hdue howner
  exact ⟨s', hrevoke⟩

/-- Nothing of it is locked when it can be revoked, and the formula always answers,
or when the clock comes to its cliff and its end. -/
theorem unlocked_of_run (hdoc : d.Documented) (hreach : v.Reachable)
    (hbound : v.contract.token ≠ 0) (hstandard : d.tokens.Standard v.contract.token)
    (hstored : v.contract.vestingSchedules id = g) (hexists : g.initialized = true)
    (hamount : g.amountTotal.val ≤ 10 ^ 25)
    (hterms : g.revocable = true ∧
        (g.start.val + g.duration.val < 2 ^ 256 ∨ 2 ^ 64 ≤ g.cliff.val) ∨
      g.revocable = false ∧ g.cliff.val < 2 ^ 64 ∧ g.start.val + g.duration.val < 2 ^ 64)
    (hrun : Relation.ReflTransGen VestingStep v w)
    (hcollision : Set.InjOn d.keccak256 w.contract.hashed) (htime : w.now ≤ m.timestamp)
    (hclock : m.timestamp.val < 2 ^ 64)
    (hrevoked : (w.contract.vestingSchedules id).revoked = false) :
    Unlocked d m id w.contract := by
  obtain ⟨htoken, hinv, hcontinues⟩ := schedule_of_run hdoc hreach hbound hstandard.toFaithful
    hstored hexists hrun hcollision
  have hfinite : g.start.val + g.duration.val < 2 ^ 256 ∨ 2 ^ 64 ≤ g.cliff.val := by
    rcases hterms with ⟨-, hrevocable⟩ | ⟨-, -, hend⟩
    · exact hrevocable
    · exact Or.inl (by omega)
  obtain ⟨hactive, hformula⟩ := answers_of_run hdoc hinv hcontinues hexists hamount hfinite htime
    hclock hrevoked
  refine hinv.unlocked hdoc (htoken ▸ hstandard) hactive hformula fun hirrevocable => ?_
  rw [hcontinues.revocable] at hirrevocable
  rcases hterms with ⟨hrevocable, -⟩ | ⟨-, hcliff, hend⟩
  · exact absurd (hirrevocable.symm.trans hrevocable) Bool.false_ne_true
  -- the last second the clock can show
  let last : Uint256 := ⟨2 ^ 64 - 1, by decide⟩
  have hlast : last.val = 2 ^ 64 - 1 := rfl
  have hlater : m.timestamp ≤ last := Fin.le_def.mpr (by omega)
  obtain ⟨due, hdue, hall⟩ := (hinv.vesting id).due_of_end (t := last) hdoc.safeMath hactive
    (hcontinues.amountTotal ▸ hamount) (htime.trans hlater) (by omega)
    (hcontinues.cliff ▸ Fin.le_def.mpr (by omega))
    (by rw [hcontinues.start, hcontinues.duration]; omega)
  exact ⟨last, due, hlater, by omega, hdue, hall⟩

end Runs

section Creations

variable {d : Deployment} {v : VestingState d} {m : Message} {beneficiary : Address}
  {start cliff duration slicePeriodSeconds : Uint256} {revocable : Bool} {amount : Uint256}
  {s' : TokenVesting d}

/-- What is accepted is PLMY that the contract holds. -/
theorem amount_of_createVestingSchedule (hdoc : d.Documented)
    (hsupply : d.tokens.holdings v.contract.token v.contract.ledger d.self ≤ 10 ^ 25)
    (hcreate : createVestingSchedule d m beneficiary start cliff duration slicePeriodSeconds
      revocable amount v.contract = .ok s') :
    v.contract.token ≠ 0 ∧ s'.token = v.contract.token ∧ 0 < amount.val ∧
      amount.val ≤ 10 ^ 25 := by
  obtain ⟨_, balance, _, _, _, -, -, hpositive, hbalance, hroom, -, -, hafter⟩ :=
    createVestingSchedule_cases hdoc hcreate
  rw [OpenZeppelin.Tokens.holdings_of_balanceOf hbalance] at hsupply
  exact ⟨OpenZeppelin.Tokens.token_ne_zero_of_balanceOf hbalance, by rw [hafter], hpositive,
    by omega⟩

/-- With PLMY as the token and a clock below `2^64`, an accepted schedule answers
`computeReleasableAmount`, and its owner can revoke it, in every later state in
which it is not revoked, exactly when its end does not overflow or its cliff is
out of the clock's reach. -/
theorem schedule_answers_iff (hdoc : d.Documented) (hreach : v.Reachable)
    (hstandard : d.tokens.Standard v.contract.token)
    (hsupply : d.tokens.holdings v.contract.token v.contract.ledger d.self ≤ 10 ^ 25)
    (htime : v.now ≤ m.timestamp) (hclock : m.timestamp.val < 2 ^ 64)
    (hcreate : createVestingSchedule d m beneficiary start cliff duration slicePeriodSeconds
      revocable amount v.contract = .ok s')
    (hcollision : Set.InjOn d.keccak256 s'.hashed) :
    (∀ w m', Relation.ReflTransGen VestingStep ⟨m.timestamp, s'⟩ w →
        Set.InjOn d.keccak256 w.contract.hashed → w.now ≤ m'.timestamp →
        m'.timestamp.val < 2 ^ 64 →
        (w.contract.vestingSchedules
          (computeNextVestingScheduleIdForHolder d v.contract beneficiary)).revoked = false →
        Succeeds (computeReleasableAmount d m'
            (computeNextVestingScheduleIdForHolder d v.contract beneficiary) w.contract) ∧
          (revocable = true → m'.msgSender = d.ownable.owner w.contract.owner →
            Succeeds (revoke d m'
              (computeNextVestingScheduleIdForHolder d v.contract beneficiary) w.contract))) ↔
      start.val + duration.val < 2 ^ 256 ∨ 2 ^ 64 ≤ start.val + cliff.val := by
  have hcreated := hreach.created htime hcreate
  obtain ⟨cliffTime, hcliff, hnew, hstored⟩ := stored_of_createVestingSchedule hdoc hcreate
  obtain ⟨hbound, htoken, -, hamount⟩ := amount_of_createVestingSchedule hdoc hsupply hcreate
  rw [← hcliff]
  generalize computeNextVestingScheduleIdForHolder d v.contract beneficiary = id at hstored ⊢
  constructor
  · intro hanswers
    by_contra hlocks
    rw [not_or, Nat.not_lt, Nat.not_le] at hlocks
    -- the first time at which the cliff is passed and the clock has come to
    have hlater : (max m.timestamp cliffTime).val < 2 ^ 64 := by
      rcases max_choice m.timestamp cliffTime with hmax | hmax
      · rw [hmax]
        exact hclock
      · rw [hmax]
        exact hlocks.2
    have hnone := locked_of_overflow (m := ⟨m.msgSender, max m.timestamp cliffTime⟩)
      hdoc.safeMath hstored hnew.active hlocks.1 (le_max_right _ _)
    have hanswer := hanswers ⟨m.timestamp, s'⟩ ⟨m.msgSender, max m.timestamp cliffTime⟩ .refl
      hcollision (le_max_left _ _) hlater (congrArg VestingSchedule.revoked hstored)
    exact hnone.1 hanswer.1
  · intro hterms w m' hrun hinjective hlater hshown hrevoked
    exact never_locks hdoc hcreated (htoken.symm ▸ hbound) (htoken.symm ▸ hstandard) hstored rfl
      hamount hterms hrun hinjective hlater hshown hrevoked

end Creations

/-- Which accepted schedules never lock their tokens, with PLMY as the token and a
clock below `2^64`.  In every later state in which the schedule is not revoked it
answers, what is due of it can be released, and what it still owes can be freed
by the owner or, where it is not revocable, be released in the end: for a
revocable one exactly when its end does not overflow or its cliff is out of the
clock's reach, for another one exactly when the clock comes to both. -/
theorem schedule_never_locks_iff {d : Deployment} {v : VestingState d} {m : Message}
    {beneficiary : Address} {start cliff duration slicePeriodSeconds : Uint256}
    {revocable : Bool} {amount : Uint256} {s' : TokenVesting d} (hdoc : d.Documented)
    (hreach : v.Reachable) (hstandard : d.tokens.Standard v.contract.token)
    (hsupply : d.tokens.holdings v.contract.token v.contract.ledger d.self ≤ 10 ^ 25)
    (htime : v.now ≤ m.timestamp) (hclock : m.timestamp.val < 2 ^ 64)
    (hcreate : createVestingSchedule d m beneficiary start cliff duration slicePeriodSeconds
      revocable amount v.contract = .ok s')
    (hcollision : Set.InjOn d.keccak256 s'.hashed) :
    (∀ w m', Relation.ReflTransGen VestingStep ⟨m.timestamp, s'⟩ w →
        Set.InjOn d.keccak256 w.contract.hashed → w.now ≤ m'.timestamp →
        m'.timestamp.val < 2 ^ 64 →
        (w.contract.vestingSchedules
          (computeNextVestingScheduleIdForHolder d v.contract beneficiary)).revoked = false →
        Unlocked d m' (computeNextVestingScheduleIdForHolder d v.contract beneficiary)
          w.contract) ↔
      revocable = true ∧
          (start.val + duration.val < 2 ^ 256 ∨ 2 ^ 64 ≤ start.val + cliff.val) ∨
        revocable = false ∧ start.val + cliff.val < 2 ^ 64 ∧
          start.val + duration.val < 2 ^ 64 := by
  have hanswersIff := schedule_answers_iff hdoc hreach hstandard hsupply htime hclock hcreate
    hcollision
  have hcreated := hreach.created htime hcreate
  obtain ⟨cliffTime, hcliff, hnew, hstored⟩ := stored_of_createVestingSchedule hdoc hcreate
  obtain ⟨hbound, htoken, hpositive, hamount⟩ :=
    amount_of_createVestingSchedule hdoc hsupply hcreate
  rw [← hcliff] at hanswersIff ⊢
  generalize computeNextVestingScheduleIdForHolder d v.contract beneficiary = id
    at hstored hanswersIff ⊢
  have hstandard' : d.tokens.Standard s'.token := htoken.symm ▸ hstandard
  have hbound' : s'.token ≠ 0 := htoken.symm ▸ hbound
  constructor
  · intro hunlocked
    cases revocable with
    | true =>
        refine Or.inl ⟨rfl, hanswersIff.mp fun w m' hrun hinjective hlater hshown hrevoked => ?_⟩
        have hopen := hunlocked w m' hrun hinjective hlater hshown hrevoked
        obtain ⟨-, -, hcontinues⟩ := schedule_of_run hdoc hcreated hbound'
          hstandard'.toFaithful hstored rfl hrun hinjective
        refine ⟨hopen.answers, fun _ howner => ?_⟩
        obtain ⟨s₁, hrevoke, -⟩ := hopen.revokes hcontinues.revocable howner
        exact ⟨s₁, hrevoke⟩
    | false =>
        -- right after its creation all of the schedule is owed
        have hopen := hunlocked ⟨m.timestamp, s'⟩ m .refl hcollision le_rfl hclock
          (congrArg VestingSchedule.revoked hstored)
        obtain ⟨t, rest, s₁, -, hshown, hrelease, hrest⟩ :=
          hopen.ends (congrArg VestingSchedule.revocable hstored)
        have howed : 0 < (s'.vestingSchedules id).outstanding := by
          rw [hstored, VestingSchedule.outstanding_of_active hnew.active]
          exact hpositive
        obtain ⟨hpassed, hended⟩ := ended_of_release hdoc.safeMath (hstored ▸ hnew.toSound) howed
          hrelease hrest
        rw [hstored] at hpassed hended
        exact Or.inr ⟨rfl, Nat.lt_of_le_of_lt hpassed hshown, Nat.lt_of_le_of_lt hended hshown⟩
  · intro hterms w m' hrun hinjective hlater hshown hrevoked
    exact unlocked_of_run hdoc hcreated hbound' hstandard' hstored rfl hamount hterms hrun
      hinjective hlater hshown hrevoked

namespace Sample

/-- The longest duration there is. -/
def forever : Uint256 := Fin.ofNat (2 ^ 256) (2 ^ 256 - 1)

/-- Alice grants Bob a thousand units, from time 10 on, over that duration. -/
def locked : VestingState deployment :=
  send bound ⟨alice, 10⟩ (.createVestingSchedule bob 10 0 forever 1 true 1000)

theorem locked_reachable : locked.Reachable :=
  bound_reachable.run (.single (.call _ _ (by decide)))

theorem createVestingSchedule_forever :
    createVestingSchedule deployment ⟨alice, 10⟩ bob 10 0 forever 1 true 1000 bound.contract =
      .ok locked.contract := by
  rfl

theorem locked_grant : locked.contract.vestingSchedules grantId =
    ⟨true, bob, 10, 10, forever, 1, true, 1000, 0, false⟩ := by
  decide +kernel

theorem bound_holdings :
    deployment.tokens.holdings bound.contract.token bound.contract.ledger vestingAddress ≤
      10 ^ 25 := by
  decide +kernel

end Sample

/-- The contract accepts a grant over the longest duration.  From its start on
nobody can ask what is due of it, Alice cannot revoke it, and Bob cannot collect
any of it. -/
theorem accepted_schedule_locks_its_tokens :
    createVestingSchedule Sample.deployment ⟨Sample.alice, 10⟩ Sample.bob 10 0 Sample.forever 1
        true 1000 Sample.bound.contract = .ok Sample.locked.contract ∧
      Sample.locked.Reachable ∧
      (Sample.locked.contract.vestingSchedules Sample.grantId).Active ∧
      (Sample.locked.contract.vestingSchedules Sample.grantId).revocable = true ∧
      ∀ t, 10 ≤ t →
        ¬ Succeeds (computeReleasableAmount Sample.deployment ⟨Sample.alice, t⟩ Sample.grantId
          Sample.locked.contract) ∧
        ¬ Succeeds (revoke Sample.deployment ⟨Sample.alice, t⟩ Sample.grantId
          Sample.locked.contract) ∧
        ∀ amount, ¬ Succeeds (release Sample.deployment ⟨Sample.bob, t⟩ Sample.grantId amount
          Sample.locked.contract) := by
  have hgrant := Sample.locked_grant
  refine ⟨Sample.createVestingSchedule_forever, Sample.locked_reachable, ?_, ?_, ?_⟩
  · rw [hgrant]
    decide
  · rw [hgrant]
  · intro t ht
    have hlocked (caller : Address) := locked_of_overflow (m := ⟨caller, t⟩)
      Sample.deployment_documented.safeMath hgrant (by decide) (by decide) ht
    exact ⟨(hlocked Sample.alice).1, (hlocked Sample.alice).2.1, (hlocked Sample.bob).2.2⟩

/-- After Bob's collection nothing of his grant over a hundred seconds is locked. -/
theorem schedule_never_locks_iff_sample :
    Unlocked Sample.deployment ⟨Sample.bob, 60⟩ Sample.grantId Sample.collected.contract :=
  (schedule_never_locks_iff Sample.deployment_documented Sample.bound_reachable
    (ERC20.standard_deployedAt (by decide)) Sample.bound_holdings (by decide) (by decide)
    Sample.createVestingSchedule_bound (Sample.injOn_hashed_of_one (by rfl))).mpr
    (Or.inl ⟨rfl, Or.inl (by decide)⟩) Sample.collected ⟨Sample.bob, 60⟩
    (.single (.call _ _ (by decide))) (Sample.injOn_hashed_of_one Sample.collected_counts)
    (by decide) (by decide) (congrArg VestingSchedule.revoked Sample.collected_grant)

end Palmy
