/-
Revocation settles a schedule: the beneficiary gets what has vested, the rest
is free for the owner again, and nothing happens to the schedule afterwards.
-/
import Palmy.VestingCollection
import Palmy.VestingRegistry

namespace Palmy

open Solidity
open TokenVesting

namespace TokenVesting

variable {d : Deployment} {now : Uint256} {s s' : TokenVesting d} {m : Message} {id : Bytes32}
  {due : Uint256}

/-- What a revocation releases: everything due, if anything is. -/
theorem Accounted.release_due (hinv : Accounted now s) (hdoc : d.Documented)
    (hfaithful : d.tokens.Faithful s.token) (hpays : d.tokens.Pays s.token s.ledger)
    (hactive : (s.vestingSchedules id).Active)
    (hdue : computeReleasableAmountInternal d m.timestamp (s.vestingSchedules id) = .ok due)
    (howner : m.msgSender = d.ownable.owner s.owner) :
    ∃ paid released, (if 0 < due then release d m id due s else pure s) = .ok paid ∧
      released.val = (s.vestingSchedules id).released.val + due.val ∧
      paid.vestingSchedules = Function.update s.vestingSchedules id
        { s.vestingSchedules id with released := released } ∧
      paid.vestingSchedulesTotalAmount.val + due.val = s.vestingSchedulesTotalAmount.val ∧
      paid.token = s.token ∧
      Delegation.Moved (d.tokens.holdings s.token s.ledger) (d.tokens.holdings s.token paid.ledger)
        d.self (s.vestingSchedules id).beneficiary due.val := by
  by_cases hpositive : 0 < due
  · obtain ⟨paid, hpaid⟩ := hinv.succeeds_release hdoc hpays hactive hdue le_rfl
      (Or.inr howner)
    obtain ⟨_, _, released, total, ledger, -, -, -, -, -, hreleased, hle, htotal, htransfer,
      hafter⟩ := (release_eq_ok hdoc.safeMath).mp hpaid
    obtain ⟨-, hmoved⟩ := hfaithful.transfer_moves _ _ _ _ _ htransfer
    rw [if_pos hpositive]
    refine ⟨paid, released, hpaid, hreleased, ?_⟩
    rw [hafter]
    exact ⟨rfl, by simpa [htotal] using Nat.sub_add_cancel hle, rfl, hmoved⟩
  · have hzero : due.val = 0 := Nat.eq_zero_of_not_pos hpositive
    rw [if_neg hpositive, hzero]
    exact ⟨s, (s.vestingSchedules id).released, rfl, rfl,
      (Function.update_eq_self id s.vestingSchedules).symm, rfl, rfl, fun account => by simp⟩

/-- The owner can revoke whenever the formula answers.  What is due goes to the
beneficiary, and what is left of the schedule leaves the total. -/
theorem Accounted.revoke (hinv : Accounted now s) (hdoc : d.Documented)
    (hfaithful : d.tokens.Faithful s.token) (hpays : d.tokens.Pays s.token s.ledger)
    (hactive : (s.vestingSchedules id).Active)
    (hrevocable : (s.vestingSchedules id).revocable = true)
    (hdue : computeReleasableAmountInternal d m.timestamp (s.vestingSchedules id) = .ok due)
    (howner : m.msgSender = d.ownable.owner s.owner) :
    ∃ s' released, TokenVesting.revoke d m id s = .ok s' ∧
      released.val = (s.vestingSchedules id).released.val + due.val ∧
      s'.vestingSchedules = Function.update s.vestingSchedules id
        { s.vestingSchedules id with released := released, revoked := true } ∧
      s'.vestingSchedulesTotalAmount.val + ((s.vestingSchedules id).amountTotal.val -
        (s.vestingSchedules id).released.val) = s.vestingSchedulesTotalAmount.val ∧
      s'.token = s.token ∧
      Delegation.Moved (d.tokens.holdings s.token s.ledger) (d.tokens.holdings s.token s'.ledger)
        d.self (s.vestingSchedules id).beneficiary due.val := by
  obtain ⟨paid, released, hpaid, hreleased, hschedules, htotal, htoken, hmoved⟩ :=
    hinv.release_due hdoc hfaithful hpays hactive hdue howner
  have hroom := hinv.released_add_due_le hdoc hactive hdue
  have howed := hinv.outstanding_le_total id
  rw [VestingSchedule.outstanding_of_active hactive] at howed
  have hself : paid.vestingSchedules id = { s.vestingSchedules id with released := released } := by
    rw [hschedules, Function.update_self]
  have hamount : (paid.vestingSchedules id).amountTotal = (s.vestingSchedules id).amountTotal := by
    rw [hself]
  have hpaidOut : (paid.vestingSchedules id).released = released := by rw [hself]
  -- the rest of the schedule is still part of the total
  obtain ⟨s', hclose⟩ : Succeeds (closeSchedule d id paid) := succeeds_closeSchedule hdoc.safeMath
    (by rw [hamount, hpaidOut]; omega) (by rw [hamount, hpaidOut]; omega)
  have hrevoke : TokenVesting.revoke d m id s = .ok s' := by
    have honly : d.ownable.onlyOwner m.msgSender s.owner = .ok () :=
      (hdoc.ownable.onlyOwner_eq_ok _ _ _).mpr howner
    simp only [TokenVesting.revoke, bind_eq_ok, require_eq_ok, exists_const,
      onlyIfVestingScheduleNotRevoked_eq_ok]
    exact ⟨(), honly, hactive, hrevocable, due, hdue, paid, hpaid, hclose⟩
  obtain ⟨total, -, hrest, hafter⟩ := (closeSchedule_eq_ok hdoc.safeMath).mp hclose
  rw [hamount, hpaidOut] at hrest
  refine ⟨s', released, hrevoke, hreleased, ?_⟩
  rw [hafter]
  refine ⟨?_, ?_, htoken, hmoved⟩
  · change Function.update paid.vestingSchedules id _ = _
    rw [hself, hschedules, Function.update_idem]
  · change total.val + _ = _
    omega

/-- A schedule that was revoked answers to no call. -/
theorem not_succeeds_of_revoked (hrevoked : (s.vestingSchedules id).revoked = true)
    (amount : Uint256) :
    ¬ Succeeds (release d m id amount s) ∧ ¬ Succeeds (TokenVesting.revoke d m id s) ∧
      ¬ Succeeds (computeReleasableAmount d m id s) := by
  have hclosed : ¬ (s.vestingSchedules id).Active := fun hactive =>
    Bool.false_ne_true (hactive.2.symm.trans hrevoked)
  refine ⟨?_, ?_, ?_⟩
  · rintro ⟨s', h⟩
    simp only [release, bind_eq_ok, onlyIfVestingScheduleNotRevoked_eq_ok] at h
    obtain ⟨_, -, _, hactive, -⟩ := h
    exact hclosed hactive
  · rintro ⟨s', h⟩
    simp only [TokenVesting.revoke, bind_eq_ok, onlyIfVestingScheduleNotRevoked_eq_ok] at h
    obtain ⟨_, -, _, hactive, -⟩ := h
    exact hclosed hactive
  · rintro ⟨due, h⟩
    simp only [computeReleasableAmount, bind_eq_ok, onlyIfVestingScheduleNotRevoked_eq_ok] at h
    obtain ⟨_, hactive, -⟩ := h
    exact hclosed hactive

end TokenVesting

section Runs

variable {d : Deployment} {v w : VestingState d} {id : Bytes32}

/-- No change touches a revoked schedule. -/
theorem revoked_of_changes (hall : AllVesting v.now v.contract)
    (hexists : (v.contract.vestingSchedules id).initialized = true)
    (hrevoked : (v.contract.vestingSchedules id).revoked = true)
    (hrun : Relation.ReflTransGen VestingChange v w)
    (hcollision : Set.InjOn d.keccak256 w.contract.hashed) :
    w.contract.vestingSchedules id = v.contract.vestingSchedules id := by
  induction hrun with
  | refl => rfl
  | tail hrun hchange ih =>
      have hbefore := ih (hcollision.mono hchange.hashed_subset)
      rcases hchange.schedule_cases (vesting_of_changes hall hrun) hcollision
        (hbefore ▸ hexists) with hsame | ⟨hactive, -⟩
      · exact hsame.trans hbefore
      · rw [hbefore] at hactive
        exact absurd (hactive.2.symm.trans hrevoked) Bool.false_ne_true

end Runs

/-- Revocation settles a schedule exactly.  The owner can revoke an active
revocable schedule at any time: everything vested is released then, the
beneficiary gets what was missing, the total loses what the schedule still owed
and the withdrawable amount gains what never vested, while the other schedules
stay.  From then on no call on the schedule succeeds, and it never changes. -/
theorem revocation_settles_the_schedule {d : Deployment} {v : VestingState d} {m : Message}
    {id : Bytes32} (hdoc : d.Documented) (hreach : v.Reachable)
    (hstandard : d.tokens.Standard v.contract.token)
    (hcollision : Set.InjOn d.keccak256 v.contract.hashed)
    (hactive : (v.contract.vestingSchedules id).Active)
    (hrevocable : (v.contract.vestingSchedules id).revocable = true)
    (hfits : (v.contract.vestingSchedules id).Fits)
    (hbeneficiary : (v.contract.vestingSchedules id).beneficiary ≠ d.self)
    (htime : v.now ≤ m.timestamp) (howner : m.msgSender = d.ownable.owner v.contract.owner) :
    ∃ s', revoke d m id v.contract = .ok s' ∧
      (s'.vestingSchedules id).released.val =
        (v.contract.vestingSchedules id).vestedAt m.timestamp ∧
      d.tokens.holdings v.contract.token s'.ledger (v.contract.vestingSchedules id).beneficiary +
          (v.contract.vestingSchedules id).released.val =
        d.tokens.holdings v.contract.token v.contract.ledger
            (v.contract.vestingSchedules id).beneficiary +
          (v.contract.vestingSchedules id).vestedAt m.timestamp ∧
      s'.vestingSchedulesTotalAmount.val + (v.contract.vestingSchedules id).amountTotal.val =
        v.contract.vestingSchedulesTotalAmount.val +
          (v.contract.vestingSchedules id).released.val ∧
      (∃ before after, getWithdrawableAmount d v.contract = .ok before ∧
        getWithdrawableAmount d s' = .ok after ∧
        after.val + (v.contract.vestingSchedules id).vestedAt m.timestamp =
          before.val + (v.contract.vestingSchedules id).amountTotal.val) ∧
      (∀ other, other ≠ id → s'.vestingSchedules other = v.contract.vestingSchedules other) ∧
      ∀ w, Relation.ReflTransGen VestingStep ⟨m.timestamp, s'⟩ w →
        Set.InjOn d.keccak256 w.contract.hashed →
        w.contract.vestingSchedules id = s'.vestingSchedules id ∧
          ∀ m' amount, ¬ Succeeds (release d m' id amount w.contract) ∧
            ¬ Succeeds (revoke d m' id w.contract) ∧
            ¬ Succeeds (computeReleasableAmount d m' id w.contract) := by
  have hinv := hreach.accounted hdoc (fun _ => hstandard.toFaithful) hcollision
  obtain ⟨hreleasedLe, due, hdue, hvested⟩ :=
    (hinv.vesting id).due hdoc.safeMath hactive hfits htime
  obtain ⟨s', released, hrevoke, hreleased, hschedules, htotal, htoken, hmoved⟩ :=
    hinv.revoke hdoc hstandard.toFaithful (hstandard.pays _) hactive hrevocable hdue howner
  have hself : s'.vestingSchedules id =
      { v.contract.vestingSchedules id with released := released, revoked := true } := by
    rw [hschedules, Function.update_self]
  have hroom := hinv.released_add_due_le hdoc hactive hdue
  have hfunded := hinv.funded (hinv.token_ne_zero hactive)
  have hdebit := hmoved d.self
  rw [if_pos rfl, if_neg hbeneficiary, Nat.add_zero] at hdebit
  have hcredit := hmoved (v.contract.vestingSchedules id).beneficiary
  rw [if_pos rfl, if_neg hbeneficiary.symm, Nat.add_zero] at hcredit
  refine ⟨s', hrevoke, ?_, ?_, ?_, ?_, ?_, ?_⟩
  · rw [hself, ← hvested]
    exact hreleased
  · omega
  · omega
  · obtain ⟨before, hbefore, hbeforeVal⟩ := getWithdrawableAmount_of_le hdoc.safeMath
      hstandard.toFaithful hfunded
    obtain ⟨after, hafter, hafterVal⟩ := getWithdrawableAmount_of_le (s := s') hdoc.safeMath
      (htoken ▸ hstandard.toFaithful) (by rw [htoken]; omega)
    rw [htoken] at hafterVal
    exact ⟨before, after, hbefore, hafter, by omega⟩
  · intro other hne
    rw [hschedules, Function.update_of_ne hne]
  · intro w hrun hinjective
    have hrevoked : (s'.vestingSchedules id).revoked = true := by rw [hself]
    have hexists : (s'.vestingSchedules id).initialized = true := by
      rw [hself]
      exact hactive.1
    have hsettled : (⟨m.timestamp, s'⟩ : VestingState d).Reachable :=
      hreach.run (.single (.of_ok (.revoke id) htime hrevoke))
    have hsame : w.contract.vestingSchedules id = s'.vestingSchedules id :=
      revoked_of_changes (hsettled.vesting hdoc) hexists hrevoked
        (VestingStep.changes_of_run hdoc hrun) hinjective
    exact ⟨hsame, fun m' amount => not_succeeds_of_revoked (hsame ▸ hrevoked) amount⟩

/-- Alice revokes Bob's grant after three quarters of the time: he has 750
units in all, and the other 250 are hers again. -/
theorem revocation_settles_the_schedule_sample :
    ∃ s', revoke Sample.deployment ⟨Sample.alice, 85⟩ Sample.grantId Sample.collected.contract =
        .ok s' ∧
      (s'.vestingSchedules Sample.grantId).released.val = 750 := by
  have hgrant := Sample.collected_grant
  have hactive : (Sample.collected.contract.vestingSchedules Sample.grantId).Active := by
    rw [hgrant]
    decide
  obtain ⟨s', hrevoke, hreleased, -⟩ := revocation_settles_the_schedule
    (m := ⟨Sample.alice, 85⟩) Sample.deployment_documented Sample.collected_reachable
    (Sample.collected_standard (by decide))
    (Sample.injOn_hashed_of_one Sample.collected_counts) hactive (by rw [hgrant])
    (by rw [hgrant]; exact ⟨by decide, by decide⟩) (by rw [hgrant]; decide) (by decide) (by rfl)
  refine ⟨s', hrevoke, hreleased.trans ?_⟩
  rw [hgrant]
  decide

end Palmy
