/-
A grant that is not revoked can be collected: whoever may release it gets what
has vested and is not released yet, and nothing more, whatever happened to the
other schedules before.
-/
import Palmy.VestingSolvency

namespace Palmy

open Solidity
open TokenVesting

namespace TokenVesting

variable {d : Deployment} {now : Uint256} {s s' : TokenVesting d} {m : Message} {id : Bytes32}
  {amount : Uint256}

/-- What is due is part of what a schedule owes. -/
theorem Accounted.released_add_due_le (hinv : Accounted now s) (hdoc : d.Documented)
    (hactive : (s.vestingSchedules id).Active) {t due : Uint256}
    (hdue : computeReleasableAmountInternal d t (s.vestingSchedules id) = .ok due) :
    (s.vestingSchedules id).released.val + due.val ≤ (s.vestingSchedules id).amountTotal.val := by
  rcases computeReleasableAmountInternal_cases hdoc.safeMath hactive hdue with
    ⟨-, rfl⟩ | ⟨-, hvested⟩
  · exact (hinv.vesting id).released_le
  · exact hvested.trans_le (VestingSchedule.vestedAt_le _ _)

/-- Somebody who may call it can release what is due: the guard is open, the
total covers the schedule, and the balance covers the total. -/
theorem Accounted.succeeds_release (hinv : Accounted now s) (hdoc : d.Documented)
    (hpays : d.tokens.Pays s.token s.ledger) (hactive : (s.vestingSchedules id).Active)
    {due : Uint256}
    (hdue : computeReleasableAmountInternal d m.timestamp (s.vestingSchedules id) = .ok due)
    (henough : amount.val ≤ due.val)
    (hcaller : m.msgSender = (s.vestingSchedules id).beneficiary ∨
      m.msgSender = d.ownable.owner s.owner) : Succeeds (release d m id amount s) := by
  have hroom := hinv.released_add_due_le hdoc hactive hdue
  have howed := hinv.outstanding_le_total id
  rw [VestingSchedule.outstanding_of_active hactive] at howed
  have hcovered := hinv.funded (hinv.token_ne_zero hactive)
  obtain ⟨entered, henter⟩ := hinv.idle
  obtain ⟨released, -, hreleased⟩ := hdoc.safeMath.add_of_lt
    (show (s.vestingSchedules id).released.val + amount.val < 2 ^ 256 by omega)
  obtain ⟨total, -, htotal⟩ := hdoc.safeMath.sub_of_le
    (show amount.val ≤ s.vestingSchedulesTotalAmount.val by omega)
  obtain ⟨ledger, hpaid⟩ := hpays d.self (s.vestingSchedules id).beneficiary amount
    d.self_ne_zero ((hinv.vesting id).sound hactive.1).beneficiary (by omega)
  exact ⟨_, (release_eq_ok hdoc.safeMath).mpr ⟨entered, due, released, total, ledger, henter,
    hactive, hcaller, hdue, henough, hreleased, by omega, htotal, hpaid, rfl⟩⟩

/-- Only beneficiary and owner release, and only what is due. -/
theorem le_due_of_release (hdoc : d.Documented) {due : Uint256}
    (hdue : computeReleasableAmountInternal d m.timestamp (s.vestingSchedules id) = .ok due)
    (h : release d m id amount s = .ok s') :
    (m.msgSender = (s.vestingSchedules id).beneficiary ∨
      m.msgSender = d.ownable.owner s.owner) ∧ amount ≤ due := by
  obtain ⟨_, due', _, _, _, -, -, hcaller, hdue', henough, -⟩ := (release_eq_ok hdoc.safeMath).mp h
  have hsame : due = due' := Except.ok.inj (hdue.symm.trans hdue')
  exact ⟨hcaller, hsame ▸ henough⟩

/-- A release by somebody who may call it succeeds exactly when the amount is
due. -/
theorem Accounted.succeeds_release_iff (hinv : Accounted now s) (hdoc : d.Documented)
    (hpays : d.tokens.Pays s.token s.ledger) (hactive : (s.vestingSchedules id).Active)
    (hfits : (s.vestingSchedules id).Fits) (htime : now ≤ m.timestamp)
    (hcaller : m.msgSender = (s.vestingSchedules id).beneficiary ∨
      m.msgSender = d.ownable.owner s.owner) :
    Succeeds (release d m id amount s) ↔
      amount.val ≤ (s.vestingSchedules id).vestedAt m.timestamp -
        (s.vestingSchedules id).released.val := by
  obtain ⟨hreleasedLe, due, hdue, hval⟩ := (hinv.vesting id).due hdoc.safeMath hactive hfits htime
  constructor
  · rintro ⟨s', h⟩
    have hle : amount.val ≤ due.val := (le_due_of_release hdoc hdue h).2
    omega
  · intro henough
    exact hinv.succeeds_release hdoc hpays hactive hdue (by omega) hcaller

/-- A release pays the beneficiary out of the contract's balance, and notes it
on the schedule. -/
theorem paid_of_release (hdoc : d.Documented) (hfaithful : d.tokens.Faithful s.token)
    (h : release d m id amount s = .ok s') :
    Delegation.Moved (d.tokens.holdings s.token s.ledger) (d.tokens.holdings s.token s'.ledger)
        d.self (s.vestingSchedules id).beneficiary amount.val ∧
      ∃ released, released.val = (s.vestingSchedules id).released.val + amount.val ∧
        s'.vestingSchedules = Function.update s.vestingSchedules id
          { s.vestingSchedules id with released := released } := by
  obtain ⟨_, _, released, _, ledger, -, -, -, -, -, hreleased, -, -, hpaid, hrest⟩ :=
    (release_eq_ok hdoc.safeMath).mp h
  obtain ⟨-, hmoved⟩ := hfaithful.transfer_moves _ _ _ _ _ hpaid
  rw [hrest]
  exact ⟨hmoved, released, hreleased, rfl⟩

end TokenVesting

/-- A grant that is not revoked can always be collected.  In every reachable
state and at every later time, a release by the beneficiary or the owner
succeeds exactly up to the amount vested and not released, and then pays that
amount to the beneficiary and to nobody else. -/
theorem grant_can_be_collected {d : Deployment} {v : VestingState d} {m : Message} {id : Bytes32}
    (hdoc : d.Documented) (hreach : v.Reachable)
    (hstandard : d.tokens.Standard v.contract.token)
    (hcollision : Set.InjOn d.keccak256 v.contract.hashed)
    (hactive : (v.contract.vestingSchedules id).Active)
    (hfits : (v.contract.vestingSchedules id).Fits)
    (hbeneficiary : (v.contract.vestingSchedules id).beneficiary ≠ d.self)
    (htime : v.now ≤ m.timestamp)
    (hcaller : m.msgSender = (v.contract.vestingSchedules id).beneficiary ∨
      m.msgSender = d.ownable.owner v.contract.owner) (amount : Uint256) :
    (v.contract.vestingSchedules id).released.val ≤
        (v.contract.vestingSchedules id).vestedAt m.timestamp ∧
      (Succeeds (release d m id amount v.contract) ↔
        amount.val ≤ (v.contract.vestingSchedules id).vestedAt m.timestamp -
          (v.contract.vestingSchedules id).released.val) ∧
      ∀ s', release d m id amount v.contract = .ok s' →
        (s'.vestingSchedules id).released.val =
            (v.contract.vestingSchedules id).released.val + amount.val ∧
          (∀ other, other ≠ id →
            s'.vestingSchedules other = v.contract.vestingSchedules other) ∧
          d.tokens.holdings v.contract.token s'.ledger
              (v.contract.vestingSchedules id).beneficiary =
            d.tokens.holdings v.contract.token v.contract.ledger
              (v.contract.vestingSchedules id).beneficiary + amount.val ∧
          d.tokens.holdings v.contract.token s'.ledger d.self + amount.val =
            d.tokens.holdings v.contract.token v.contract.ledger d.self ∧
          ∀ account, account ≠ (v.contract.vestingSchedules id).beneficiary →
            account ≠ d.self → d.tokens.holdings v.contract.token s'.ledger account =
              d.tokens.holdings v.contract.token v.contract.ledger account := by
  have hinv := hreach.accounted hdoc (fun _ => hstandard.toFaithful) hcollision
  refine ⟨((hinv.vesting id).due hdoc.safeMath hactive hfits htime).1,
    hinv.succeeds_release_iff hdoc (hstandard.pays _) hactive hfits htime hcaller, ?_⟩
  intro s' h
  obtain ⟨hmoved, released, hreleased, hschedules⟩ := paid_of_release hdoc hstandard.toFaithful h
  rw [hschedules, Function.update_self]
  refine ⟨hreleased, fun other hne => Function.update_of_ne hne _ _, ?_, ?_, ?_⟩
  · have hcredit := hmoved (v.contract.vestingSchedules id).beneficiary
    rwa [if_neg hbeneficiary.symm, if_pos rfl, Nat.add_zero] at hcredit
  · have hdebit := hmoved d.self
    rwa [if_pos rfl, if_neg hbeneficiary, Nat.add_zero] at hdebit
  · intro account hne hself
    have hother := hmoved account
    rwa [if_neg hself.symm, if_neg hne.symm, Nat.add_zero, Nat.add_zero] at hother

/-- At the end Bob can collect the other eight hundred units. -/
theorem grant_can_be_collected_sample :
    Succeeds (release Sample.deployment ⟨Sample.bob, 110⟩ Sample.grantId 800
      Sample.collected.contract) := by
  have hgrant := Sample.collected_grant
  refine (grant_can_be_collected Sample.deployment_documented Sample.collected_reachable
    (Sample.collected_standard (by decide)) (Sample.injOn_hashed_of_one Sample.collected_counts)
    ?_ ?_ ?_ ?_ ?_ 800).2.1.mpr ?_
  · rw [hgrant]
    decide
  · rw [hgrant]
    exact ⟨by decide, by decide⟩
  · rw [hgrant]
    decide
  · decide
  · rw [hgrant]
    decide
  · rw [hgrant]
    decide

end Palmy
