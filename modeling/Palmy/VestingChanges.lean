/-
What the calls of the vesting contract do, as a few elementary changes: time
passes, others move tokens, the token is bound, a schedule is created, paid or
closed, funds are withdrawn, the owner changes.  A revocation is a payment, if
anything is due, and then a closing.
-/
import Palmy.TokenVesting

namespace Palmy

open Solidity

namespace VestingSchedule

/-- The terms a schedule vests on. -/
def terms (g : VestingSchedule) : Accrual where
  cliff := g.cliff.val
  start := g.start.val
  duration := g.duration.val
  slice := g.slicePeriodSeconds.val
  total := g.amountTotal.val

/-- The amount vested at time `t`, released or not. -/
def vestedAt (g : VestingSchedule) (t : Uint256) : ℕ := g.terms.accrued t.val

/-- A schedule that exists and is not revoked. -/
def Active (g : VestingSchedule) : Prop := g.initialized = true ∧ g.revoked = false

instance (g : VestingSchedule) : Decidable g.Active :=
  inferInstanceAs (Decidable (_ ∧ _))

/-- What an active schedule still owes. -/
def outstanding (g : VestingSchedule) : ℕ :=
  if g.Active then g.amountTotal.val - g.released.val else 0

/-- What `createVestingSchedule` checks or computes of the terms. -/
structure Sound (g : VestingSchedule) : Prop where
  beneficiary : g.beneficiary ≠ 0
  duration : 0 < g.duration.val
  slice : 1 ≤ g.slicePeriodSeconds.val
  start_le_cliff : g.start.val ≤ g.cliff.val

/-- The terms do not overflow the release formula. -/
structure Fits (g : VestingSchedule) : Prop where
  finish : g.start.val + g.duration.val < 2 ^ 256
  product : g.amountTotal.val * g.duration.val < 2 ^ 256

/-- A schedule as it is created: nothing is released yet. -/
structure New (g : VestingSchedule) : Prop extends Sound g where
  active : g.Active
  released : g.released.val = 0

theorem vestedAt_le (g : VestingSchedule) (t : Uint256) : g.vestedAt t ≤ g.amountTotal.val :=
  g.terms.accrued_le_total t.val

theorem vestedAt_mono (g : VestingSchedule) {t t' : Uint256} (h : t ≤ t') :
    g.vestedAt t ≤ g.vestedAt t' :=
  g.terms.accrued_mono h

theorem Sound.of_terms {g g' : VestingSchedule} (h : g.Sound)
    (hbeneficiary : g'.beneficiary = g.beneficiary) (hterms : g'.terms = g.terms) : g'.Sound where
  beneficiary := hbeneficiary ▸ h.beneficiary
  duration := Nat.lt_of_lt_of_eq h.duration (congrArg Accrual.duration hterms).symm
  slice := Nat.le_trans h.slice (congrArg Accrual.slice hterms).ge
  start_le_cliff := by
    have hstart : g'.start.val = g.start.val := congrArg Accrual.start hterms
    have hcliff : g'.cliff.val = g.cliff.val := congrArg Accrual.cliff hterms
    rw [hstart, hcliff]
    exact h.start_le_cliff

theorem outstanding_of_active {g : VestingSchedule} (h : g.Active) :
    g.outstanding = g.amountTotal.val - g.released.val := if_pos h

theorem outstanding_of_not_active {g : VestingSchedule} (h : ¬ g.Active) :
    g.outstanding = 0 := if_neg h

end VestingSchedule

namespace TokenVesting

variable {d : Deployment} {m : Message} {id : Bytes32} {amount : Uint256}
  {s s' : TokenVesting d}

@[simp] theorem onlyIfVestingScheduleNotRevoked_eq_ok {u : Unit} :
    onlyIfVestingScheduleNotRevoked d id s = .ok u ↔ (s.vestingSchedules id).Active := by
  simp [onlyIfVestingScheduleNotRevoked, VestingSchedule.Active]

section Releasable

variable {g : VestingSchedule} {t v : Uint256}

/-- Before the cliff nothing is due; after it what has vested is due, unless
released already. -/
theorem computeReleasableAmountInternal_cases (hdoc : d.safeMath.Documented)
    (hactive : g.Active) (h : computeReleasableAmountInternal d t g = .ok v) :
    t < g.cliff ∧ v = 0 ∨ g.cliff ≤ t ∧ g.released.val + v.val = g.vestedAt t := by
  unfold computeReleasableAmountInternal at h
  split at h
  · next hearly =>
      rw [pure_eq_ok] at h
      rw [hactive.2] at hearly
      exact Or.inl ⟨by simpa using hearly, h.symm⟩
  · next hlate =>
      rw [not_or, not_lt] at hlate
      have hcliff : g.terms.cliff ≤ t.val := hlate.1
      refine Or.inr ⟨hlate.1, ?_⟩
      simp only [bind_eq_ok, hdoc.add_eq_ok] at h
      obtain ⟨finish, hfinish, h⟩ := h
      split at h
      · next hend =>
          have hend : g.terms.start + g.terms.duration ≤ t.val := hfinish ▸ hend
          rw [hdoc.sub_eq_ok] at h
          have hreleased : g.released.val ≤ g.amountTotal.val := h.1
          rw [VestingSchedule.vestedAt, Accrual.accrued_of_end_le hcliff hend, h.2]
          change _ = g.amountTotal.val
          omega
      · next hmiddle =>
          have hmiddle : t.val < g.terms.start + g.terms.duration := by
            have : ¬ finish.val ≤ t.val := hmiddle
            change _ < g.start.val + g.duration.val
            omega
          simp only [bind_eq_ok, hdoc.sub_eq_ok, hdoc.div_eq_ok, hdoc.mul_eq_ok] at h
          obtain ⟨fromStart, ⟨-, hfromStart⟩, periods, ⟨-, hperiods⟩, seconds, hseconds,
            product, hproduct, vested, ⟨-, hvested⟩, hle, hv⟩ := h
          have hreleased : g.released.val ≤ vested.val := hle
          have hcurve : vested.val = g.vestedAt t := by
            rw [VestingSchedule.vestedAt, Accrual.accrued_of_lt_end hcliff hmiddle, hvested,
              hproduct, hseconds, hperiods, hfromStart]
            rfl
          omega

/-- From the cliff on the release formula adds start and duration first. -/
theorem not_succeeds_computeReleasableAmountInternal (hdoc : d.safeMath.Documented)
    (hactive : g.Active) (hcliff : g.cliff ≤ t)
    (hoverflow : 2 ^ 256 ≤ g.start.val + g.duration.val) :
    ¬ Succeeds (computeReleasableAmountInternal d t g) := by
  rintro ⟨v, h⟩
  have hlate : ¬ (t < g.cliff ∨ g.revoked = true) := by
    rw [hactive.2]
    simpa using hcliff
  rw [computeReleasableAmountInternal, if_neg hlate] at h
  simp only [bind_eq_ok, hdoc.add_eq_ok] at h
  obtain ⟨finish, hfinish, -⟩ := h
  have := finish.isLt
  omega

/-- The release formula answers when its terms do not overflow it at this time
and no more was released than has vested. -/
theorem succeeds_computeReleasableAmountInternal (hdoc : d.safeMath.Documented)
    (hsound : g.Sound) (hfinish : g.start.val + g.duration.val < 2 ^ 256)
    (hproduct : t.val < g.terms.start + g.terms.duration →
      g.amountTotal.val * g.terms.elapsed t.val < 2 ^ 256)
    (hreleased : g.released.val ≤ g.vestedAt t) :
    Succeeds (computeReleasableAmountInternal d t g) := by
  unfold computeReleasableAmountInternal
  split
  · exact succeeds_pure 0
  next hlate =>
  rw [not_or, not_lt] at hlate
  have hcliff : g.terms.cliff ≤ t.val := hlate.1
  have hstart : g.start.val ≤ t.val := Nat.le_trans hsound.start_le_cliff hcliff
  obtain ⟨finish, hok, hsum⟩ := hdoc.add_of_lt hfinish
  rw [hok, ok_bind]
  split
  · obtain ⟨v, hv, -⟩ := hdoc.sub_of_le (Nat.le_trans hreleased (g.vestedAt_le t))
    exact ⟨v, hv⟩
  next hmiddle =>
  have hmiddle : t.val < g.terms.start + g.terms.duration := by
    have : ¬ finish.val ≤ t.val := hmiddle
    change _ < g.start.val + g.duration.val
    omega
  -- no value on the way exceeds the time elapsed or the scaled amount
  have helapsed : (t.val - g.start.val) / g.slicePeriodSeconds.val * g.slicePeriodSeconds.val ≤
      t.val - g.start.val := g.terms.elapsed_le t.val
  have hscaled : g.amountTotal.val *
      ((t.val - g.start.val) / g.slicePeriodSeconds.val * g.slicePeriodSeconds.val) < 2 ^ 256 :=
    hproduct hmiddle
  obtain ⟨fromStart, hok, hfromStart⟩ := hdoc.sub_of_le hstart
  rw [hok, ok_bind]
  obtain ⟨periods, hok, hperiods⟩ := hdoc.div_of_pos hsound.slice
  rw [hok, ok_bind]
  rw [hfromStart] at hperiods
  obtain ⟨seconds, hok, hseconds⟩ := hdoc.mul_of_lt
    (show periods.val * g.slicePeriodSeconds.val < 2 ^ 256 by rw [hperiods]; omega)
  rw [hok, ok_bind]
  rw [hperiods] at hseconds
  obtain ⟨product, hok, hscale⟩ := hdoc.mul_of_lt
    (show g.amountTotal.val * seconds.val < 2 ^ 256 by rw [hseconds]; exact hscaled)
  rw [hok, ok_bind]
  rw [hseconds] at hscale
  obtain ⟨vested, hok, hvested⟩ := hdoc.div_of_pos hsound.duration
  rw [hok, ok_bind]
  have hcurve : vested.val = g.vestedAt t := by
    rw [hvested, hscale, VestingSchedule.vestedAt, Accrual.accrued_of_lt_end hcliff hmiddle]
    rfl
  obtain ⟨v, hv, -⟩ := hdoc.sub_of_le (hcurve ▸ hreleased)
  exact ⟨v, hv⟩

/-- The release formula gives the amount vested and not released. -/
theorem computeReleasableAmountInternal_eq (hdoc : d.safeMath.Documented)
    (hactive : g.Active) (hsound : g.Sound) (hfits : g.Fits)
    (hreleased : g.released.val ≤ g.vestedAt t) :
    ∃ v, computeReleasableAmountInternal d t g = .ok v ∧
      v.val = g.vestedAt t - g.released.val := by
  have hproduct (hend : t.val < g.terms.start + g.terms.duration) :
      g.amountTotal.val * g.terms.elapsed t.val < 2 ^ 256 :=
    Nat.lt_of_le_of_lt (Nat.mul_le_mul_left _ (Accrual.elapsed_le_duration hend)) hfits.product
  obtain ⟨v, hv⟩ := succeeds_computeReleasableAmountInternal hdoc hsound hfits.finish hproduct
    hreleased
  refine ⟨v, hv, ?_⟩
  rcases computeReleasableAmountInternal_cases hdoc hactive hv with ⟨hearly, rfl⟩ | ⟨-, hsum⟩
  · have hzero : g.vestedAt t = 0 := Accrual.accrued_of_lt_cliff hearly
    rw [hzero, Nat.zero_sub]
    rfl
  · omega

end Releasable

end TokenVesting

open TokenVesting in
/-- The elementary changes of the contract, its tokens and its time. -/
inductive VestingChange {d : Deployment} : VestingState d → VestingState d → Prop where
  | wait {now t : Uint256} {s : TokenVesting d} (htime : now ≤ t) :
      VestingChange ⟨now, s⟩ ⟨t, s⟩
  | deposit {now : Uint256} {s : TokenVesting d} {ledger : d.tokens.Ledger}
      (hkept : d.tokens.holdings s.token s.ledger d.self ≤
        d.tokens.holdings s.token ledger d.self) :
      VestingChange ⟨now, s⟩ ⟨now, { s with ledger := ledger }⟩
  | bind {now : Uint256} {s : TokenVesting d} {token : Address}
      {initialized : d.initializable.Slot}
      (hfirst : d.initializable.initializer s.initialized = .ok initialized)
      (htoken : token ≠ 0) :
      VestingChange ⟨now, s⟩ ⟨now, { s with initialized := initialized, token := token }⟩
  | create {now : Uint256} {s : TokenVesting d} {g : VestingSchedule}
      {balance total count : Uint256} {log : List VestingEvent} (hnew : g.New)
      (hbalance : d.tokens.balanceOf s.token d.self s.ledger = .ok balance)
      (hroom : s.vestingSchedulesTotalAmount.val + g.amountTotal.val ≤ balance.val)
      (htotal : total.val = s.vestingSchedulesTotalAmount.val + g.amountTotal.val)
      (hcount : count.val = (s.holdersVestingCount g.beneficiary).val + 1) :
      VestingChange ⟨now, s⟩ ⟨now, { s with
        vestingSchedules := Function.update s.vestingSchedules
          (computeNextVestingScheduleIdForHolder d s g.beneficiary) g
        vestingSchedulesTotalAmount := total
        vestingSchedulesIds := s.vestingSchedulesIds ++
          [computeNextVestingScheduleIdForHolder d s g.beneficiary]
        holdersVestingCount := Function.update s.holdersVestingCount g.beneficiary count
        log := log }⟩
  | pay {now : Uint256} {s : TokenVesting d} {id : Bytes32} {amount released total : Uint256}
      {entered : d.guard.Slot} {ledger : d.tokens.Ledger} {log : List VestingEvent}
      (henter : d.guard.enter s.status = .ok entered)
      (hactive : (s.vestingSchedules id).Active)
      (hreleased : released.val = (s.vestingSchedules id).released.val + amount.val)
      (hvested : amount.val = 0 ∨ released.val ≤ (s.vestingSchedules id).vestedAt now)
      (hle : amount.val ≤ s.vestingSchedulesTotalAmount.val)
      (htotal : total.val = s.vestingSchedulesTotalAmount.val - amount.val)
      (hpaid : d.tokens.safeTransfer s.token d.self (s.vestingSchedules id).beneficiary amount
        s.ledger = .ok ledger) :
      VestingChange ⟨now, s⟩ ⟨now, { s with
        status := d.guard.leave entered
        vestingSchedules := Function.update s.vestingSchedules id
          { s.vestingSchedules id with released := released }
        vestingSchedulesTotalAmount := total
        ledger := ledger
        log := log }⟩
  | close {now : Uint256} {s : TokenVesting d} {id : Bytes32} {total : Uint256}
      {log : List VestingEvent} (hactive : (s.vestingSchedules id).Active)
      (hrevocable : (s.vestingSchedules id).revocable = true)
      (hle : (s.vestingSchedules id).outstanding ≤ s.vestingSchedulesTotalAmount.val)
      (htotal : total.val =
        s.vestingSchedulesTotalAmount.val - (s.vestingSchedules id).outstanding) :
      VestingChange ⟨now, s⟩ ⟨now, { s with
        vestingSchedules := Function.update s.vestingSchedules id
          { s.vestingSchedules id with revoked := true }
        vestingSchedulesTotalAmount := total
        log := log }⟩
  | withdraw {now : Uint256} {s : TokenVesting d} {recipient : Address} {amount balance : Uint256}
      {entered : d.guard.Slot} {ledger : d.tokens.Ledger}
      (henter : d.guard.enter s.status = .ok entered)
      (hbalance : d.tokens.balanceOf s.token d.self s.ledger = .ok balance)
      (hroom : s.vestingSchedulesTotalAmount.val + amount.val ≤ balance.val)
      (hpaid : d.tokens.safeTransfer s.token d.self recipient amount s.ledger = .ok ledger) :
      VestingChange ⟨now, s⟩ ⟨now, { s with status := d.guard.leave entered, ledger := ledger }⟩
  | own {now : Uint256} {s : TokenVesting d} {owner : d.ownable.Slot} :
      VestingChange ⟨now, s⟩ ⟨now, { s with owner := owner }⟩

namespace TokenVesting

variable {d : Deployment} {m : Message} {id : Bytes32} {amount : Uint256}
  {s s' : TokenVesting d}

theorem getWithdrawableAmount_eq_ok (hdoc : d.safeMath.Documented) {w : Uint256} :
    getWithdrawableAmount d s = .ok w ↔
      ∃ balance, d.tokens.balanceOf s.token d.self s.ledger = .ok balance ∧
        s.vestingSchedulesTotalAmount.val + w.val = balance.val := by
  simp only [getWithdrawableAmount, bind_eq_ok, hdoc.sub_eq_ok]
  apply exists_congr
  intro balance
  constructor
  · rintro ⟨hbalance, hle, hw⟩
    have : s.vestingSchedulesTotalAmount.val ≤ balance.val := hle
    exact ⟨hbalance, by omega⟩
  · rintro ⟨hbalance, hw⟩
    exact ⟨hbalance, Fin.le_def.mpr (by omega), by omega⟩

/-- What the balance holds beyond the total can be withdrawn. -/
theorem getWithdrawableAmount_of_le (hdoc : d.safeMath.Documented)
    (hfaithful : d.tokens.Faithful s.token)
    (hcovered : s.vestingSchedulesTotalAmount.val ≤ d.tokens.holdings s.token s.ledger d.self) :
    ∃ withdrawable, getWithdrawableAmount d s = .ok withdrawable ∧
      s.vestingSchedulesTotalAmount.val + withdrawable.val =
        d.tokens.holdings s.token s.ledger d.self := by
  obtain ⟨balance, hbalance, hholdings⟩ := hfaithful.balanceOf_eq d.self s.ledger
  rw [← hholdings] at hcovered ⊢
  obtain ⟨withdrawable, -, hval⟩ := hdoc.sub_of_le hcovered
  have hsum : s.vestingSchedulesTotalAmount.val + withdrawable.val = balance.val := by omega
  exact ⟨withdrawable, (getWithdrawableAmount_eq_ok hdoc).mpr ⟨balance, hbalance, hsum⟩, hsum⟩

theorem change_of_initialzie {now : Uint256} {token : Address}
    (h : initialzie d token s = .ok s') : VestingChange ⟨now, s⟩ ⟨now, s'⟩ := by
  simp only [initialzie, bind_eq_ok, requireSilently_eq_ok, pure_eq_ok] at h
  obtain ⟨initialized, hfirst, -, htoken, rfl⟩ := h
  exact .bind hfirst htoken

/-- A creation checks the terms and the funds, and stores the schedule under the
next id of its beneficiary. -/
theorem createVestingSchedule_cases (hdoc : d.Documented) {beneficiary : Address}
    {start cliff duration slicePeriodSeconds : Uint256} {revocable : Bool}
    (h : createVestingSchedule d m beneficiary start cliff duration slicePeriodSeconds revocable
      amount s = .ok s') :
    ∃ cliffTime balance total count log, cliffTime.val = start.val + cliff.val ∧
      VestingSchedule.New ⟨true, beneficiary, cliffTime, start, duration, slicePeriodSeconds,
        revocable, amount, 0, false⟩ ∧ 0 < amount.val ∧
      d.tokens.balanceOf s.token d.self s.ledger = .ok balance ∧
      s.vestingSchedulesTotalAmount.val + amount.val ≤ balance.val ∧
      total.val = s.vestingSchedulesTotalAmount.val + amount.val ∧
      count.val = (s.holdersVestingCount beneficiary).val + 1 ∧
      s' = { s with
        vestingSchedules := Function.update s.vestingSchedules
          (computeNextVestingScheduleIdForHolder d s beneficiary)
          ⟨true, beneficiary, cliffTime, start, duration, slicePeriodSeconds, revocable, amount, 0,
            false⟩
        vestingSchedulesTotalAmount := total
        vestingSchedulesIds := s.vestingSchedulesIds ++
          [computeNextVestingScheduleIdForHolder d s beneficiary]
        holdersVestingCount := Function.update s.holdersVestingCount beneficiary count
        log := log } := by
  simp only [createVestingSchedule, bind_eq_ok, require_eq_ok, exists_const, pure_eq_ok,
    getWithdrawableAmount_eq_ok hdoc.safeMath, hdoc.safeMath.add_eq_ok] at h
  obtain ⟨-, -, w, ⟨balance, hbalance, hw⟩, henough, hduration, hamount, hslice, hbeneficiary,
    cliffTime, hcliff, total, htotal, count, hcount, rfl⟩ := h
  have hle : amount.val ≤ w.val := henough
  have hstart : start.val ≤ cliffTime.val := by omega
  exact ⟨cliffTime, balance, total, count, _, hcliff,
    ⟨⟨hbeneficiary, hduration, hslice, hstart⟩, ⟨rfl, rfl⟩, rfl⟩, hamount, hbalance, by omega,
    htotal, hcount, rfl⟩

theorem change_of_createVestingSchedule (hdoc : d.Documented) {now : Uint256}
    {beneficiary : Address} {start cliff duration slicePeriodSeconds : Uint256}
    {revocable : Bool}
    (h : createVestingSchedule d m beneficiary start cliff duration slicePeriodSeconds revocable
      amount s = .ok s') : VestingChange ⟨now, s⟩ ⟨now, s'⟩ := by
  obtain ⟨cliffTime, balance, total, count, log, -, hnew, -, hbalance, hroom, htotal, hcount,
    rfl⟩ := createVestingSchedule_cases hdoc h
  exact .create (g := ⟨true, beneficiary, cliffTime, start, duration, slicePeriodSeconds,
    revocable, amount, 0, false⟩) hnew hbalance hroom htotal hcount

/-- Everything a release checks, and everything it writes. -/
theorem release_eq_ok (hdoc : d.safeMath.Documented) :
    release d m id amount s = .ok s' ↔
      ∃ entered due released total ledger, d.guard.enter s.status = .ok entered ∧
        (s.vestingSchedules id).Active ∧
        (m.msgSender = (s.vestingSchedules id).beneficiary ∨
          m.msgSender = d.ownable.owner s.owner) ∧
        computeReleasableAmountInternal d m.timestamp (s.vestingSchedules id) = .ok due ∧
        amount.val ≤ due.val ∧
        released.val = (s.vestingSchedules id).released.val + amount.val ∧
        amount.val ≤ s.vestingSchedulesTotalAmount.val ∧
        total.val = s.vestingSchedulesTotalAmount.val - amount.val ∧
        d.tokens.safeTransfer s.token d.self (s.vestingSchedules id).beneficiary amount
          s.ledger = .ok ledger ∧
        s' = { s with
          status := d.guard.leave entered
          vestingSchedules := Function.update s.vestingSchedules id
            { s.vestingSchedules id with released := released }
          vestingSchedulesTotalAmount := total
          ledger := ledger
          log := s.log ++ [.released id amount] } := by
  simp only [release, bind_eq_ok, require_eq_ok, exists_const, pure_eq_ok,
    onlyIfVestingScheduleNotRevoked_eq_ok, hdoc.add_eq_ok, hdoc.sub_eq_ok]
  constructor
  · rintro ⟨entered, henter, hactive, hcaller, due, hdue, henough, released, hreleased, total,
      ⟨hle, htotal⟩, ledger, hpaid, rfl⟩
    exact ⟨entered, due, released, total, ledger, henter, hactive, hcaller, hdue, henough,
      hreleased, hle, htotal, hpaid, rfl⟩
  · rintro ⟨entered, due, released, total, ledger, henter, hactive, hcaller, hdue, henough,
      hreleased, hle, htotal, hpaid, rfl⟩
    exact ⟨entered, henter, hactive, hcaller, due, hdue, henough, released, hreleased, total,
      ⟨hle, htotal⟩, ledger, hpaid, rfl⟩

theorem change_of_release (hdoc : d.Documented) (h : release d m id amount s = .ok s') :
    VestingChange ⟨m.timestamp, s⟩ ⟨m.timestamp, s'⟩ := by
  obtain ⟨entered, due, released, total, ledger, henter, hactive, -, hdue, henough, hreleased,
    hle, htotal, hpaid, rfl⟩ := (release_eq_ok hdoc.safeMath).mp h
  refine .pay henter hactive hreleased ?_ hle htotal hpaid
  rcases computeReleasableAmountInternal_cases hdoc.safeMath hactive hdue with
    ⟨-, rfl⟩ | ⟨-, hsum⟩
  · exact Or.inl (Nat.le_zero.mp henough)
  · exact Or.inr (by omega)

/-- Closing a schedule frees what it still owes. -/
theorem closeSchedule_eq_ok (hdoc : d.safeMath.Documented) :
    closeSchedule d id s = .ok s' ↔
      ∃ total : Uint256, (s.vestingSchedules id).released ≤ (s.vestingSchedules id).amountTotal ∧
        total.val + ((s.vestingSchedules id).amountTotal.val -
          (s.vestingSchedules id).released.val) = s.vestingSchedulesTotalAmount.val ∧
        s' = { s with
          vestingSchedules := Function.update s.vestingSchedules id
            { s.vestingSchedules id with revoked := true }
          vestingSchedulesTotalAmount := total
          log := s.log ++ [.revoked id] } := by
  simp only [closeSchedule, bind_eq_ok, pure_eq_ok, hdoc.sub_eq_ok]
  constructor
  · rintro ⟨unreleased, ⟨hreleased, hunreleased⟩, total, ⟨hle, htotal⟩, rfl⟩
    have hcovered : unreleased.val ≤ s.vestingSchedulesTotalAmount.val := hle
    exact ⟨total, hreleased, by omega, rfl⟩
  · rintro ⟨total, hreleased, htotal, rfl⟩
    obtain ⟨unreleased, -, hunreleased⟩ := hdoc.sub_of_le hreleased
    rw [← hunreleased] at htotal
    exact ⟨unreleased, ⟨hreleased, hunreleased⟩, total, ⟨Fin.le_def.mpr (by omega), by omega⟩, rfl⟩

theorem succeeds_closeSchedule (hdoc : d.safeMath.Documented)
    (hreleased : (s.vestingSchedules id).released.val ≤ (s.vestingSchedules id).amountTotal.val)
    (hcovered : (s.vestingSchedules id).amountTotal.val - (s.vestingSchedules id).released.val ≤
      s.vestingSchedulesTotalAmount.val) : Succeeds (closeSchedule d id s) := by
  obtain ⟨unreleased, hok, hunreleased⟩ := hdoc.sub_of_le hreleased
  rw [← hunreleased] at hcovered
  obtain ⟨total, htotal, -⟩ := hdoc.sub_of_le hcovered
  simp only [closeSchedule, hok, htotal, ok_bind]
  exact succeeds_pure _

theorem change_of_closeSchedule (hdoc : d.Documented) {now : Uint256}
    (hactive : (s.vestingSchedules id).Active)
    (hrevocable : (s.vestingSchedules id).revocable = true)
    (h : closeSchedule d id s = .ok s') : VestingChange ⟨now, s⟩ ⟨now, s'⟩ := by
  obtain ⟨total, -, htotal, rfl⟩ := (closeSchedule_eq_ok hdoc.safeMath).mp h
  rw [← VestingSchedule.outstanding_of_active hactive] at htotal
  exact .close hactive hrevocable (by omega) (by omega)

theorem changes_of_revoke (hdoc : d.Documented) (h : revoke d m id s = .ok s') :
    Relation.ReflTransGen VestingChange ⟨m.timestamp, s⟩ ⟨m.timestamp, s'⟩ := by
  simp only [revoke, bind_eq_ok, require_eq_ok, exists_const,
    onlyIfVestingScheduleNotRevoked_eq_ok] at h
  obtain ⟨-, -, hactive, hrevocable, due, -, paid, hpaid, hclose⟩ := h
  split at hpaid
  · have hfirst := change_of_release hdoc hpaid
    obtain ⟨_, _, released, _, _, -, -, -, -, -, -, -, -, -, hrest⟩ :=
      (release_eq_ok hdoc.safeMath).mp hpaid
    -- the payment touches nothing of the schedule but the amount released
    have hself : paid.vestingSchedules id =
        { s.vestingSchedules id with released := released } := by
      rw [hrest]
      exact Function.update_self _ _ _
    exact .tail (.single hfirst)
      (change_of_closeSchedule hdoc (hself ▸ hactive) (hself ▸ hrevocable) hclose)
  · rw [pure_eq_ok] at hpaid
    subst hpaid
    exact .single (change_of_closeSchedule hdoc hactive hrevocable hclose)

theorem change_of_withdraw (hdoc : d.Documented) {now : Uint256}
    (h : withdraw d m amount s = .ok s') : VestingChange ⟨now, s⟩ ⟨now, s'⟩ := by
  simp only [withdraw, bind_eq_ok, require_eq_ok, exists_const, pure_eq_ok,
    getWithdrawableAmount_eq_ok hdoc.safeMath] at h
  obtain ⟨entered, henter, -, -, w, ⟨balance, hbalance, hw⟩, henough, ledger, hpaid, rfl⟩ := h
  have hle : amount.val ≤ w.val := henough
  exact .withdraw henter hbalance (by omega) hpaid

/-- A successful call is a sequence of changes at its own time. -/
theorem changes_of_execute (hdoc : d.Documented) {call : Call}
    (h : execute d m s call = .ok s') :
    Relation.ReflTransGen VestingChange ⟨m.timestamp, s⟩ ⟨m.timestamp, s'⟩ := by
  cases call with
  | initialzie token => exact .single (change_of_initialzie h)
  | createVestingSchedule => exact .single (change_of_createVestingSchedule hdoc h)
  | revoke id => exact changes_of_revoke hdoc h
  | withdraw amount => exact .single (change_of_withdraw hdoc h)
  | release id amount => exact .single (change_of_release hdoc h)
  | transferOwnership newOwner =>
      simp only [execute, bind_eq_ok, pure_eq_ok] at h
      obtain ⟨owner, -, rfl⟩ := h
      exact .single .own
  | renounceOwnership =>
      simp only [execute, bind_eq_ok, pure_eq_ok] at h
      obtain ⟨owner, -, rfl⟩ := h
      exact .single .own

end TokenVesting

namespace VestingStep

variable {d : Deployment} {v v' : VestingState d}

theorem changes (hdoc : d.Documented) (hstep : VestingStep v v') :
    Relation.ReflTransGen VestingChange v v' := by
  cases hstep with
  | call m call htime =>
      apply Relation.ReflTransGen.head (.wait htime)
      cases hcall : TokenVesting.execute d m v.contract call with
      | ok s' => exact TokenVesting.changes_of_execute hdoc hcall
      | error e => exact .refl
  | deposit hkept => exact .single (.deposit hkept)

theorem changes_of_run (hdoc : d.Documented) (hrun : Relation.ReflTransGen VestingStep v v') :
    Relation.ReflTransGen VestingChange v v' := by
  induction hrun with
  | refl => exact .refl
  | tail _ hstep ih => exact ih.trans (hstep.changes hdoc)

end VestingStep

end Palmy
