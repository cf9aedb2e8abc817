/-
vesting-helpers.ts: the schedules that investors, early contributors and the
team are granted, and what becomes of such a grant on PLMY.
-/
import Palmy.PlmyVesting

namespace Palmy

open Solidity
open TokenVesting

namespace VestingHelpers

def secondsPerHour : ℕ := 60 * 60
def secondsPerMonth : ℕ := secondsPerHour * 24 * 30
def cliff : ℕ := secondsPerMonth * 1

-- `Date.UTC`, which counts milliseconds from 1970 on, and months from zero.

def inLeapYear (year : ℕ) : Bool := year % 4 = 0 && (year % 100 ≠ 0 || year % 400 = 0)

def dayFromYear (year : ℕ) : ℕ :=
  365 * (year - 1970) + (year - 1969) / 4 - (year - 1901) / 100 + (year - 1601) / 400

def monthLengths (year : ℕ) : List ℕ :=
  [31, if inLeapYear year then 29 else 28, 31, 30, 31, 30, 31, 31, 30, 31, 30, 31]

def dateUtc (year month day : ℕ) : ℕ :=
  (dayFromYear year + ((monthLengths year).take month).sum + (day - 1)) * (24 * 60 * 60 * 1000)

def timestamp (date : ℕ) : ℕ := date / 1000

structure VestingInputCommon where
  cliff : ℕ
  revocable : Bool
  slicePerSeconds : ℕ

structure VestingInputBase extends VestingInputCommon where
  start : ℕ
  duration : ℕ

structure VestingInput extends VestingInputBase where
  beneficiary : Address
  amount : Uint256

def vestingInputCommon : VestingInputCommon where
  cliff := cliff
  revocable := true
  slicePerSeconds := secondsPerHour

def investorVestingInputBase : VestingInputBase :=
  { vestingInputCommon with
    duration := secondsPerMonth * 18
    start := timestamp (dateUtc 2022 (9 - 1) 1) }

def earlyContributorVestingInputBase : VestingInputBase :=
  { vestingInputCommon with
    duration := secondsPerMonth * 18
    start := timestamp (dateUtc 2022 (9 - 1) 1) }

def teamVestingInputBase : VestingInputBase :=
  { vestingInputCommon with
    duration := secondsPerMonth * 6
    start := timestamp (dateUtc 2022 (2 - 1) 1) }

def vestingScheduleInvestor (beneficiary : Address) (total : Uint256) : VestingInput :=
  { investorVestingInputBase with beneficiary := beneficiary, amount := total }

def vestingScheduleEarlyContributor (beneficiary : Address) (total : Uint256) : VestingInput :=
  { earlyContributorVestingInputBase with beneficiary := beneficiary, amount := total }

def vestingScheduleTeam (beneficiary : Address) (total : Uint256) : VestingInput :=
  { teamVestingInputBase with beneficiary := beneficiary, amount := total }

def roles : List String := ["investor", "team", "earlyContributor"]

def strategies : List (String × (Address → Uint256 → VestingInput)) :=
  [("investor", vestingScheduleInvestor), ("team", vestingScheduleTeam),
    ("earlyContributor", vestingScheduleEarlyContributor)]

/-- The entry of a role, which is `undefined` for one that `strategies` lacks. -/
def strategy (role : String) :
    Except String (Option (Address → Uint256 → VestingInput)) := do
  if role ∉ roles then
    throw s!"unrecognized role: {role}"
  let idx := (strategies.map Prod.fst).findIdx (· = role)
  return (strategies.map Prod.snd)[idx]?

def createSchedulePerRole (role : String) (address : Address) (totalAmount : Uint256) :
    Except String VestingInput := do
  match ← strategy role with
  | some schedule => return schedule address totalAmount
  | none => throw "strategy(...) is not a function"

/-- The call that `newVestingSchedule` sends.  All numbers of a role fit a word. -/
def newVestingSchedule (input : VestingInput) : TokenVesting.Call :=
  .createVestingSchedule input.beneficiary (Fin.ofNat (2 ^ 256) input.start)
    (Fin.ofNat (2 ^ 256) input.cliff) (Fin.ofNat (2 ^ 256) input.duration)
    (Fin.ofNat (2 ^ 256) input.slicePerSeconds) input.revocable input.amount

def hoursPerMonth : ℕ := 24 * 30

def monthsOf (role : String) : ℕ := if role = "team" then 6 else 18

/-- What such a grant has vested after so many hours: nothing in the first month,
then a share every hour until the months are over. -/
def vestedAfter (amount months hours : ℕ) : ℕ :=
  if hours < hoursPerMonth then 0
  else amount * min hours (months * hoursPerMonth) / (months * hoursPerMonth)

/-- After whole months, it is the share of these months. -/
theorem vestedAfter_months {amount months k : ℕ} (hsome : 0 < k) (hle : k ≤ months) :
    vestedAfter amount months (k * hoursPerMonth) = amount * k / months := by
  have hhours : 0 < hoursPerMonth := by decide
  have hpassed : ¬ k * hoursPerMonth < hoursPerMonth :=
    Nat.not_lt.mpr (Nat.le_mul_of_pos_left _ hsome)
  rw [vestedAfter, if_neg hpassed, Nat.min_eq_left (Nat.mul_le_mul_right _ hle), ← Nat.mul_assoc,
    Nat.mul_div_mul_right _ _ hhours]

/-- A month to the cliff, whole months in all, and slices of an hour. -/
structure VestingInputBase.OverMonths (input : VestingInputBase) (months : ℕ) : Prop where
  cliff : input.cliff = secondsPerMonth
  duration : input.duration = months * secondsPerMonth
  slicePerSeconds : input.slicePerSeconds = secondsPerHour
  revocable : input.revocable = true
  finish : input.start + input.duration < 2 ^ 32

theorem investor_overMonths : investorVestingInputBase.OverMonths 18 :=
  ⟨rfl, rfl, rfl, rfl, by decide⟩

theorem earlyContributor_overMonths : earlyContributorVestingInputBase.OverMonths 18 :=
  ⟨rfl, rfl, rfl, rfl, by decide⟩

theorem team_overMonths : teamVestingInputBase.OverMonths 6 :=
  ⟨rfl, rfl, rfl, rfl, by decide⟩

theorem createSchedulePerRole_of_not_mem {role : String} (hrole : role ∉ roles) (address : Address)
    (totalAmount : Uint256) :
    createSchedulePerRole role address totalAmount = .error s!"unrecognized role: {role}" := by
  have hunrecognized : strategy role = .error s!"unrecognized role: {role}" := by
    rw [strategy, if_pos hrole]
    rfl
  rw [createSchedulePerRole, hunrecognized]
  rfl

/-- What is granted by role is granted over the months of the role. -/
theorem createSchedulePerRole_cases {role : String} {address : Address} {totalAmount : Uint256}
    {input : VestingInput} (h : createSchedulePerRole role address totalAmount = .ok input) :
    input.beneficiary = address ∧ input.amount = totalAmount ∧
      input.OverMonths (monthsOf role) := by
  by_cases hrole : role ∈ roles
  · simp only [roles, List.mem_cons, List.not_mem_nil, or_false] at hrole
    rcases hrole with rfl | rfl | rfl
    · have hinput : vestingScheduleInvestor address totalAmount = input := Except.ok.inj h
      subst hinput
      exact ⟨rfl, rfl, investor_overMonths⟩
    · have hinput : vestingScheduleTeam address totalAmount = input := Except.ok.inj h
      subst hinput
      exact ⟨rfl, rfl, team_overMonths⟩
    · have hinput : vestingScheduleEarlyContributor address totalAmount = input :=
        Except.ok.inj h
      subst hinput
      exact ⟨rfl, rfl, earlyContributor_overMonths⟩
  · rw [createSchedulePerRole_of_not_mem hrole] at h
    cases h

end VestingHelpers

open VestingHelpers

/-- The schedule has the terms of the input. -/
structure VestingSchedule.GrantOf (g : VestingSchedule) (input : VestingInput) : Prop where
  beneficiary : g.beneficiary = input.beneficiary
  cliff : g.cliff.val = input.start + input.cliff
  start : g.start.val = input.start
  duration : g.duration.val = input.duration
  slicePeriodSeconds : g.slicePeriodSeconds.val = input.slicePerSeconds
  revocable : g.revocable = input.revocable
  amountTotal : g.amountTotal = input.amount

namespace VestingSchedule.GrantOf

variable {g g' : VestingSchedule} {input : VestingInput} {months : ℕ}

theorem continues (h : g.GrantOf input) (hcontinues : g.Continues g') : g'.GrantOf input where
  beneficiary := hcontinues.beneficiary.trans h.beneficiary
  cliff := (congrArg Fin.val hcontinues.cliff).trans h.cliff
  start := (congrArg Fin.val hcontinues.start).trans h.start
  duration := (congrArg Fin.val hcontinues.duration).trans h.duration
  slicePeriodSeconds :=
    (congrArg Fin.val hcontinues.slicePeriodSeconds).trans h.slicePeriodSeconds
  revocable := hcontinues.revocable.trans h.revocable
  amountTotal := hcontinues.amountTotal.trans h.amountTotal

/-- The release formula gives the share of the whole hours since the start. -/
theorem vestedAt_eq (h : g.GrantOf input) (hmonths : input.OverMonths months)
    (hsome : 0 < months) (t : Uint256) :
    g.vestedAt t =
      vestedAfter input.amount.val months ((t.val - input.start) / secondsPerHour) := by
  have hhours : 0 < months * hoursPerMonth := Nat.mul_pos hsome (by decide)
  have hslice : g.terms.slice = secondsPerHour :=
    h.slicePeriodSeconds.trans hmonths.slicePerSeconds
  have hcliff : g.terms.cliff = g.terms.start + hoursPerMonth * g.terms.slice := by
    rw [hslice]
    calc g.cliff.val = input.start + input.cliff := h.cliff
      _ = g.start.val + hoursPerMonth * secondsPerHour := by rw [h.start, hmonths.cliff]; rfl
  have hduration : g.terms.duration = months * hoursPerMonth * g.terms.slice := by
    rw [hslice, Nat.mul_assoc]
    exact h.duration.trans hmonths.duration
  have htotal : g.terms.total = input.amount.val := congrArg Fin.val h.amountTotal
  have hstart : g.terms.start = input.start := h.start
  rw [vestedAt, Accrual.accrued_of_whole_slices (hslice ▸ (by decide)) hhours hcliff hduration,
    hslice, htotal, hstart]
  rfl

/-- A grant of tokens there are does not overflow the formula. -/
theorem fits (h : g.GrantOf input) (hmonths : input.OverMonths months)
    (hamount : input.amount.val < 2 ^ 128) : g.Fits := by
  have hfinish := hmonths.finish
  have hduration : g.duration.val < 2 ^ 32 := by
    rw [h.duration]
    omega
  constructor
  · rw [h.start, h.duration]
    omega
  · calc g.amountTotal.val * g.duration.val ≤ 2 ^ 128 * 2 ^ 32 :=
          Nat.mul_le_mul (h.amountTotal ▸ hamount.le) hduration.le
      _ < 2 ^ 256 := by decide

end VestingSchedule.GrantOf

namespace TokenVesting

variable {d : Deployment} {m : Message} {s s' : TokenVesting d} {input : VestingInput}
  {months : ℕ}

/-- What a creation needs. -/
theorem succeeds_createVestingSchedule_iff (hdoc : d.Documented) {beneficiary : Address}
    {start cliff duration slicePeriodSeconds : Uint256} {revocable : Bool} {amount : Uint256} :
    Succeeds (createVestingSchedule d m beneficiary start cliff duration slicePeriodSeconds
        revocable amount s) ↔
      m.msgSender = d.ownable.owner s.owner ∧
        (∃ balance, d.tokens.balanceOf s.token d.self s.ledger = .ok balance ∧
          s.vestingSchedulesTotalAmount.val + amount.val ≤ balance.val) ∧
        0 < duration ∧ 0 < amount ∧ 1 ≤ slicePeriodSeconds ∧ beneficiary ≠ 0 ∧
        start.val + cliff.val < 2 ^ 256 ∧
        (s.holdersVestingCount beneficiary).val + 1 < 2 ^ 256 := by
  constructor
  · rintro ⟨s', h⟩
    simp only [createVestingSchedule, bind_eq_ok, require_eq_ok, exists_const, pure_eq_ok,
      getWithdrawableAmount_eq_ok hdoc.safeMath, hdoc.safeMath.add_eq_ok,
      hdoc.ownable.onlyOwner_eq_ok] at h
    obtain ⟨howner, w, ⟨balance, hbalance, hw⟩, henough, hduration, hamount, hslice,
      hbeneficiary, cliffTime, hcliff, total, htotal, count, hcount, -⟩ := h
    have hle : amount.val ≤ w.val := henough
    have hone : count.val = (s.holdersVestingCount beneficiary).val + 1 := hcount
    exact ⟨howner, ⟨balance, hbalance, by omega⟩, hduration, hamount, hslice, hbeneficiary,
      hcliff ▸ cliffTime.isLt, hone ▸ count.isLt⟩
  · rintro ⟨howner, ⟨balance, hbalance, hroom⟩, hduration, hamount, hslice, hbeneficiary, hcliff,
      hcount⟩
    simp only [Succeeds, createVestingSchedule, bind_eq_ok, require_eq_ok, exists_const,
      pure_eq_ok, getWithdrawableAmount_eq_ok hdoc.safeMath, hdoc.safeMath.add_eq_ok,
      hdoc.ownable.onlyOwner_eq_ok]
    have hfree : balance.val - s.vestingSchedulesTotalAmount.val < 2 ^ 256 := by omega
    exact ⟨_, howner, ⟨_, hfree⟩,
      ⟨balance, hbalance, by change _ + (balance.val - _) = _; omega⟩,
      Fin.le_def.mpr (by change _ ≤ balance.val - _; omega), hduration, hamount, hslice,
      hbeneficiary, ⟨_, hcliff⟩, rfl, ⟨_, by omega⟩, rfl, ⟨_, hcount⟩, rfl, rfl⟩

theorem words_of_overMonths (hmonths : input.OverMonths months) :
    (Fin.ofNat (2 ^ 256) input.start).val = input.start ∧
      (Fin.ofNat (2 ^ 256) input.cliff).val = input.cliff ∧
      (Fin.ofNat (2 ^ 256) input.duration).val = input.duration ∧
      (Fin.ofNat (2 ^ 256) input.slicePerSeconds).val = input.slicePerSeconds := by
  have hfinish := hmonths.finish
  refine ⟨Nat.mod_eq_of_lt (by omega), ?_, Nat.mod_eq_of_lt (by omega), ?_⟩
  · rw [hmonths.cliff]
    rfl
  · rw [hmonths.slicePerSeconds]
    rfl

/-- A role's grant needs the owner, somebody to grant to, and free tokens. -/
theorem succeeds_newVestingSchedule_iff (hdoc : d.Documented) (hsome : 0 < months)
    (hmonths : input.OverMonths months) :
    Succeeds (execute d m s (newVestingSchedule input)) ↔
      m.msgSender = d.ownable.owner s.owner ∧ input.beneficiary ≠ 0 ∧ 0 < input.amount ∧
        (∃ balance, d.tokens.balanceOf s.token d.self s.ledger = .ok balance ∧
          s.vestingSchedulesTotalAmount.val + input.amount.val ≤ balance.val) ∧
        (s.holdersVestingCount input.beneficiary).val + 1 < 2 ^ 256 := by
  obtain ⟨hstart, hcliff, hduration, hslice⟩ := words_of_overMonths hmonths
  have hcliffTime : (Fin.ofNat (2 ^ 256) input.start).val +
      (Fin.ofNat (2 ^ 256) input.cliff).val < 2 ^ 256 := by
    have hfinish := hmonths.finish
    rw [hstart, hcliff, hmonths.cliff]
    exact Nat.lt_of_lt_of_le (Nat.add_lt_add_right (show input.start < 2 ^ 32 by omega) _)
      (by decide)
  have hlength : 0 < Fin.ofNat (2 ^ 256) input.duration := by
    rw [Fin.lt_def, hduration, hmonths.duration]
    exact Nat.mul_pos hsome (by decide)
  have hhour : 1 ≤ Fin.ofNat (2 ^ 256) input.slicePerSeconds := by
    rw [hmonths.slicePerSeconds]
    decide
  rw [newVestingSchedule, execute, succeeds_createVestingSchedule_iff hdoc]
  constructor
  · rintro ⟨howner, hfunds, -, hamount, -, hbeneficiary, -, hcount⟩
    exact ⟨howner, hbeneficiary, hamount, hfunds, hcount⟩
  · rintro ⟨howner, hbeneficiary, hamount, hfunds, hcount⟩
    exact ⟨howner, hfunds, hlength, hamount, hhour, hbeneficiary, hcliffTime, hcount⟩

/-- It stores a schedule with the terms of the role. -/
theorem grantOf_newVestingSchedule (hdoc : d.Documented) (hmonths : input.OverMonths months)
    (h : execute d m s (newVestingSchedule input) = .ok s') :
    ∃ g, s'.vestingSchedules (computeNextVestingScheduleIdForHolder d s input.beneficiary) = g ∧
      g.New ∧ g.GrantOf input := by
  obtain ⟨hstart, hcliff, hduration, hslice⟩ := words_of_overMonths hmonths
  obtain ⟨cliffTime, hcliffTime, hnew, hstored⟩ := stored_of_createVestingSchedule hdoc h
  rw [hstart, hcliff] at hcliffTime
  exact ⟨_, hstored, hnew, rfl, hcliffTime, hstart, hduration, hslice, rfl, rfl⟩

end TokenVesting

namespace PlmyVesting

variable {d : PlmyVesting} {v w : VestingState d.deployment} {role : String}
  {beneficiary sender : Address} {amount : Uint256} {input : VestingInput}
  {s' : TokenVesting d.deployment}

theorem Reachable.run (hreach : Reachable v) (hrun : Relation.ReflTransGen Step v w) :
    Reachable w := by
  obtain ⟨owner, ledger, hbefore⟩ := hreach
  exact ⟨owner, ledger, hbefore.trans hrun⟩

/-- A run of the two contracts keeps the vesting contract on PLMY. -/
theorem token_of_run (hdoc : d.deployment.Documented) (hreach : Reachable v)
    (hbound : v.contract.token = d.chain.self) (hrun : Relation.ReflTransGen Step v w) :
    w.contract.token = d.chain.self := by
  obtain ⟨hvesting, hnow⟩ := hreach.vesting hdoc
  have hchanges := VestingStep.changes_of_run hdoc (run_vestingSteps hdoc hnow hrun).1
  have hkept := token_eq_of_changes hdoc (hvesting.tokenFixed hdoc)
    (hbound.symm ▸ d.token_ne_zero) hchanges
  exact hkept.trans hbound

theorem Step.of_ok {call : TokenVesting.Call}
    (h : execute d.deployment (message v sender) v.contract call = .ok s') :
    Step v ⟨(message v sender).timestamp, s'⟩ := by
  have hstep := Step.vesting (v := v) sender call
  rwa [h, commit_ok] at hstep

theorem balanceOf_self (hbound : v.contract.token = d.chain.self) :
    d.deployment.tokens.balanceOf v.contract.token d.contract.self v.contract.ledger =
      .ok ((plmy v).token.balances d.contract.self) := by
  rw [hbound]
  exact if_pos rfl

/-- The owner can grant what is free. -/
theorem succeeds_grant_iff (hdoc : d.deployment.Documented)
    (hbound : v.contract.token = d.chain.self) {months : ℕ} (hsome : 0 < months)
    (hmonths : input.OverMonths months) :
    Succeeds (execute d.deployment (message v sender) v.contract (newVestingSchedule input)) ↔
      sender = d.contract.ownable.owner v.contract.owner ∧ input.beneficiary ≠ 0 ∧
        0 < input.amount ∧
        v.contract.vestingSchedulesTotalAmount.val + input.amount.val ≤
          ((plmy v).token.balances d.contract.self).val ∧
        (v.contract.holdersVestingCount input.beneficiary).val + 1 < 2 ^ 256 := by
  have hbalance := balanceOf_self hbound
  rw [succeeds_newVestingSchedule_iff hdoc hsome hmonths]
  refine and_congr_right fun _ => and_congr_right fun _ => and_congr_right fun _ =>
    and_congr_left fun _ => ?_
  constructor
  · rintro ⟨balance, hok, hroom⟩
    have hsame : balance = (plmy v).token.balances d.contract.self :=
      Except.ok.inj (hok.symm.trans hbalance)
    exact hsame ▸ hroom
  · exact fun hroom => ⟨_, hbalance, hroom⟩

/-- No more is granted than there are tokens. -/
theorem lt_of_newVestingSchedule (hdoc : d.deployment.Documented)
    (hbound : v.contract.token = d.chain.self) {months : ℕ} (hsome : 0 < months)
    (hmonths : input.OverMonths months)
    (h : execute d.deployment (message v sender) v.contract (newVestingSchedule input) = .ok s') :
    input.amount.val < 2 ^ 128 := by
  obtain ⟨-, -, -, hroom, -⟩ := (succeeds_grant_iff hdoc hbound hsome hmonths).mp ⟨s', h⟩
  have hheld := holdings_lt (plmy v).powerInvariant.supply d.contract.self
  exact Nat.lt_of_le_of_lt (Nat.le_trans (Nat.le_add_left _ _) hroom) hheld

/-- In later states the schedule of the grant has its terms. -/
theorem grantOf_of_run (hdoc : d.deployment.Documented) {months : ℕ}
    (hmonths : input.OverMonths months)
    (h : execute d.deployment (message v sender) v.contract (newVestingSchedule input) = .ok s')
    (hafter : Reachable (⟨(message v sender).timestamp, s'⟩ : VestingState d.deployment))
    (hrun : Relation.ReflTransGen Step ⟨(message v sender).timestamp, s'⟩ w)
    (hcollision : Set.InjOn d.chain.keccak256 w.contract.hashed) {id : Bytes32}
    (hid : id = computeNextVestingScheduleIdForHolder d.deployment v.contract input.beneficiary) :
    (w.contract.vestingSchedules id).initialized = true ∧
      (w.contract.vestingSchedules id).GrantOf input := by
  obtain ⟨g, hstored, hnew, hgrant⟩ := grantOf_newVestingSchedule hdoc hmonths h
  obtain ⟨hvesting, hnow⟩ := hafter.vesting hdoc
  have hchanges := VestingStep.changes_of_run hdoc (run_vestingSteps hdoc hnow hrun).1
  have hcontinues := continues_of_changes (hvesting.vesting hdoc) hchanges hcollision
    (hstored.symm ▸ hnew.active.1)
  rw [hstored, ← hid] at hcontinues
  exact ⟨hcontinues.initialized.trans hnew.active.1, hgrant.continues hcontinues⟩

end PlmyVesting

namespace Sample

-- Alice grants Bob six hundred units as one of the team.

def boundOnPlmy : VestingState plmyVesting.deployment :=
  sendOnPlmy ⟨0, genesis plmyVesting.deployment alice plmyMinted⟩ alice (.initialzie chain.self)

theorem boundOnPlmy_reachable : PlmyVesting.Reachable boundOnPlmy :=
  ⟨alice, plmyMinted, .single (.vesting alice (.initialzie chain.self))⟩

def teamGrant : VestingInput := vestingScheduleTeam bob 600

def teamGranted : VestingState plmyVesting.deployment :=
  sendOnPlmy boundOnPlmy alice (newVestingSchedule teamGrant)

theorem execute_teamGrant :
    execute plmyVesting.deployment (PlmyVesting.message boundOnPlmy alice) boundOnPlmy.contract
      (newVestingSchedule teamGrant) = .ok teamGranted.contract := by
  rfl

/-- Two months of thirty days after the first of February 2022. -/
def secondOfApril : Block := ⟨3, 1648857600, by decide⟩

def twoMonthsOn : VestingState plmyVesting.deployment :=
  PlmyVesting.withPlmy teamGranted ((PlmyVesting.plmy teamGranted).nextBlock secondOfApril
    (fun _ _ _ _ => .ok ()) (by decide))

theorem twoMonthsOn_injOn :
    Set.InjOn plmyVesting.chain.keccak256 twoMonthsOn.contract.hashed :=
  injOn_hashed_of_one (s := granted.contract) rfl

end Sample

namespace PlmyVesting

variable {d : PlmyVesting}

end PlmyVesting

end Palmy
