/-
The vested curve of a schedule, and what releases make of it: together, what
is released and what can still be released follow the curve, however often and
whenever releases are made.
-/
import Palmy.VestingRegistry

namespace Palmy

open Solidity
open TokenVesting

namespace VestingSchedule

/-- The amount vested at time `t` as a machine word. -/
def vested (g : VestingSchedule) (t : Uint256) : Uint256 :=
  ⟨g.vestedAt t, Nat.lt_of_le_of_lt (g.vestedAt_le t) g.amountTotal.isLt⟩

/-- A curve that vests the total of a schedule: nothing before the cliff, all
of it from the end on, and between them never ahead of linear vesting, and
behind it by less than one slice and one unit. -/
structure Curve (g : VestingSchedule) (V : Uint256 → Uint256) : Prop where
  monotone : Monotone V
  before : ∀ t, t < g.cliff → V t = 0
  after : ∀ t, g.cliff ≤ t → g.start.val + g.duration.val ≤ t.val → V t = g.amountTotal
  le_linear : ∀ t, g.cliff ≤ t → t.val < g.start.val + g.duration.val →
    (V t).val * g.duration.val ≤ g.amountTotal.val * (t.val - g.start.val)
  linear_lt : ∀ t, g.cliff ≤ t → t.val < g.start.val + g.duration.val →
    g.amountTotal.val * (t.val - g.start.val) <
      ((V t).val + 1) * g.duration.val + g.amountTotal.val * g.slicePeriodSeconds.val

theorem curve_vested {g : VestingSchedule} (hsound : g.Sound) : g.Curve g.vested where
  monotone _ _ hle := g.vestedAt_mono hle
  before _ hearly := Fin.ext (Accrual.accrued_of_lt_cliff hearly)
  after _ hcliff hend := Fin.ext (Accrual.accrued_of_end_le hcliff hend)
  le_linear _ hcliff hend := Accrual.accrued_mul_le_linear hcliff hend
  linear_lt _ hcliff hend :=
    g.terms.linear_lt_accrued_mul hsound.slice hcliff hend hsound.duration

end VestingSchedule

/-- One attempt to release from any schedule, by anybody. -/
inductive ReleaseStep {d : Deployment} : VestingState d → VestingState d → Prop where
  | attempt {v : VestingState d} (m : Message) (id : Bytes32) (amount : Uint256)
      (htime : v.now ≤ m.timestamp) :
      ReleaseStep v ⟨m.timestamp, commit v.contract (release d m id amount v.contract)⟩

section Releases

variable {d : Deployment} {v w : VestingState d}

theorem ReleaseStep.vestingStep (hstep : ReleaseStep v w) : VestingStep v w := by
  cases hstep with
  | attempt m id amount htime => exact .call m (.release id amount) htime

/-- A release writes nothing of a schedule but the amount released. -/
theorem ReleaseStep.kept (hdoc : d.Documented) (id : Bytes32) (hstep : ReleaseStep v w) :
    ∃ released, w.contract.vestingSchedules id =
      { v.contract.vestingSchedules id with released := released } := by
  cases hstep with
  | attempt m other amount htime =>
      rcases commit_cases v.contract (release d m other amount v.contract) with hsame | hok
      · rw [hsame]
        exact ⟨_, rfl⟩
      · obtain ⟨_, _, released, _, _, -, -, -, -, -, -, -, -, -, hafter⟩ :=
          (release_eq_ok hdoc.safeMath).mp hok
        rw [hafter]
        by_cases heq : id = other
        · subst heq
          exact ⟨released, Function.update_self _ _ _⟩
        · exact ⟨_, Function.update_of_ne heq _ _⟩

theorem released_of_releases (hdoc : d.Documented) (id : Bytes32)
    (hrun : Relation.ReflTransGen ReleaseStep v w) :
    ∃ released, w.contract.vestingSchedules id =
      { v.contract.vestingSchedules id with released := released } := by
  induction hrun with
  | refl => exact ⟨_, rfl⟩
  | tail _ hstep ih =>
      obtain ⟨before, hbefore⟩ := ih
      obtain ⟨after, hafter⟩ := hstep.kept hdoc id
      exact ⟨after, by rw [hafter, hbefore]⟩

end Releases

/-- The vested curve, and independence of the release pattern.  A schedule that
was accepted, and does not overflow, vests on a curve `V` that the release
formula computes from its terms.  Whatever happens later, as long as nothing of
the schedule changes but the amount released, that amount is on or below the
curve and the formula gives what is missing.  Releases, in any number and at
any times, are such a run. -/
theorem released_follows_the_curve {d : Deployment} {v : VestingState d} {m : Message}
    {beneficiary : Address} {start cliff duration slicePeriodSeconds : Uint256}
    {revocable : Bool} {amount : Uint256} {s' : TokenVesting d} (hdoc : d.Documented)
    (hreach : v.Reachable) (htime : v.now ≤ m.timestamp)
    (hcreate : createVestingSchedule d m beneficiary start cliff duration slicePeriodSeconds
      revocable amount v.contract = .ok s')
    (hfinish : start.val + duration.val < 2 ^ 256)
    (hproduct : amount.val * duration.val < 2 ^ 256) :
    ∃ (cliffTime : Uint256) (g : VestingSchedule) (V : Uint256 → Uint256) (id : Bytes32),
      cliffTime.val = start.val + cliff.val ∧
      g = ⟨true, beneficiary, cliffTime, start, duration, slicePeriodSeconds, revocable, amount, 0,
        false⟩ ∧
      id = computeNextVestingScheduleIdForHolder d v.contract beneficiary ∧
      s'.vestingSchedules id = g ∧
      (∀ t, computeReleasableAmountInternal d t g = .ok (V t)) ∧ g.Curve V ∧
      (∀ w released, Relation.ReflTransGen VestingStep ⟨m.timestamp, s'⟩ w →
        w.contract.vestingSchedules id = { g with released := released } → ∀ t, w.now ≤ t →
          released ≤ V t ∧ ∃ due,
            computeReleasableAmountInternal d t (w.contract.vestingSchedules id) = .ok due ∧
            released.val + due.val = (V t).val) ∧
      ∀ w, Relation.ReflTransGen ReleaseStep ⟨m.timestamp, s'⟩ w →
        ∃ released, w.contract.vestingSchedules id = { g with released := released } ∧
          ∀ t, w.now ≤ t → released ≤ V t ∧ ∃ due,
            computeReleasableAmountInternal d t (w.contract.vestingSchedules id) = .ok due ∧
            released.val + due.val = (V t).val := by
  have hcreated := hreach.created htime hcreate
  obtain ⟨cliffTime, hcliff, hnew, hstored⟩ := stored_of_createVestingSchedule hdoc hcreate
  generalize computeNextVestingScheduleIdForHolder d v.contract beneficiary = id at hstored ⊢
  generalize hg : VestingSchedule.mk true beneficiary cliffTime start duration slicePeriodSeconds
    revocable amount 0 false = g at hstored hnew
  have hfits : g.Fits := by
    subst hg
    exact ⟨hfinish, hproduct⟩
  have hformula : ∀ t, computeReleasableAmountInternal d t g = .ok (g.vested t) := by
    intro t
    obtain ⟨due, hdue, hval⟩ := computeReleasableAmountInternal_eq (t := t) hdoc.safeMath
      hnew.active hnew.toSound hfits (hnew.released ▸ Nat.zero_le _)
    have hall : due = g.vested t := Fin.ext (by
      rw [hval, hnew.released]
      rfl)
    rw [hdue, hall]
  have hany : ∀ w released, Relation.ReflTransGen VestingStep ⟨m.timestamp, s'⟩ w →
      w.contract.vestingSchedules id = { g with released := released } → ∀ t, w.now ≤ t →
        released ≤ g.vested t ∧ ∃ due,
          computeReleasableAmountInternal d t (w.contract.vestingSchedules id) = .ok due ∧
          released.val + due.val = (g.vested t).val := by
    intro w released hrun hsame t ht
    have hvesting := (hcreated.run hrun).vesting hdoc id
    rw [hsame] at hvesting ⊢
    exact hvesting.due hdoc.safeMath hnew.active ⟨hfits.finish, hfits.product⟩ ht
  refine ⟨cliffTime, g, g.vested, id, hcliff, hg.symm, rfl, hstored, hformula,
    VestingSchedule.curve_vested hnew.toSound, hany, ?_⟩
  intro w hrun
  obtain ⟨released, hreleased⟩ := released_of_releases hdoc id hrun
  change _ = { s'.vestingSchedules id with released := released } at hreleased
  rw [hstored] at hreleased
  have hsteps : Relation.ReflTransGen VestingStep ⟨m.timestamp, s'⟩ w :=
    Relation.ReflTransGen.mono (fun _ _ hstep => hstep.vestingStep) _ _ hrun
  exact ⟨released, hreleased, hany w released hsteps hreleased⟩

namespace Sample

/-- The sample contract before Bob's grant. -/
def bound : VestingState deployment := send deployed ⟨alice, 0⟩ (.initialzie chain.self)

theorem bound_reachable : bound.Reachable :=
  ⟨0, alice, minted, .single (.call _ _ (by decide))⟩

theorem createVestingSchedule_bound :
    createVestingSchedule deployment ⟨alice, 10⟩ bob 10 0 100 1 true 1000 bound.contract =
      .ok granted.contract := by
  rfl

end Sample

/-- Bob's grant of a thousand units vests on a curve, and his collection is on
or below it. -/
theorem released_follows_the_curve_sample : ∃ V : Uint256 → Uint256,
    (Sample.granted.contract.vestingSchedules Sample.grantId).Curve V ∧ 200 ≤ V 60 := by
  obtain ⟨_, g, V, id, -, -, rfl, hstored, -, hcurve, -, hreleases⟩ :=
    released_follows_the_curve Sample.deployment_documented Sample.bound_reachable (by decide)
      Sample.createVestingSchedule_bound (by decide) (by decide)
  have hgrant : Sample.granted.contract.vestingSchedules Sample.grantId = g := hstored
  obtain ⟨released, hreleased, hcollected⟩ := hreleases Sample.collected
    (.single (.attempt ⟨Sample.bob, 60⟩ Sample.grantId 200 (by decide)))
  have htwoHundred : released = 200 := by
    have hsame := congrArg VestingSchedule.released hreleased
    exact hsame.symm.trans (congrArg VestingSchedule.released Sample.collected_grant)
  exact ⟨V, hgrant ▸ hcurve, htwoHundred ▸ (hcollected 60 (by decide)).1⟩

end Palmy
