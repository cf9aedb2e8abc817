/-
What the vesting contract does without its owner.  Whoever else calls it, the
terms of every schedule and the funds beyond the schedules stay as they are;
once the ownership is renounced that is for good.
-/
import Palmy.VestingCollection
import Palmy.VestingRegistry

namespace Palmy

open Solidity
open TokenVesting

/-- One step of a run in which the owner stays silent. -/
inductive UnownedStep {d : Deployment} : VestingState d → VestingState d → Prop where
  | call {v : VestingState d} (m : Message) (call : TokenVesting.Call)
      (htime : v.now ≤ m.timestamp)
      (hothers : m.msgSender ≠ d.ownable.owner v.contract.owner) :
      UnownedStep v ⟨m.timestamp, commit v.contract (execute d m v.contract call)⟩
  | deposit {v : VestingState d} {ledger : d.tokens.Ledger}
      (hkept : d.tokens.holdings v.contract.token v.contract.ledger d.self ≤
        d.tokens.holdings v.contract.token ledger d.self) :
      UnownedStep v ⟨v.now, { v.contract with ledger := ledger }⟩

namespace TokenVesting

variable {d : Deployment} {m : Message} {s s₁ s' : TokenVesting d}

/-- The call a sender other than the owner can make: the first `initialzie`, or a
release as the beneficiary. -/
theorem execute_of_other (hdoc : d.Documented)
    (hother : m.msgSender ≠ d.ownable.owner s.owner) {call : Call}
    (h : execute d m s call = .ok s') :
    (∃ token, call = .initialzie token ∧ initialzie d token s = .ok s') ∨
      ∃ id amount, call = .release id amount ∧ release d m id amount s = .ok s' ∧
        m.msgSender = (s.vestingSchedules id).beneficiary := by
  have hbarred : ∀ u, d.ownable.onlyOwner m.msgSender s.owner ≠ .ok u := fun u hok =>
    hother ((hdoc.ownable.onlyOwner_eq_ok _ _ _).mp hok)
  cases call with
  | initialzie token => exact Or.inl ⟨token, rfl, h⟩
  | createVestingSchedule =>
      simp only [execute, createVestingSchedule, bind_eq_ok] at h
      obtain ⟨u, howner, -⟩ := h
      exact absurd howner (hbarred u)
  | revoke id =>
      simp only [execute, revoke, bind_eq_ok] at h
      obtain ⟨u, howner, -⟩ := h
      exact absurd howner (hbarred u)
  | withdraw amount =>
      simp only [execute, withdraw, bind_eq_ok] at h
      obtain ⟨_, -, u, howner, -⟩ := h
      exact absurd howner (hbarred u)
  | release id amount =>
      obtain ⟨_, _, _, _, _, -, -, hcaller, -⟩ := (release_eq_ok hdoc.safeMath).mp h
      exact Or.inr ⟨id, amount, rfl, h, hcaller.resolve_right hother⟩
  | transferOwnership newOwner =>
      simp only [execute, bind_eq_ok, pure_eq_ok] at h
      obtain ⟨owner, hok, -⟩ := h
      exact absurd (hdoc.ownable.transferOwnership_of_ok _ _ _ _ hok).1 hother
  | renounceOwnership =>
      simp only [execute, bind_eq_ok, pure_eq_ok] at h
      obtain ⟨owner, hok, -⟩ := h
      exact absurd (hdoc.ownable.renounceOwnership_of_ok _ _ _ hok).1 hother

theorem TokenFixed.not_initialzie (hfixed : s.TokenFixed) (hbound : s.token ≠ 0)
    {token : Address} : initialzie d token s ≠ .ok s' := by
  intro h
  obtain ⟨initialized, hfirst, -⟩ := bind_eq_ok.mp h
  exact hfixed hbound ⟨initialized, hfirst⟩

/-- Nothing happened but collection: the schedules keep their terms, what the
total fell by was released, and what the balance holds beyond the total did not
shrink. -/
structure Collected (s s' : TokenVesting d) : Prop where
  owner : s'.owner = s.owner
  token : s'.token = s.token
  ids : s'.vestingSchedulesIds = s.vestingSchedulesIds
  counts : s'.holdersVestingCount = s.holdersVestingCount
  schedule : ∀ id, ∃ released : Uint256,
    s'.vestingSchedules id = { s.vestingSchedules id with released := released } ∧
    (s.vestingSchedules id).released ≤ released
  total : s'.vestingSchedulesTotalAmount.val + ∑ id, (s'.vestingSchedules id).released.val =
    s.vestingSchedulesTotalAmount.val + ∑ id, (s.vestingSchedules id).released.val
  surplus : d.tokens.holdings s.token s.ledger d.self + s'.vestingSchedulesTotalAmount.val ≤
    d.tokens.holdings s'.token s'.ledger d.self + s.vestingSchedulesTotalAmount.val

namespace Collected

theorem refl (s : TokenVesting d) : Collected s s where
  owner := rfl
  token := rfl
  ids := rfl
  counts := rfl
  schedule _ := ⟨_, rfl, le_rfl⟩
  total := rfl
  surplus := le_rfl

theorem trans (hfirst : Collected s s₁) (hsecond : Collected s₁ s') : Collected s s' where
  owner := hsecond.owner.trans hfirst.owner
  token := hsecond.token.trans hfirst.token
  ids := hsecond.ids.trans hfirst.ids
  counts := hsecond.counts.trans hfirst.counts
  schedule id := by
    obtain ⟨before, hbefore, hle₁⟩ := hfirst.schedule id
    obtain ⟨after, hafter, hle₂⟩ := hsecond.schedule id
    rw [hbefore] at hafter hle₂
    exact ⟨after, hafter, hle₁.trans hle₂⟩
  total := hsecond.total.trans hfirst.total
  surplus := by
    have hbefore := hfirst.surplus
    have hafter := hsecond.surplus
    omega

/-- What the owner could withdraw did not shrink. -/
theorem withdrawable_le (h : Collected s s') (hdoc : d.Documented) {before after : Uint256}
    (hbefore : getWithdrawableAmount d s = .ok before)
    (hafter : getWithdrawableAmount d s' = .ok after) : before ≤ after := by
  obtain ⟨balance, hbalance, hsum⟩ := (getWithdrawableAmount_eq_ok hdoc.safeMath).mp hbefore
  obtain ⟨balance', hbalance', hsum'⟩ := (getWithdrawableAmount_eq_ok hdoc.safeMath).mp hafter
  have hsurplus := h.surplus
  rw [OpenZeppelin.Tokens.holdings_of_balanceOf hbalance,
    OpenZeppelin.Tokens.holdings_of_balanceOf hbalance'] at hsurplus
  exact Fin.le_def.mpr (by omega)

end Collected

theorem collected_of_release (hdoc : d.Documented) (hfaithful : d.tokens.Faithful s.token)
    {id : Bytes32} {amount : Uint256} (h : release d m id amount s = .ok s') :
    Collected s s' := by
  obtain ⟨_, _, released, total, ledger, -, -, -, -, -, hreleased, hle, htotal, hpaid, rfl⟩ :=
    (release_eq_ok hdoc.safeMath).mp h
  have hkept := hfaithful.holdings_sender_le hpaid
  have hsum : ∑ j, (Function.update s.vestingSchedules id
      { s.vestingSchedules id with released := released } j).released.val +
        (s.vestingSchedules id).released.val =
      ∑ j, (s.vestingSchedules j).released.val + released.val :=
    Delegation.total_update (fun g : VestingSchedule => g.released.val) _ _ _
  refine ⟨rfl, rfl, rfl, rfl, fun other => ?_, ?_, ?_⟩
  · by_cases heq : other = id
    · subst heq
      exact ⟨released, Function.update_self _ _ _, Fin.le_def.mpr (by omega)⟩
    · exact ⟨_, Function.update_of_ne heq _ _, le_rfl⟩
  · change total.val + ∑ j, (Function.update s.vestingSchedules id
      { s.vestingSchedules id with released := released } j).released.val = _
    omega
  · change _ + total.val ≤ _
    change _ ≤ d.tokens.holdings s.token ledger d.self + _
    omega

end TokenVesting

section Runs

variable {d : Deployment} {v w : VestingState d}

theorem UnownedStep.vestingStep (hstep : UnownedStep v w) : VestingStep v w := by
  cases hstep with
  | call m call htime hothers => exact .call m call htime
  | deposit hkept => exact .deposit hkept

theorem UnownedStep.collected (hdoc : d.Documented) (hfixed : v.contract.TokenFixed)
    (hbound : v.contract.token ≠ 0) (hfaithful : d.tokens.Faithful v.contract.token)
    (hstep : UnownedStep v w) : Collected v.contract w.contract := by
  cases hstep with
  | call m call htime hothers =>
      rcases commit_cases v.contract (execute d m v.contract call) with hsame | hok
      · rw [hsame]
        exact .refl v.contract
      · rcases execute_of_other hdoc hothers hok with ⟨token, -, hinit⟩ | ⟨id, amount, -, h, -⟩
        · exact absurd hinit (hfixed.not_initialzie hbound)
        · exact collected_of_release hdoc hfaithful h
  | deposit hkept =>
      exact { Collected.refl v.contract with surplus := Nat.add_le_add_right hkept _ }

theorem collected_of_run (hdoc : d.Documented) (hreach : v.Reachable)
    (hbound : v.contract.token ≠ 0) (hfaithful : d.tokens.Faithful v.contract.token)
    (hrun : Relation.ReflTransGen UnownedStep v w) :
    w.Reachable ∧ Collected v.contract w.contract := by
  induction hrun with
  | refl => exact ⟨hreach, .refl v.contract⟩
  | tail _ hstep ih =>
      obtain ⟨hreachMid, hmid⟩ := ih
      have hlast := hstep.collected hdoc (hreachMid.tokenFixed hdoc) (hmid.token ▸ hbound)
        (hmid.token ▸ hfaithful)
      exact ⟨hreachMid.run (.single hstep.vestingStep), hmid.trans hlast⟩

end Runs

/-- Without the owner nothing but collection happens.  From any reachable state
with a token on, over every run in which the owner sends nothing, for instance
because it renounced: owner, token, ids and counters stay, no schedule is
created, revoked or changed in its terms, the total falls by what is released
and by nothing else, and what could be withdrawn never shrinks.  The one call
that can go through is a release by the beneficiary of the schedule. -/
theorem without_the_owner_only_collection_happens {d : Deployment} {v w : VestingState d}
    (hdoc : d.Documented) (hreach : v.Reachable) (hbound : v.contract.token ≠ 0)
    (hfaithful : d.tokens.Faithful v.contract.token)
    (hrun : Relation.ReflTransGen UnownedStep v w) :
    Collected v.contract w.contract ∧
      (∀ before after, getWithdrawableAmount d v.contract = .ok before →
        getWithdrawableAmount d w.contract = .ok after → before ≤ after) ∧
      ∀ m call s', m.msgSender ≠ d.ownable.owner v.contract.owner →
        execute d m w.contract call = .ok s' →
        ∃ id amount, call = .release id amount ∧
          m.msgSender = (v.contract.vestingSchedules id).beneficiary := by
  obtain ⟨hreachEnd, hcollected⟩ := collected_of_run hdoc hreach hbound hfaithful hrun
  refine ⟨hcollected, fun _ _ => hcollected.withdrawable_le hdoc, fun m call s' hother h => ?_⟩
  rw [← hcollected.owner] at hother
  rcases execute_of_other hdoc hother h with ⟨token, -, hinit⟩ | ⟨id, amount, hcall, -, hcaller⟩
  · exact absurd hinit ((hreachEnd.tokenFixed hdoc).not_initialzie (hcollected.token ▸ hbound))
  · obtain ⟨released, hschedule, -⟩ := hcollected.schedule id
    rw [hschedule] at hcaller
    exact ⟨id, amount, hcall, hcaller⟩

/-- Alice renounces, and Bob collects three hundred units more. -/
theorem without_the_owner_only_collection_happens_sample :
    (Sample.send (Sample.send Sample.collected ⟨Sample.alice, 70⟩ .renounceOwnership)
      ⟨Sample.bob, 90⟩ (.release Sample.grantId 300)).contract.owner = (0 : Address) := by
  have hreach : (Sample.send Sample.collected ⟨Sample.alice, 70⟩ .renounceOwnership).Reachable :=
    Sample.collected_reachable.run (.single (.call _ _ (by decide)))
  have hcollected := without_the_owner_only_collection_happens Sample.deployment_documented hreach
    (by decide) (Sample.collected_faithful (by decide))
    (.single (.call ⟨Sample.bob, 90⟩ (.release Sample.grantId 300) (by decide) (by decide)))
  exact hcollected.1.owner

end Palmy
