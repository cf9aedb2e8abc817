/-
The invariant of delegated power.  Every recorded power is the sum of the
balances delegated to the user, and a user nothing was recorded for is
delegated to by itself alone, so that its balance stands for its power.
-/
import Palmy.PowerRecords
import Palmy.Supply

namespace Palmy

open Solidity
open Checkpoint
open Delegation
open Tracking
open GovernancePowerDelegation

/-- What the accounts delegating to `user` hold together. -/
def Token.delegatedPower (s : Token) (t : DelegationType) (user : Address) : ℕ :=
  ∑ d with getDelegateeByType d t s = user, (s.balances d).val

theorem Token.delegatedPower_eq (s : Token) (t : DelegationType) (user : Address) :
    s.delegatedPower t user = power s.holdings (fun d => getDelegateeByType d t s) user :=
  rfl

section Delegatees

variable {delegates : Address → Address} {delegator delegatee : Address}

theorem getDelegatee_ne_zero (hne : delegator ≠ 0) :
    getDelegatee delegator delegates ≠ 0 := by
  unfold getDelegatee
  by_cases hzero : delegates delegator = 0
  · simpa [hzero] using hne
  · simp [hzero]

/-- Storing a delegatee changes the profile at the delegator and nowhere else. -/
theorem getDelegatee_update (hne : delegatee ≠ 0) :
    (fun d => getDelegatee d (Function.update delegates delegator delegatee)) =
      Function.update (fun d => getDelegatee d delegates) delegator delegatee := by
  funext d
  by_cases heq : d = delegator
  · subst heq
    simp [getDelegatee, hne]
  · simp [getDelegatee, heq]

theorem delegatedPower_congr {s s' : Token} {t : DelegationType}
    (hholdings : s'.holdings = s.holdings) (hdelegates : s'.delegates t = s.delegates t)
    (user : Address) : s'.delegatedPower t user = s.delegatedPower t user := by
  simp only [Token.delegatedPower_eq, getDelegateeByType, hholdings, hdelegates]

theorem previousPower_congr {s s' : Token} {t : DelegationType}
    (hbalances : s'.balances = s.balances)
    (htable : s'.snapshotTable t = s.snapshotTable t) (user : Address) :
    previousPower user t s' = previousPower user t s := by
  simp only [previousPower, hbalances, htable]

end Delegatees

/-- The supply bounds every power far below `2 ^ 128`. -/
theorem delegatedPower_lt {s : Token} (hsupply : SupplyInvariant s) (t : DelegationType)
    (user : Address) : s.delegatedPower t user < 2 ^ 128 := by
  have hpower : s.delegatedPower t user ≤ ∑ account, s.holdings account :=
    power_le_total s.holdings (fun d => getDelegateeByType d t s) user
  have htotal := hsupply.total
  have hcapped := hsupply.capped
  have hcap : PlmyToken.distributionAmount.val + PlmyToken.incentiveAmount.val < 2 ^ 128 := by
    decide
  omega

theorem holdings_lt {s : Token} (hsupply : SupplyInvariant s) (account : Address) :
    s.holdings account < 2 ^ 128 := by
  have hle := le_total s.holdings account
  have htotal := hsupply.total
  have hcapped := hsupply.capped
  have hcap : PlmyToken.distributionAmount.val + PlmyToken.incentiveAmount.val < 2 ^ 128 := by
    decide
  omega

/-- Only the account itself delegates to it. -/
def SelfDelegated (s : Token) (t : DelegationType) (user : Address) : Prop :=
  ∀ d, getDelegateeByType d t s = user ↔ d = user

theorem SelfDelegated.delegatedPower {s : Token} {t : DelegationType} {user : Address}
    (h : SelfDelegated s t user) : s.delegatedPower t user = s.holdings user :=
  power_of_forall_iff s.holdings _ user h

/-- The snapshots of one type are sound at block `now`. -/
structure Coherent (s : Token) (t : DelegationType) (now : ℕ) : Prop where
  sorted : (s.snapshotTable t).SortedUpTo now
  current : ∀ user, s.history t user ≠ [] →
    lookup 0 (s.history t user) now = s.delegatedPower t user
  fresh : ∀ user ≠ 0, s.history t user = [] → SelfDelegated s t user
  zero : s.history t 0 = []

namespace Coherent

variable {s s' : Token} {t : DelegationType} {now : ℕ}

theorem mono (hcoherent : Coherent s t now) {later : ℕ} (hle : now ≤ later) :
    Coherent s t later where
  sorted := hcoherent.sorted.mono hle
  current user hne := by
    rw [← hcoherent.current user hne]
    exact lookup_eq_of_forall_le 0 ((hcoherent.sorted.mono hle).le_now user)
      (hcoherent.sorted.le_now user)
  fresh := hcoherent.fresh
  zero := hcoherent.zero

theorem congr (hcoherent : Coherent s t now) (hholdings : s'.holdings = s.holdings)
    (hdelegates : s'.delegates t = s.delegates t)
    (htable : s'.snapshotTable t = s.snapshotTable t) : Coherent s' t now where
  sorted := by
    rw [htable]
    exact hcoherent.sorted
  current user hne := by
    rw [Token.history, htable] at hne ⊢
    rw [delegatedPower_congr hholdings hdelegates]
    exact hcoherent.current user hne
  fresh user hne hnil := by
    rw [Token.history, htable] at hnil
    simp only [SelfDelegated, getDelegateeByType, hdelegates]
    exact hcoherent.fresh user hne hnil
  zero := by
    rw [Token.history, htable]
    exact hcoherent.zero

/-- A user without snapshots has its balance as power. -/
theorem delegatedPower_of_nil (hcoherent : Coherent s t now) (hzero : s.holdings 0 = 0)
    {user : Address} (hnil : s.history t user = []) :
    s.delegatedPower t user = s.holdings user := by
  by_cases huser : user = 0
  · -- only account zero can be left to delegate to account zero
    subst huser
    rw [hzero]
    apply Finset.sum_eq_zero
    intro d hd
    have hdelegatee := (Finset.mem_filter.mp hd).2
    have hd : d = 0 := by
      by_contra hne
      exact getDelegatee_ne_zero hne hdelegatee
    rw [hd]
    exact hzero
  · exact (hcoherent.fresh user huser hnil).delegatedPower

/-- The power the code reads before it changes it is the delegated power. -/
theorem previousPower_eq (hcoherent : Coherent s t now) (hzero : s.holdings 0 = 0)
    (user : Address) : (previousPower user t s).val = s.delegatedPower t user := by
  by_cases hcount : (s.snapshotTable t).counts user = 0
  · have hnil : s.history t user = [] := SnapshotTable.history_eq_nil_iff.mpr hcount
    rw [hcoherent.delegatedPower_of_nil hzero hnil]
    simp [previousPower, hcount, Token.holdings]
  · have hne : s.history t user ≠ [] := fun hnil =>
      hcount (SnapshotTable.history_eq_nil_iff.mp hnil)
    have hconcat := SnapshotTable.history_eq_concat (s.snapshotTable t) hcount
    have hlast := hcoherent.sorted.le_now user _
      (SnapshotTable.newest_mem_history (s.snapshotTable t) hcount)
    rw [← hcoherent.current user hne, Token.history, hconcat, lookup_concat_of_le 0 _ hlast,
      SnapshotTable.entry_pred _ hcount]
    simp [previousPower, hcount]

end Coherent

/-- One step at a block, as one type of power sees it. -/
structure PowerStep (block : ℕ) (t : DelegationType) (s s' : Token) : Prop where
  tracked : ∀ user, Tracked block (s.history t user) (s'.history t user)
    (s.delegatedPower t user) (s'.delegatedPower t user)
  fresh : ∀ user ≠ 0, s'.history t user = [] → SelfDelegated s t user →
    SelfDelegated s' t user
  zero : s'.history t 0 = s.history t 0

namespace PowerStep

variable {block : ℕ} {t : DelegationType} {s s₁ s' : Token}

theorem of_same (hholdings : s'.holdings = s.holdings)
    (hdelegates : s'.delegates t = s.delegates t)
    (htable : s'.snapshotTable t = s.snapshotTable t) : PowerStep block t s s' where
  tracked user := by
    refine .kept ?_ (delegatedPower_congr hholdings hdelegates user)
    rw [Token.history, Token.history, htable]
  fresh user _ _ hself := by
    simpa only [SelfDelegated, getDelegateeByType, hdelegates] using hself
  zero := by rw [Token.history, Token.history, htable]

theorem trans (hfirst : PowerStep block t s s₁) (hsecond : PowerStep block t s₁ s') :
    PowerStep block t s s' where
  tracked user := (hfirst.tracked user).trans (hsecond.tracked user)
  fresh user hne hnil hself :=
    hsecond.fresh user hne hnil
      (hfirst.fresh user hne ((hsecond.tracked user).of_nil hnil).1 hself)
  zero := hsecond.zero.trans hfirst.zero

theorem coherent {now : ℕ} (hstep : PowerStep block t s s') (hcoherent : Coherent s t now)
    (hnow : now ≤ block) : Coherent s' t block where
  sorted :=
    ⟨fun user => (hstep.tracked user).sorted (hcoherent.sorted.sorted user),
      fun user => (hstep.tracked user).forall_le ((hcoherent.sorted.mono hnow).le_now user)⟩
  current user hne := by
    cases hstep.tracked user with
    | kept hhistory hvalue =>
        rw [hhistory] at hne ⊢
        rw [hvalue]
        exact (hcoherent.mono hnow).current user hne
    | recorded hhistory =>
        rw [hhistory]
        exact lookup_record_of_le 0 _ _ le_rfl
  fresh user hne hnil :=
    hstep.fresh user hne hnil
      (hcoherent.fresh user hne ((hstep.tracked user).of_nil hnil).1)
  zero := hstep.zero.trans hcoherent.zero

/-- A step whose snapshots followed a shift of power. -/
theorem of_powerMoved {src dst : Address} {before after : Token}
    (hmoved : PowerMoved block t src dst (s.delegatedPower t) (s'.delegatedPower t)
      before after)
    (hbefore : before.snapshotTable t = s.snapshotTable t)
    (hafter : s'.snapshotTable t = after.snapshotTable t)
    (hfresh : ∀ user ≠ 0, src = dst ∨ (user ≠ src ∧ user ≠ dst) → SelfDelegated s t user →
      SelfDelegated s' t user) : PowerStep block t s s' := by
  have hhistory : ∀ user, s'.history t user = after.history t user := fun user => by
    rw [Token.history, hafter, Token.history]
  have hhistory₀ : ∀ user, before.history t user = s.history t user := fun user => by
    rw [Token.history, hbefore, Token.history]
  refine ⟨?_, ?_, ?_⟩
  · intro user
    have htracked := hmoved.tracked user
    rwa [← hhistory, hhistory₀] at htracked
  · intro user hne hnil hself
    rw [hhistory] at hnil
    exact hfresh user hne (hmoved.untouched user hne hnil) hself
  · rw [hhistory, hmoved.zero, hhistory₀]

end PowerStep

end Palmy
