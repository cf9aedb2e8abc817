/-
The snapshot bookkeeping never stands in the way.  Every subtraction it makes is
from the power of a delegatee, which holds at least what the delegator has.
-/
import Palmy.PowerQueries

namespace Palmy

open Solidity
open Delegation
open GovernancePowerDelegation

/-- The transfer hook is unset or accepts every transfer. -/
def HookAccepts (env : Env) (s : Token) : Prop :=
  s.palmyGovernance = 0 ∨
    ∀ src dst amount, env.onTransfer s.palmyGovernance src dst amount = .ok ()

theorem callTransferHook_eq_ok {env : Env} {s s' : Token} (hhook : HookAccepts env s)
    (hsame : s'.palmyGovernance = s.palmyGovernance) (src dst : Address) (amount : Uint256) :
    callTransferHook env src dst amount s' = .ok () := by
  rw [callTransferHook, hsame]
  rcases hhook with hunset | haccepts
  · rw [if_neg (not_not.mpr hunset)]
  · split
    · exact haccepts src dst amount
    · rfl

namespace GovernancePowerDelegation

variable {env : Env} {now : ℕ} {t : DelegationType} {s s' : Token} {src dst : Address}
  {amount : Uint256}

theorem succeeds_changePower (user : Address) (change : Uint256 → Result Uint256)
    (hchange : Succeeds (change (previousPower user t s)))
    (hsorted : (s.snapshotTable t).SortedUpTo now) (hnow : now ≤ env.block.number.val) :
    Succeeds (changePower env user change t s) := by
  obtain ⟨changed, hchanged⟩ := hchange
  obtain ⟨table, htable⟩ := succeeds_writeSnapshot hsorted hnow user (uint128 changed)
  have hnoted : (s.noteNarrowed [previousPower user t s, changed]).snapshotTable t =
      s.snapshotTable t := by
    cases t <;> rfl
  rw [changePower, hchanged, ok_bind]
  simp only [hnoted, htable, ok_bind]
  exact succeeds_pure _

/-- A movement succeeds when the source has the power and the target the room. -/
theorem succeeds_moveDelegatesByType (hsorted : (s.snapshotTable t).SortedUpTo now)
    (hnow : now ≤ env.block.number.val)
    (henough : src ≠ dst → src ≠ 0 → amount.val ≤ (previousPower src t s).val)
    (hroom : (previousPower dst t s).val + amount.val < 2 ^ 256) :
    Succeeds (moveDelegatesByType env src dst amount t s) := by
  unfold moveDelegatesByType
  by_cases heq : src = dst
  · rw [if_pos heq]
    exact succeeds_pure s
  rw [if_neg heq, succeeds_bind]
  have hfirst : ∃ s₁, (if src ≠ 0 then
        changePower env src (fun previous => SafeMath.sub previous amount) t s
      else pure s) = .ok s₁ ∧ previousPower dst t s₁ = previousPower dst t s ∧
      (s₁.snapshotTable t).SortedUpTo env.block.number.val := by
    by_cases hzero : src = 0
    · exact ⟨s, if_neg (not_not.mpr hzero), rfl, hsorted.mono hnow⟩
    · have hle := henough heq hzero
      have hsub : Succeeds (SafeMath.sub (previousPower src t s) amount) :=
        ⟨⟨(previousPower src t s).val - amount.val, by omega⟩,
          SafeMath.sub_eq_ok.mpr ⟨hle, rfl⟩⟩
      obtain ⟨s₁, hchange⟩ := succeeds_changePower src
        (fun previous => SafeMath.sub previous amount) hsub hsorted hnow
      obtain ⟨_, -, hrecorded, -⟩ := recorded_changePower hchange hsorted hnow
      exact ⟨s₁, (if_pos hzero).trans hchange, hrecorded.previous dst (Ne.symm heq),
        hrecorded.sorted⟩
  obtain ⟨s₁, hs₁, hprevious, hsorted₁⟩ := hfirst
  refine ⟨s₁, hs₁, ?_⟩
  split
  · apply succeeds_changePower _ _ _ hsorted₁ le_rfl
    rw [hprevious]
    exact ⟨⟨_, hroom⟩, SafeMath.add_eq_ok.mpr rfl⟩
  · exact succeeds_pure s₁

theorem snapshotTable_moveDelegatesByType (h : moveDelegatesByType env src dst amount t s =
    .ok s') {t' : DelegationType} (hne : t' ≠ t) :
    s'.snapshotTable t' = s.snapshotTable t' := by
  unfold moveDelegatesByType at h
  split at h
  · rw [pure_eq_ok] at h
    rw [h]
  simp only [bind_eq_ok, ite_pure_eq_ok] at h
  obtain ⟨s₁, hfirst, hsecond⟩ := h
  have hkept₁ : s₁.snapshotTable t' = s.snapshotTable t' := by
    rcases hfirst with ⟨-, hchange⟩ | ⟨-, rfl⟩
    · exact snapshotTable_changePower hchange hne
    · rfl
  rcases hsecond with ⟨-, hchange⟩ | ⟨-, rfl⟩
  · exact (snapshotTable_changePower hchange hne).trans hkept₁
  · exact hkept₁

/-- A delegation to a real account succeeds: the delegatee of today has at least
the balance that leaves it. -/
theorem succeeds_delegateByTypeInternal {delegator delegatee : Address}
    (hinv : PowerInvariant s now) (hnow : now ≤ env.block.number.val) (hne : delegatee ≠ 0) :
    Succeeds (delegateByTypeInternal env delegator delegatee t s) := by
  have hrequire : require (delegatee ≠ 0) "INVALID_DELEGATEE" = .ok () := require_eq_ok.mpr hne
  have hprevious : ∀ user, (previousPower user t
      (s.setDelegates t (Function.update (s.delegates t) delegator delegatee))).val =
      s.delegatedPower t user := by
    intro user
    rw [previousPower_congr (sameLedger_setDelegates s t _).balances
      (Token.snapshotTable_setDelegates s t t _)]
    exact hinv.previousPower_eq t user
  have hmove : Succeeds (moveDelegatesByType env (getDelegatee delegator (s.delegates t))
      delegatee (s.balances delegator) t
      (s.setDelegates t (Function.update (s.delegates t) delegator delegatee))) := by
    apply succeeds_moveDelegatesByType _ hnow
    · intro _ _
      rw [hprevious]
      exact le_power s.holdings (fun d => getDelegateeByType d t s) delegator
    · rw [hprevious]
      have hpower := delegatedPower_lt hinv.supply t delegatee
      have hbalance : (s.balances delegator).val < 2 ^ 128 := holdings_lt hinv.supply delegator
      omega
    · rw [Token.snapshotTable_setDelegates]
      exact (hinv.coherent t).sorted
  obtain ⟨s', hs'⟩ := hmove
  rw [delegateByTypeInternal, hrequire, ok_bind]
  simp only [hs', ok_bind]
  exact succeeds_pure _

end GovernancePowerDelegation

section Transfers

variable {env : Env} {now : ℕ} {s : Token} {src : Address} {amount : Uint256}

/-- The hook of V2 lets through whatever the balance covers. -/
theorem PlmyTokenV2.succeeds_beforeTokenTransfer (hinv : PowerInvariant s now)
    (hnow : now ≤ env.block.number.val) (hhook : HookAccepts env s)
    (henough : amount ≤ s.balances src) (dst : Address) :
    Succeeds (beforeTokenTransfer env src dst amount s) := by
  have hbalance : amount.val ≤ s.holdings src := henough
  have hsmall := holdings_lt hinv.supply src
  have hcover : ∀ t, amount.val ≤ s.delegatedPower t (getDelegateeByType src t s) := fun t =>
    hbalance.trans (le_power s.holdings (fun d => getDelegateeByType d t s) src)
  have hvoting : Succeeds (moveDelegatesByType env (getDelegatee src s.votingDelegates)
      (getDelegatee dst s.votingDelegates) amount .votingPower s) := by
    apply succeeds_moveDelegatesByType (hinv.coherent .votingPower).sorted hnow
    · intro _ _
      rw [hinv.previousPower_eq]
      exact hcover .votingPower
    · rw [hinv.previousPower_eq]
      have hpower := delegatedPower_lt hinv.supply .votingPower
        (getDelegatee dst s.votingDelegates)
      omega
  obtain ⟨a, ha⟩ := hvoting
  have hframe := onlySnapshots_moveDelegatesByType ha
  have hdelegates : a.propositionPowerDelegates = s.propositionPowerDelegates :=
    hframe.delegates .propositionPower
  have htable : a.snapshotTable .propositionPower = s.snapshotTable .propositionPower :=
    snapshotTable_moveDelegatesByType ha (by decide)
  have hprevious : ∀ user, (previousPower user .propositionPower a).val =
      s.delegatedPower .propositionPower user := fun user => by
    rw [previousPower_congr hframe.balances htable]
    exact hinv.previousPower_eq .propositionPower user
  have hproposition : Succeeds (moveDelegatesByType env
      (getDelegatee src a.propositionPowerDelegates)
      (getDelegatee dst a.propositionPowerDelegates) amount .propositionPower a) := by
    apply succeeds_moveDelegatesByType _ hnow
    · intro _ _
      rw [hprevious, hdelegates]
      exact hcover .propositionPower
    · rw [hprevious]
      have hpower := delegatedPower_lt hinv.supply .propositionPower
        (getDelegatee dst a.propositionPowerDelegates)
      omega
    · rw [htable]
      exact (hinv.coherent .propositionPower).sorted
  obtain ⟨b, hb⟩ := hproposition
  have hsame : b.palmyGovernance = s.palmyGovernance :=
    (hframe.trans (onlySnapshots_moveDelegatesByType hb)).palmyGovernance
  simp only [beforeTokenTransfer, ha, hb, ok_bind, callTransferHook_eq_ok hhook hsame]
  exact succeeds_pure b

/-- `_transfer` succeeds exactly when both ends are real accounts and the balance
suffices, if its hook asks for no more. -/
theorem ERC20.succeeds_transferInternal_iff {beforeTokenTransfer : ERC20.BeforeTokenTransfer}
    {dst : Address} (hsupply : SupplyInvariant s)
    (hframe : ∀ {s₁}, beforeTokenTransfer src dst amount s = .ok s₁ → s₁.balances = s.balances)
    (hhook : amount ≤ s.balances src → Succeeds (beforeTokenTransfer src dst amount s)) :
    Succeeds (transferInternal beforeTokenTransfer src dst amount s) ↔
      src ≠ 0 ∧ dst ≠ 0 ∧ amount ≤ s.balances src := by
  constructor
  · rintro ⟨s', h⟩
    obtain ⟨hsrc, hdst, s₁, hbefore, henough, -⟩ := transferInternal_cases h
    rw [Token.holdings, hframe hbefore] at henough
    exact ⟨hsrc, hdst, henough⟩
  · rintro ⟨hsrc, hdst, henough⟩
    obtain ⟨s₁, hbefore⟩ := hhook henough
    have hbalance : amount.val ≤ (s.balances src).val := henough
    have hsmall : ∀ account, (s.balances account).val < 2 ^ 128 := holdings_lt hsupply
    let debited : Uint256 := ⟨(s.balances src).val - amount.val, by omega⟩
    have hreceived : (Function.update s.balances src debited dst).val < 2 ^ 128 := by
      by_cases heq : dst = src
      · rw [heq, Function.update_self]
        exact (Nat.sub_le _ _).trans_lt (hsmall src)
      · rw [Function.update_of_ne heq]
        exact hsmall dst
    have hamount := hsmall src
    let credited : Uint256 :=
      ⟨(Function.update s.balances src debited dst).val + amount.val, by omega⟩
    have hsub : SafeMath.subOr (s.balances src) amount
        "ERC20: transfer amount exceeds balance" = .ok debited :=
      SafeMath.subOr_eq_ok.mpr ⟨henough, rfl⟩
    have hadd : SafeMath.add (Function.update s.balances src debited dst) amount =
        .ok credited := SafeMath.add_eq_ok.mpr rfl
    have hrequireSrc : require (src ≠ 0) "ERC20: transfer from the zero address" = .ok () :=
      require_eq_ok.mpr hsrc
    have hrequireDst : require (dst ≠ 0) "ERC20: transfer to the zero address" = .ok () :=
      require_eq_ok.mpr hdst
    simp only [transferInternal, hrequireSrc, hrequireDst, hbefore, hframe hbefore, hsub, hadd,
      ok_bind]
    exact succeeds_pure _

theorem PlmyTokenV2.succeeds_transferInternal_iff {dst : Address} (hinv : PowerInvariant s now)
    (hnow : now ≤ env.block.number.val) (hhook : HookAccepts env s) :
    Succeeds (ERC20.transferInternal (beforeTokenTransfer env) src dst amount s) ↔
      src ≠ 0 ∧ dst ≠ 0 ∧ amount ≤ s.balances src :=
  ERC20.succeeds_transferInternal_iff hinv.supply
    (fun h => (onlySnapshots_beforeTokenTransfer h).balances)
    fun henough => succeeds_beforeTokenTransfer hinv hnow hhook henough dst

/-- `transferFrom` of V2 also needs the allowance, which it checks last. -/
theorem PlmyTokenV2.succeeds_transferFrom_iff {dst : Address} (hinv : PowerInvariant s now)
    (hnow : now ≤ env.block.number.val) (hhook : HookAccepts env s)
    (hcaller : env.msgSender ≠ 0) :
    Succeeds (PlmyTokenV2.transferFrom env src dst amount s) ↔
      src ≠ 0 ∧ dst ≠ 0 ∧ amount ≤ s.balances src ∧ amount ≤ s.allowances src env.msgSender := by
  have hallowances : ∀ s', ERC20.transferInternal (beforeTokenTransfer env) src dst amount s =
      .ok s' → s'.allowances = s.allowances := by
    intro s' h
    obtain ⟨-, -, s₁, hbefore, -, hrest, -⟩ := ERC20.transferInternal_cases h
    rw [hrest]
    exact (onlySnapshots_beforeTokenTransfer hbefore).allowances
  rw [PlmyTokenV2.transferFrom, ERC20.transferFrom, succeeds_bind]
  constructor
  · rintro ⟨s', htransfer, hrest⟩
    obtain ⟨remaining, hsub, -⟩ := succeeds_bind.mp hrest
    rw [hallowances s' htransfer] at hsub
    obtain ⟨hsrc, hdst, henough⟩ :=
      (succeeds_transferInternal_iff hinv hnow hhook).mp ⟨s', htransfer⟩
    exact ⟨hsrc, hdst, henough, (SafeMath.subOr_eq_ok.mp hsub).1⟩
  · rintro ⟨hsrc, hdst, henough, hallowed⟩
    obtain ⟨s', htransfer⟩ :=
      (succeeds_transferInternal_iff hinv hnow hhook).mpr ⟨hsrc, hdst, henough⟩
    have hallowedVal : amount.val ≤ (s.allowances src env.msgSender).val := hallowed
    let remaining : Uint256 := ⟨(s.allowances src env.msgSender).val - amount.val, by omega⟩
    have hsub : SafeMath.subOr (s'.allowances src env.msgSender) amount
        "ERC20: transfer amount exceeds allowance" = .ok remaining := by
      rw [hallowances s' htransfer]
      exact SafeMath.subOr_eq_ok.mpr ⟨hallowed, rfl⟩
    refine ⟨s', htransfer, succeeds_bind.mpr ⟨remaining, hsub, ?_⟩⟩
    have hrequireOwner : require (src ≠ 0) "ERC20: approve from the zero address" = .ok () :=
      require_eq_ok.mpr hsrc
    have hrequireSpender : require (env.msgSender ≠ 0) "ERC20: approve to the zero address" =
        .ok () := require_eq_ok.mpr hcaller
    rw [ERC20.approveInternal, hrequireOwner, ok_bind, hrequireSpender, ok_bind]
    exact succeeds_pure _

theorem succeeds_delegateByTypeInternal_iff {t : DelegationType} {delegator delegatee : Address}
    (hinv : PowerInvariant s now) (hnow : now ≤ env.block.number.val) :
    Succeeds (delegateByTypeInternal env delegator delegatee t s) ↔ delegatee ≠ 0 := by
  constructor
  · rintro ⟨s', h⟩
    exact (delegateByTypeInternal_cases h).1
  · exact succeeds_delegateByTypeInternal hinv hnow

theorem succeeds_delegate_iff {delegatee : Address} (hinv : PowerInvariant s now)
    (hnow : now ≤ env.block.number.val) :
    Succeeds (delegate env delegatee s) ↔ delegatee ≠ 0 := by
  rw [delegate, succeeds_bind]
  constructor
  · rintro ⟨s₁, hvoting, -⟩
    exact (delegateByTypeInternal_cases hvoting).1
  · intro hne
    obtain ⟨s₁, hvoting⟩ := succeeds_delegateByTypeInternal hinv hnow hne
    obtain ⟨-, hinv₁⟩ := powerStep_delegateByTypeInternal hinv hnow hvoting
    exact ⟨s₁, hvoting, succeeds_delegateByTypeInternal hinv₁ le_rfl hne⟩

end Transfers

/-- Snapshot bookkeeping never blocks a legitimate operation.  In every state of
V2, with a hook that lets transfers pass, balances, allowances and zero addresses
alone decide what succeeds. -/
theorem snapshots_block_no_operation {chain : Chain} {txs : List Tx} (hrun : RunV2 chain txs)
    (env : Env) (hblock : ∀ tx ∈ txs, tx.block ≤ env.block.number.val)
    (hhook : HookAccepts env (Proxy.run chain txs).token) (hcaller : env.msgSender ≠ 0) :
    (∀ recipient amount,
      Succeeds (PlmyTokenV2.transfer env recipient amount (Proxy.run chain txs).token) ↔
        recipient ≠ 0 ∧ amount ≤ ERC20.balanceOf (Proxy.run chain txs).token env.msgSender) ∧
      (∀ sender recipient amount,
        Succeeds (PlmyTokenV2.transferFrom env sender recipient amount
            (Proxy.run chain txs).token) ↔
          sender ≠ 0 ∧ recipient ≠ 0 ∧
          amount ≤ ERC20.balanceOf (Proxy.run chain txs).token sender ∧
          amount ≤ ERC20.allowance (Proxy.run chain txs).token sender env.msgSender) ∧
      (∀ delegatee,
        Succeeds (delegate env delegatee (Proxy.run chain txs).token) ↔ delegatee ≠ 0) ∧
      ∀ delegatee t,
        Succeeds (delegateByType env delegatee t (Proxy.run chain txs).token) ↔
          delegatee ≠ 0 := by
  have hinv := hrun.history.settled.current hblock
  refine ⟨?_, ?_, ?_, ?_⟩
  · intro recipient amount
    refine (PlmyTokenV2.succeeds_transferInternal_iff hinv le_rfl hhook).trans ?_
    exact ⟨fun h => h.2, fun h => ⟨hcaller, h⟩⟩
  · intro sender recipient amount
    exact PlmyTokenV2.succeeds_transferFrom_iff hinv le_rfl hhook hcaller
  · intro delegatee
    exact succeeds_delegate_iff hinv le_rfl
  · intro delegatee t
    exact succeeds_delegateByTypeInternal_iff hinv le_rfl

/-- Bob can pay out all he has received in the sample run. -/
theorem snapshots_block_no_operation_sample :
    Succeeds (PlmyTokenV2.transfer (Sample.env Sample.bob 6) Sample.alice 101
      (Proxy.run Sample.chain Sample.txs).token) :=
  ((snapshots_block_no_operation Sample.runV2_txs (Sample.env Sample.bob 6) (by decide)
    (Or.inl rfl) (by decide)).1 Sample.alice 101).mpr ⟨by decide, by decide⟩

end Palmy
