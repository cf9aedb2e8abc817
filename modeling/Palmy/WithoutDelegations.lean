/-
As long as nobody delegates, V2 is V1.  The two hooks write the same snapshots
because V1 records balances and V2 records powers that then equal them.
-/
import Palmy.Availability

namespace Palmy

open Solidity
open Delegation
open GovernancePowerDelegation

/-- What the ERC20 calls read and write, the voting snapshots included. -/
structure SameView (s₁ s₂ : Token) : Prop where
  balances : s₂.balances = s₁.balances
  allowances : s₂.allowances = s₁.allowances
  totalSupply : s₂.totalSupply = s₁.totalSupply
  nonces : s₂.nonces = s₁.nonces
  votingSnapshots : s₂.votingSnapshots = s₁.votingSnapshots
  palmyGovernance : s₂.palmyGovernance = s₁.palmyGovernance
  domainSeparator : s₂.domainSeparator = s₁.domainSeparator

/-- The snapshots of a movement between accounts that are their own delegatees:
the two new balances, the sender's first. -/
def Written (block : Block) (balances : Address → Uint256) (src dst : Address) (n : ℕ)
    (table table' : SnapshotTable) : Prop :=
  if src = dst then table' = table
  else ∃ debited credited : Uint256, debited.val + n = (balances src).val ∧
    credited.val = (balances dst).val + n ∧
    ∃ mid, table.writeSnapshot block src (uint128 debited) = .ok mid ∧
      mid.writeSnapshot block dst (uint128 credited) = .ok table'

theorem Written.unique {block : Block} {balances : Address → Uint256} {src dst : Address}
    {n : ℕ} {table first second : SnapshotTable}
    (hfirst : Written block balances src dst n table first)
    (hsecond : Written block balances src dst n table second) : second = first := by
  unfold Written at hfirst hsecond
  split at hfirst
  · next heq =>
      rw [if_pos heq] at hsecond
      exact hsecond.trans hfirst.symm
  · next hne =>
      rw [if_neg hne] at hsecond
      obtain ⟨debited₁, credited₁, hdebited₁, hcredited₁, mid₁, hmid₁, htable₁⟩ := hfirst
      obtain ⟨debited₂, credited₂, hdebited₂, hcredited₂, mid₂, hmid₂, htable₂⟩ := hsecond
      have hdebited : debited₂ = debited₁ := Fin.ext (by omega)
      have hcredited : credited₂ = credited₁ := Fin.ext (by omega)
      rw [hdebited] at hmid₂
      have hmid : mid₂ = mid₁ := Except.ok.inj (hmid₂.symm.trans hmid₁)
      rw [hcredited, hmid] at htable₂
      exact Except.ok.inj (htable₂.symm.trans htable₁)

section Hooks

variable {env : Env} {now : ℕ} {s s' : Token} {src dst : Address} {amount : Uint256}

namespace PlmyToken

theorem writeNarrowed_cases {owner : Address} {oldValue newValue : Uint256}
    (h : writeNarrowed env owner oldValue newValue s = .ok s') :
    s.votingSnapshots.writeSnapshot env.block owner (uint128 newValue) =
      .ok s'.votingSnapshots := by
  simp only [writeNarrowed, writeSnapshot, bind_eq_ok, pure_eq_ok] at h
  obtain ⟨table, hwrite, rfl⟩ := h
  exact hwrite

theorem written_beforeTokenTransfer (h : beforeTokenTransfer env src dst amount s = .ok s')
    (hsrc : src ≠ 0) (hdst : dst ≠ 0) :
    Written env.block s.balances src dst amount.val s.votingSnapshots s'.votingSnapshots := by
  unfold beforeTokenTransfer at h
  by_cases heq : src = dst
  · simp only [heq, ↓reduceIte, pure_eq_ok] at h
    rw [Written, if_pos heq, h]
  simp only [heq, hsrc, hdst, ne_eq, not_false_eq_true, ↓reduceIte, bind_eq_ok, pure_eq_ok,
    SafeMath.sub_eq_ok, SafeMath.add_eq_ok] at h
  obtain ⟨s₁, ⟨debited, ⟨hle, hdebited⟩, hfirst⟩, s₂, ⟨credited, hcredited, hsecond⟩,
    _, _, rfl⟩ := h
  have hleVal : amount.val ≤ (s.balances src).val := hle
  rw [(onlySnapshots_writeNarrowed hfirst).balances] at hcredited
  rw [Written, if_neg heq]
  exact ⟨debited, credited, by omega, hcredited, s₁.votingSnapshots, writeNarrowed_cases hfirst,
    writeNarrowed_cases hsecond⟩

theorem succeeds_writeNarrowed (hsorted : s.votingSnapshots.SortedUpTo now)
    (hnow : now ≤ env.block.number.val) (owner : Address) (oldValue newValue : Uint256) :
    Succeeds (writeNarrowed env owner oldValue newValue s) := by
  obtain ⟨table, htable⟩ := succeeds_writeSnapshot hsorted hnow owner (uint128 newValue)
  have hnoted : (s.noteNarrowed [oldValue, newValue]).votingSnapshots = s.votingSnapshots := rfl
  rw [writeNarrowed, writeSnapshot, hnoted, htable, ok_bind]
  exact succeeds_pure _

/-- The hook of V1 lets through whatever the balance covers. -/
theorem succeeds_beforeTokenTransfer (hinv : PowerInvariant s now)
    (hnow : now ≤ env.block.number.val) (hhook : HookAccepts env s)
    (henough : amount ≤ s.balances src) (hsrc : src ≠ 0) (hdst : dst ≠ 0) :
    Succeeds (beforeTokenTransfer env src dst amount s) := by
  unfold beforeTokenTransfer
  by_cases heq : src = dst
  · rw [if_pos heq]
    exact succeeds_pure s
  have hbalance : amount.val ≤ (s.balances src).val := henough
  have hsmall : ∀ account, (s.balances account).val < 2 ^ 128 := holdings_lt hinv.supply
  have hsmallSrc := hsmall src
  have hsmallDst := hsmall dst
  let debited : Uint256 := ⟨(s.balances src).val - amount.val, by omega⟩
  let credited : Uint256 := ⟨(s.balances dst).val + amount.val, by omega⟩
  have hsub : SafeMath.sub (s.balances src) amount = .ok debited :=
    SafeMath.sub_eq_ok.mpr ⟨henough, rfl⟩
  have hadd : SafeMath.add (s.balances dst) amount = .ok credited := SafeMath.add_eq_ok.mpr rfl
  have hsorted := (hinv.coherent .votingPower).sorted
  obtain ⟨s₁, hfirst⟩ := succeeds_writeNarrowed hsorted hnow src (s.balances src) debited
  have hsorted₁ := (recorded_writeNarrowed hfirst hsorted hnow).1.sorted
  have hframe₁ := onlySnapshots_writeNarrowed hfirst
  obtain ⟨s₂, hsecond⟩ := succeeds_writeNarrowed hsorted₁ le_rfl dst (s.balances dst) credited
  have hgovernance : s₂.palmyGovernance = s.palmyGovernance :=
    (hframe₁.trans (onlySnapshots_writeNarrowed hsecond)).palmyGovernance
  simp only [heq, hsrc, hdst, ne_eq, not_false_eq_true, ↓reduceIte, hsub, hfirst, ok_bind,
    hframe₁.balances, hadd, hsecond, callTransferHook_eq_ok hhook hgovernance]
  exact succeeds_pure s₂

end PlmyToken

/-- Without delegations the hook of V2 writes what V1 would write. -/
theorem PlmyTokenV2.written_beforeTokenTransfer (hinv : PowerInvariant s now)
    (hnobody : NobodyDelegates s)
    (h : beforeTokenTransfer env src dst amount s = .ok s') (hsrc : src ≠ 0) (hdst : dst ≠ 0) :
    Written env.block s.balances src dst amount.val s.votingSnapshots s'.votingSnapshots := by
  simp only [beforeTokenTransfer, bind_eq_ok, pure_eq_ok] at h
  obtain ⟨a, hvoting, b, hproposition, _, _, rfl⟩ := h
  have hother : DelegationType.votingPower ≠ .propositionPower := by decide
  have hkept : b.votingSnapshots = a.votingSnapshots :=
    snapshotTable_moveDelegatesByType hproposition hother
  have hself : ∀ d, getDelegatee d s.votingDelegates = d :=
    hnobody.getDelegatee_eq .votingPower
  have hprevious : ∀ user, (previousPower user .votingPower s).val = (s.balances user).val :=
    fun user => by
      rw [hinv.previousPower_eq, hnobody.delegatedPower_eq]
      rfl
  rw [hself, hself] at hvoting
  rw [hkept]
  unfold moveDelegatesByType at hvoting
  by_cases heq : src = dst
  · rw [if_pos heq, pure_eq_ok] at hvoting
    rw [Written, if_pos heq, hvoting]
  simp only [heq, hsrc, hdst, ne_eq, not_false_eq_true, ↓reduceIte, bind_eq_ok] at hvoting
  obtain ⟨s₁, hfirst, hsecond⟩ := hvoting
  obtain ⟨debited, hsub, hwrite₁, -, -, -⟩ := changePower_cases hfirst
  obtain ⟨hle, hdebited⟩ := SafeMath.sub_eq_ok.mp hsub
  obtain ⟨credited, hadd, hwrite₂, -, -, -⟩ := changePower_cases hsecond
  rw [previousPower_changePower_of_ne hfirst (Ne.symm heq)] at hadd
  have hcredited := SafeMath.add_eq_ok.mp hadd
  have hleVal : amount.val ≤ (previousPower src .votingPower s).val := hle
  have hprevSrc := hprevious src
  have hprevDst := hprevious dst
  rw [Written, if_neg heq]
  exact ⟨debited, credited, by omega, by omega, s₁.votingSnapshots, hwrite₁, hwrite₂⟩

end Hooks

/-- Two tokens that a run of V1 and a run of V2 have reached side by side. -/
structure SideBySide (s₁ s₂ : Token) (now : ℕ) : Prop where
  view : SameView s₁ s₂
  invariant₁ : PowerInvariant s₁ now
  undelegated : Undelegated s₁
  invariant₂ : PowerInvariant s₂ now
  nobody : NobodyDelegates s₂

section Calls

variable {chain : Chain} {env : Env} {s₁ s₂ : Token} {src dst : Address} {amount : Uint256}

theorem matches_approveInternal (hview : SameView s₁ s₂) (owner spender : Address)
    (amount : Uint256) :
    Matches SameView (ERC20.approveInternal owner spender amount s₁)
      (ERC20.approveInternal owner spender amount s₂) := by
  unfold ERC20.approveInternal
  refine (Matches.refl _).bind fun _ _ _ => (Matches.refl _).bind fun _ _ _ => ?_
  apply Matches.pure
  exact ⟨hview.balances, by simp only [Token.emit, hview.allowances], hview.totalSupply,
    hview.nonces, hview.votingSnapshots, hview.palmyGovernance, hview.domainSeparator⟩

/-- `_transfer`: the same outcome, the same balances, the same snapshots. -/
theorem matches_transferInternal (hside : SideBySide s₁ s₂ env.block.number.val)
    (hhook : HookAccepts env s₁) :
    Matches SameView
      (ERC20.transferInternal (PlmyToken.beforeTokenTransfer env) src dst amount s₁)
      (ERC20.transferInternal (PlmyTokenV2.beforeTokenTransfer env) src dst amount s₂) := by
  have hview := hside.view
  have hhook₂ : HookAccepts env s₂ := by
    rw [HookAccepts, hview.palmyGovernance]
    exact hhook
  constructor
  · rw [PlmyTokenV2.succeeds_transferInternal_iff hside.invariant₂ le_rfl hhook₂, hview.balances]
    constructor
    · rintro ⟨s', h⟩
      obtain ⟨hsrc, hdst, a, hbefore, henough, -⟩ := ERC20.transferInternal_cases h
      rw [(PlmyToken.onlySnapshots_beforeTokenTransfer hbefore).holdings] at henough
      exact ⟨hsrc, hdst, henough⟩
    · rintro ⟨hsrc, hdst, henough⟩
      refine (ERC20.succeeds_transferInternal_iff hside.invariant₁.supply
        (fun h => (PlmyToken.onlySnapshots_beforeTokenTransfer h).balances) ?_).mpr
        ⟨hsrc, hdst, henough⟩
      exact fun henough => PlmyToken.succeeds_beforeTokenTransfer hside.invariant₁ le_rfl hhook
        henough hsrc hdst
  · intro a b ha hb
    obtain ⟨hsrc, hdst, a₁, hbefore₁, -, hrest₁, hmoved₁⟩ := ERC20.transferInternal_cases ha
    obtain ⟨-, -, b₁, hbefore₂, -, hrest₂, hmoved₂⟩ := ERC20.transferInternal_cases hb
    have hframe₁ := PlmyToken.onlySnapshots_beforeTokenTransfer hbefore₁
    have hframe₂ := PlmyTokenV2.onlySnapshots_beforeTokenTransfer hbefore₂
    have hwritten₁ := PlmyToken.written_beforeTokenTransfer hbefore₁ hsrc hdst
    have hwritten₂ := PlmyTokenV2.written_beforeTokenTransfer hside.invariant₂
      hside.nobody hbefore₂ hsrc hdst
    rw [hview.balances, hview.votingSnapshots] at hwritten₂
    have hholdings : s₂.holdings = s₁.holdings := by
      funext account
      rw [Token.holdings, Token.holdings, hview.balances]
    rw [hframe₁.holdings] at hmoved₁
    rw [hframe₂.holdings, hholdings] at hmoved₂
    refine ⟨?_, ?_, ?_, ?_, ?_, ?_, ?_⟩
    · have hsame := hmoved₁.unique hmoved₂
      funext account
      exact Fin.ext (congrFun hsame account)
    · rw [hrest₁, hrest₂]
      exact hframe₂.allowances.trans (hview.allowances.trans hframe₁.allowances.symm)
    · rw [hrest₁, hrest₂]
      exact hframe₂.totalSupply.trans (hview.totalSupply.trans hframe₁.totalSupply.symm)
    · rw [hrest₁, hrest₂]
      exact hframe₂.nonces.trans (hview.nonces.trans hframe₁.nonces.symm)
    · rw [hrest₁, hrest₂]
      exact hwritten₁.unique hwritten₂
    · rw [hrest₁, hrest₂]
      exact hframe₂.palmyGovernance.trans
        (hview.palmyGovernance.trans hframe₁.palmyGovernance.symm)
    · rw [hrest₁, hrest₂]
      exact hframe₂.domainSeparator.trans
        (hview.domainSeparator.trans hframe₁.domainSeparator.symm)

theorem matches_transferFrom (hside : SideBySide s₁ s₂ env.block.number.val)
    (hhook : HookAccepts env s₁) :
    Matches SameView (PlmyToken.transferFrom env src dst amount s₁)
      (PlmyTokenV2.transferFrom env src dst amount s₂) := by
  unfold PlmyToken.transferFrom PlmyTokenV2.transferFrom ERC20.transferFrom
  refine (matches_transferInternal hside hhook).bind fun a b hview => ?_
  rw [hview.allowances]
  refine (Matches.refl _).bind fun remaining _ hsame => ?_
  subst hsame
  exact matches_approveInternal hview src env.msgSender remaining

theorem matches_permit (hview : SameView s₁ s₂) {owner spender : Address}
    {value deadline : Uint256} {v : UInt8} {r sig : Bytes32} :
    Matches SameView (permit chain env owner spender value deadline v r sig s₁)
      (permit chain env owner spender value deadline v r sig s₂) := by
  unfold permit permitDigest
  rw [hview.domainSeparator, hview.nonces]
  refine (Matches.refl _).bind fun _ _ _ => (Matches.refl _).bind fun _ _ _ =>
    (Matches.refl _).bind fun _ _ _ => (Matches.refl _).bind fun nextNonce _ hsame => ?_
  subst hsame
  apply matches_approveInternal
  exact ⟨hview.balances, hview.allowances, hview.totalSupply, rfl, hview.votingSnapshots,
    hview.palmyGovernance, rfl⟩

/-- Each ERC20 call has the same outcome on both sides. -/
theorem matches_execute (hside : SideBySide s₁ s₂ env.block.number.val)
    (hhook : HookAccepts env s₁) {call : Call} (hcall : call.isErc20) :
    Matches SameView (PlmyToken.execute chain env s₁ call)
      (PlmyTokenV2.execute chain env s₂ call) := by
  have hview := hside.view
  cases call with
  | transfer recipient amount => exact matches_transferInternal hside hhook
  | approve spender amount => exact matches_approveInternal hview _ _ _
  | transferFrom sender recipient amount => exact matches_transferFrom hside hhook
  | increaseAllowance spender addedValue =>
      simp only [PlmyToken.execute, PlmyTokenV2.execute, ERC20.increaseAllowance,
        hview.allowances]
      refine (Matches.refl _).bind fun raised _ hsame => ?_
      subst hsame
      exact matches_approveInternal hview _ _ _
  | decreaseAllowance spender subtractedValue =>
      simp only [PlmyToken.execute, PlmyTokenV2.execute, ERC20.decreaseAllowance,
        hview.allowances]
      refine (Matches.refl _).bind fun lowered _ hsame => ?_
      subst hsame
      exact matches_approveInternal hview _ _ _
  | permit owner spender value deadline v r sig => exact matches_permit hview
  | _ => cases hcall

end Calls

namespace Proxy

variable (chain : Chain)

/-- The two proxies and what their tokens have in common. -/
structure SideBySide (p₁ p₂ : Proxy) (now : ℕ) : Prop where
  implementation₁ : p₁.implementation = .plmyToken
  implementation₂ : p₂.implementation = .plmyTokenV2
  token : Palmy.SideBySide p₁.token p₂.token now

theorem SideBySide.mono {p₁ p₂ : Proxy} {now later : ℕ} (h : SideBySide p₁ p₂ now)
    (hle : now ≤ later) : SideBySide p₁ p₂ later :=
  ⟨h.implementation₁, h.implementation₂, h.token.view, h.token.invariant₁.mono hle,
    h.token.undelegated, h.token.invariant₂.mono hle, h.token.nobody⟩

/-- An ERC20 call on both sides: one outcome, and side by side again. -/
theorem SideBySide.step {p₁ p₂ : Proxy} {tx : Tx} {call : Call}
    (h : SideBySide p₁ p₂ tx.block) (haction : tx.action = .call call)
    (hcall : call.isErc20) (hhook : HookAccepts tx.env p₁.token) :
    (Succeeds (execute chain p₁ tx) ↔ Succeeds (execute chain p₂ tx)) ∧
      SideBySide (step chain p₁ tx) (step chain p₂ tx) tx.block ∧
      (step chain p₁ tx).token.palmyGovernance = p₁.token.palmyGovernance := by
  have hmatches : Matches SameView (PlmyToken.execute chain tx.env p₁.token call)
      (PlmyTokenV2.execute chain tx.env p₂.token call) := matches_execute h.token hhook hcall
  have houtcome₁ := execute_call chain p₁ haction
  have houtcome₂ := execute_call chain p₂ haction
  rw [h.implementation₁] at houtcome₁
  rw [h.implementation₂] at houtcome₂
  obtain ⟨himplementation₁, hstep₁⟩ := step_votingStep chain tx h.implementation₁ haction
    h.token.invariant₁ h.token.undelegated
  obtain ⟨himplementation₂, -, hinvariant₂⟩ := step_powerStep chain tx h.implementation₂ haction
    h.token.invariant₂
  refine ⟨?_, ⟨himplementation₁, himplementation₂, ?_, hstep₁.invariant, hstep₁.undelegated,
    hinvariant₂, ?_⟩, ?_⟩
  · rw [houtcome₁.1, houtcome₂.1]
    exact hmatches.succeeds
  · rw [houtcome₁.2, houtcome₂.2]
    exact hmatches.commit h.token.view
  · rw [houtcome₂.2]
    rcases commit_cases p₂.token (Implementation.plmyTokenV2.execute chain tx.env p₂.token call)
      with hsame | hok
    · rw [hsame]
      exact h.token.nobody
    · intro t account
      rw [((PlmyTokenV2.erc20Effect_of_execute hcall hok).frame
        (PlmyTokenV2.takesSnapshotsOnly tx.env)).1]
      exact h.token.nobody t account
  · rw [houtcome₁.2]
    rcases commit_cases p₁.token (Implementation.plmyToken.execute chain tx.env p₁.token call)
      with hsame | hok
    · rw [hsame]
    · exact ((PlmyToken.erc20Effect_of_execute hcall hok).frame
        (PlmyToken.takesSnapshotsOnly tx.env)).2.1

/-- A whole list of ERC20 calls on both sides. -/
theorem SideBySide.run {p₁ p₂ : Proxy} {before ops : List Tx}
    (hstart : ∀ now, (∀ tx ∈ before, tx.block ≤ now) → SideBySide p₁ p₂ now)
    (hordered : Timeline.Ordered Tx.block (before ++ ops))
    (hcalls : ∀ tx ∈ ops, ∃ call, tx.action = .call call ∧ call.isErc20)
    (hhook : ∀ tx ∈ ops, HookAccepts tx.env p₁.token) (now : ℕ)
    (hnow : ∀ tx ∈ before ++ ops, tx.block ≤ now) :
    SideBySide (Timeline.run (Proxy.step chain) p₁ ops)
        (Timeline.run (Proxy.step chain) p₂ ops) now ∧
      (Timeline.run (Proxy.step chain) p₁ ops).token.palmyGovernance =
        p₁.token.palmyGovernance := by
  induction ops using List.reverseRecOn generalizing now with
  | nil =>
      rw [List.append_nil] at hnow
      exact ⟨hstart now hnow, rfl⟩
  | append_singleton ops tx ih =>
      rw [← List.append_assoc, Timeline.ordered_concat_iff] at hordered
      have hmem : tx ∈ ops ++ [tx] := List.mem_append_right _ (List.mem_singleton.mpr rfl)
      obtain ⟨hside, hgovernance⟩ := ih hordered.1
        (fun earlier hearlier => hcalls earlier (List.mem_append_left _ hearlier))
        (fun earlier hearlier => hhook earlier (List.mem_append_left _ hearlier))
        tx.block hordered.2
      obtain ⟨call, haction, hcall⟩ := hcalls tx hmem
      have haccepts : HookAccepts tx.env
          (Timeline.run (Proxy.step chain) p₁ ops).token := by
        rw [HookAccepts, hgovernance]
        exact hhook tx hmem
      obtain ⟨-, hside', hgovernance'⟩ := hside.step chain haction hcall haccepts
      rw [Timeline.run_concat, Timeline.run_concat]
      exact ⟨hside'.mono (hnow tx (List.mem_append_right _ hmem)),
        hgovernance'.trans hgovernance⟩

end Proxy

/-- The upgrade itself: V2's `initialize` takes the revision after V1's. -/
theorem sideBySide_upgrade {chain : Chain} {txs : List Tx} (hrun : RunV1 chain txs) :
    ∃ upgraded, PlmyTokenV2.initializeToken (Proxy.run chain txs).token = .ok upgraded ∧
      ∀ now, (∀ tx ∈ txs, tx.block ≤ now) →
        Proxy.SideBySide ⟨.plmyToken, (Proxy.run chain txs).token⟩ ⟨.plmyTokenV2, upgraded⟩
          now := by
  have hhistory := hrun.history
  have hrevision := hrun.revision
  refine ⟨{ (Proxy.run chain txs).token with
    lastInitializedRevision := PlmyTokenV2.revision }, ?_, ?_⟩
  · simp only [PlmyTokenV2.initializeToken, initializer, bind_eq_ok, require_eq_ok, pure_eq_ok,
      exists_const]
    refine ⟨?_, trivial⟩
    rw [hrevision]
    decide
  · intro now hnow
    have hinv := hhistory.settled.current hnow
    refine ⟨rfl, rfl, ⟨rfl, rfl, rfl, rfl, rfl, rfl, rfl⟩, hinv, hhistory.undelegated, ?_, ?_⟩
    · refine ⟨fun t => (hinv.coherent t).congr rfl ?_ ?_, hinv.supply.kept ⟨rfl, rfl, ?_⟩,
        hinv.zero, hinv.fits⟩
      · cases t <;> rfl
      · cases t <;> rfl
      · change (Proxy.run chain txs).token.lastInitializedRevision ≤ PlmyTokenV2.revision
        rw [hrevision]
        decide
    · intro t account
      rw [← hhistory.undelegated.nobody t account]
      cases t <;> rfl

/-- Without delegations V2 behaves like V1.  From any state of V1, a list of ERC20
calls has the same outcomes on V1 and on the upgraded token, call by call, leaves
the same ledger and the same voting snapshots, and both powers of every user of V2
are its balance. -/
theorem erc20_calls_agree_across_upgrade {chain : Chain} {txs : List Tx}
    (hrun : RunV1 chain txs) (ops : List Tx)
    (hcalls : ∀ tx ∈ ops, ∃ call, tx.action = .call call ∧ call.isErc20)
    (hordered : Timeline.Ordered Tx.block (txs ++ ops))
    (hhook : ∀ tx ∈ ops, HookAccepts tx.env (Proxy.run chain txs).token) :
    ∃ upgraded, PlmyTokenV2.initializeToken (Proxy.run chain txs).token = .ok upgraded ∧
      ∀ done rest p₁ p₂, ops = done ++ rest →
        p₁ = Timeline.run (Proxy.step chain) ⟨.plmyToken, (Proxy.run chain txs).token⟩ done →
        p₂ = Timeline.run (Proxy.step chain) ⟨.plmyTokenV2, upgraded⟩ done →
        (∀ tx ∈ rest.head?,
          (Succeeds (Proxy.execute chain p₁ tx) ↔ Succeeds (Proxy.execute chain p₂ tx))) ∧
        SameView p₁.token p₂.token ∧
        ∀ now : Block, (∀ tx ∈ txs ++ done, tx.block ≤ now.number.val) → ∀ t user,
          getPowerCurrent now user t p₂.token = .ok (p₂.token.balances user) := by
  obtain ⟨upgraded, hupgraded, hstart⟩ := sideBySide_upgrade hrun
  refine ⟨upgraded, hupgraded, ?_⟩
  intro done rest p₁ p₂ hsplit hp₁ hp₂
  subst hsplit
  rw [← List.append_assoc] at hordered
  have hside := Proxy.SideBySide.run chain hstart hordered.of_append_left
    (fun tx htx => hcalls tx (List.mem_append_left _ htx))
    (fun tx htx => hhook tx (List.mem_append_left _ htx))
  rw [← hp₁, ← hp₂] at hside
  refine ⟨?_, ?_, ?_⟩
  · cases rest with
    | nil => exact fun tx htx => absurd htx (by simp)
    | cons next rest =>
        intro tx htx
        rw [List.head?_cons, Option.mem_some_iff] at htx
        subst htx
        have hmem : next ∈ done ++ next :: rest :=
          List.mem_append_right _ List.mem_cons_self
        obtain ⟨hnow, hgovernance⟩ := hside next.block fun earlier hearlier =>
          (List.pairwise_append.mp hordered).2.2 earlier hearlier next List.mem_cons_self
        obtain ⟨call, haction, hcall⟩ := hcalls next hmem
        have haccepts : HookAccepts next.env p₁.token := by
          rw [HookAccepts, hgovernance]
          exact hhook next hmem
        exact (hnow.step chain haction hcall haccepts).1
  · exact (hside (2 ^ 256) fun tx _ => tx.env.block.number.isLt.le).1.token.view
  · intro now hnow t user
    have hinv := (hside now.number.val hnow).1.token
    obtain ⟨value, hvalue, hval⟩ := getPowerCurrent_spec hinv.invariant₂ user (t := t)
    rw [hinv.nobody.delegatedPower_eq] at hval
    rw [hvalue, Fin.ext hval]

/-- Bob spends his sample balance on both sides of the upgrade. -/
theorem erc20_calls_agree_across_upgrade_sample :
    ∃ upgraded, PlmyTokenV2.initializeToken
        (Proxy.run Sample.chain (Sample.txs.take 2)).token = .ok upgraded ∧
      SameView
        (Proxy.step Sample.chain
          ⟨.plmyToken, (Proxy.run Sample.chain (Sample.txs.take 2)).token⟩ Sample.payment).token
        (Proxy.step Sample.chain ⟨.plmyTokenV2, upgraded⟩ Sample.payment).token := by
  obtain ⟨upgraded, hupgraded, hagree⟩ := erc20_calls_agree_across_upgrade
    Sample.runV1_txs [Sample.payment] (by
      intro tx htx
      rw [List.mem_singleton] at htx
      exact ⟨.transfer Sample.alice 40, by rw [htx]; rfl, rfl⟩)
    (by decide) (fun _ _ => Or.inl rfl)
  exact ⟨upgraded, hupgraded, (hagree [Sample.payment] [] _ _ rfl rfl rfl).2.1⟩

end Palmy
