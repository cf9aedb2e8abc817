/-
Inside one block the order of transfers and delegations does not matter.  A
snapshot of a block holds the power at its end, so what is stored depends on
who was touched, and that is the same in either order.
-/
import Palmy.SnapshotWrites

namespace Palmy

open Solidity
open Checkpoint
open Delegation
open GovernancePowerDelegation

/-- A table without entries beyond its counts is its histories. -/
theorem SnapshotTable.eq_of_history {first second : SnapshotTable} (hfirst : first.Vacant)
    (hsecond : second.Vacant) (hhistory : ∀ user, first.history user = second.history user) :
    first = second := by
  have hcounts : ∀ user, first.counts user = second.counts user := by
    intro user
    apply Fin.ext
    rw [← length_history, hhistory, length_history]
  apply SnapshotTable.ext
  · funext user i
    by_cases hi : i < first.counts user
    · have hi' : i < second.counts user := hcounts user ▸ hi
      have hentry : first.entry user i.val = second.entry user i.val := by
        have hat := congrArg (fun history => history[i.val]?) (hhistory user)
        simpa [history, Fin.lt_def.mp hi, Fin.lt_def.mp hi'] using hat
      rw [entry_val, entry_val, Prod.ext_iff] at hentry
      cases hone : first.snapshots user i with
      | mk blockNumber value =>
          cases htwo : second.snapshots user i with
          | mk blockNumber' value' =>
              rw [hone, htwo] at hentry
              exact congrArg₂ Snapshot.mk (Fin.ext hentry.1) (Fin.ext hentry.2)
    · have hi' : ¬ i < second.counts user := hcounts user ▸ hi
      rw [hfirst user i (not_lt.mp hi), hsecond user i (not_lt.mp hi')]
  · exact funext hcounts

/-- The powers of one type were rewritten for these users and for nobody else. -/
structure Rewritten (block : ℕ) (t : DelegationType) (users : Set Address) (s s' : Token) :
    Prop where
  written : WrittenFor block t users (s'.delegatedPower t) s s'
  kept : ∀ u ∉ users, s'.delegatedPower t u = s.delegatedPower t u

namespace Rewritten

variable {block : ℕ} {t : DelegationType} {users first second : Set Address} {s s₁ s' : Token}

/-- In one block the second value of a user replaces the first. -/
theorem trans (hfirst : Rewritten block t first s s₁) (hsecond : Rewritten block t second s₁ s') :
    Rewritten block t (first ∪ second) s s' where
  written := by
    constructor
    · intro u hu
      by_cases hlast : u ∈ second
      · rw [hsecond.written.recorded u hlast]
        by_cases hearlier : u ∈ first
        · rw [hfirst.written.recorded u hearlier, record_record]
        · rw [hfirst.written.kept u hearlier]
      · have hearlier : u ∈ first := hu.resolve_right hlast
        rw [hsecond.written.kept u hlast, hfirst.written.recorded u hearlier,
          hsecond.kept u hlast]
    · intro u hu
      rw [hsecond.written.kept u fun h => hu (Or.inr h),
        hfirst.written.kept u fun h => hu (Or.inl h)]
  kept u hu := by
    rw [hsecond.kept u fun h => hu (Or.inr h), hfirst.kept u fun h => hu (Or.inl h)]

theorem of_same (hholdings : s'.holdings = s.holdings)
    (hdelegates : s'.delegates t = s.delegates t)
    (htable : s'.snapshotTable t = s.snapshotTable t) : Rewritten block t ∅ s s' where
  written := by
    constructor
    · exact fun _ hnone => absurd hnone (Set.notMem_empty _)
    · intro u _
      rw [Token.history, Token.history, htable]
  kept u _ := delegatedPower_congr hholdings hdelegates u

/-- Histories depend on who was rewritten and on the powers at the end. -/
theorem history_unique {s'' : Token} (hfirst : Rewritten block t users s s')
    (hsecond : Rewritten block t users s s'')
    (hpower : s'.delegatedPower t = s''.delegatedPower t) (u : Address) :
    s'.history t u = s''.history t u := by
  by_cases hu : u ∈ users
  · rw [hfirst.written.recorded u hu, hsecond.written.recorded u hu, hpower]
  · rw [hfirst.written.kept u hu, hsecond.written.kept u hu]

end Rewritten

/-- The calls whose order is in question. -/
def Call.movesPower : Call → Bool
  | .transfer .. | .delegateByType .. | .delegate .. => true
  | _ => false

def Call.isDelegation : Call → Bool
  | .delegateByType .. | .delegate .. => true
  | _ => false

/-- A call as the delegatees of one type see it. -/
def Call.operation (caller : Address) (t : DelegationType) : Call → Operation Address
  | .transfer recipient _ => .pay caller recipient
  | .delegateByType delegatee t' => if t' = t then .choose caller delegatee else .skip
  | .delegate delegatee => .choose caller delegatee
  | _ => .skip

/-- Who is paid by a call, and how much. -/
def Call.payee (caller : Address) : Call → Address
  | .transfer recipient _ => recipient
  | _ => caller

def Call.paid : Call → ℕ
  | .transfer _ amount => amount.val
  | _ => 0

theorem Call.operation_eq_choose {call : Call} {caller delegator delegatee : Address}
    {t : DelegationType} (h : call.operation caller t = .choose delegator delegatee) :
    call.isDelegation ∧ delegator = caller := by
  cases call with
  | delegateByType delegatee t' =>
      simp only [operation] at h
      split at h <;> cases h
      exact ⟨rfl, rfl⟩
  | delegate delegatee =>
      cases h
      exact ⟨rfl, rfl⟩
  | _ => cases h

/-- Calls are independent unless both delegate for one caller. -/
theorem Call.independent {first second : Call} {caller caller' : Address}
    (hdistinct : ¬ (first.isDelegation ∧ second.isDelegation ∧ caller = caller'))
    (t : DelegationType) :
    (first.operation caller t).Independent (second.operation caller' t) := by
  apply Operation.independent_of
  intro delegator delegatee delegator' delegatee' hfirst hsecond hsame
  obtain ⟨hone, rfl⟩ := Call.operation_eq_choose hfirst
  obtain ⟨htwo, rfl⟩ := Call.operation_eq_choose hsecond
  exact hdistinct ⟨hone, htwo, hsame⟩

/-- What a call does to the delegatees and the records of one type. -/
structure TypeEffect (block : ℕ) (t : DelegationType) (operation : Operation Address)
    (s s' : Token) : Prop where
  delegates : s'.delegates t = operation.profile (s.delegates t)
  profile : (fun d => getDelegateeByType d t s') =
    operation.profile fun d => getDelegateeByType d t s
  rewritten : Rewritten block t (operation.touched 0 fun d => getDelegateeByType d t s) s s'

namespace TypeEffect

variable {block : ℕ} {t : DelegationType} {operation : Operation Address} {s s₁ s' : Token}

theorem skip_of_same (hholdings : s'.holdings = s.holdings)
    (hdelegates : s'.delegates t = s.delegates t)
    (htable : s'.snapshotTable t = s.snapshotTable t) : TypeEffect block t .skip s s' where
  delegates := hdelegates
  profile := by
    simp only [getDelegateeByType, hdelegates]
    rfl
  rewritten := .of_same hholdings hdelegates htable

theorem skip_then (hfirst : TypeEffect block t .skip s s₁)
    (hsecond : TypeEffect block t operation s₁ s') : TypeEffect block t operation s s' where
  delegates := by
    rw [hsecond.delegates, hfirst.delegates]
    rfl
  profile := by
    rw [hsecond.profile, hfirst.profile]
    rfl
  rewritten := by
    have htrans := hfirst.rewritten.trans hsecond.rewritten
    rw [hfirst.profile] at htrans
    simpa only [Operation.touched, Operation.profile, Set.empty_union] using htrans

theorem then_skip (hfirst : TypeEffect block t operation s s₁)
    (hsecond : TypeEffect block t .skip s₁ s') : TypeEffect block t operation s s' where
  delegates := hsecond.delegates.trans hfirst.delegates
  profile := hsecond.profile.trans hfirst.profile
  rewritten := by
    have htrans := hfirst.rewritten.trans hsecond.rewritten
    simpa only [Operation.touched, Set.union_empty] using htrans

end TypeEffect

/-- All that matters of a call for its order within a block. -/
structure OrderEffect (env : Env) (call : Call) (s s' : Token) : Prop where
  moved : Moved s.holdings s'.holdings env.msgSender (call.payee env.msgSender) call.paid
  effect : ∀ t, TypeEffect env.block.number.val t (call.operation env.msgSender t) s s'

section Calls

variable {chain : Chain} {env : Env} {now : ℕ} {s s' : Token}

theorem PlmyTokenV2.rewritten_transferInternal {sender recipient : Address} {amount : Uint256}
    (hinv : PowerInvariant s now) (hnow : now ≤ env.block.number.val)
    (h : ERC20.transferInternal (beforeTokenTransfer env) sender recipient amount s = .ok s')
    (t : DelegationType) :
    Rewritten env.block.number.val t
      (ends 0 (getDelegateeByType sender t s) (getDelegateeByType recipient t s)) s s' := by
  obtain ⟨hsender, hrecipient, s₁, hbefore, henough, hrest, hmoved⟩ :=
    ERC20.transferInternal_cases h
  obtain ⟨-, htables, hshift, a, hvoting, hproposition⟩ := powerWritten_moved hinv hnow hsender
    hrecipient hbefore (by rw [hrest]) henough hmoved
  refine ⟨?_, fun u hu => (hshift t).kept hu⟩
  cases t with
  | votingPower =>
      exact hvoting.written.congr rfl ((htables _).trans (hproposition.others _ (by decide)))
  | propositionPower =>
      exact hproposition.written.congr (hvoting.others _ (by decide)) (htables _)

namespace GovernancePowerDelegation

variable {t : DelegationType} {delegator delegatee : Address}

theorem typeEffect_delegateByTypeInternal (hinv : PowerInvariant s now)
    (hnow : now ≤ env.block.number.val)
    (h : delegateByTypeInternal env delegator delegatee t s = .ok s') :
    TypeEffect env.block.number.val t (.choose delegator delegatee) s s' where
  delegates := (delegates_delegateByTypeInternal h).1
  profile := profile_delegateByTypeInternal h
  rewritten :=
    { written := (powerWritten_delegateByTypeInternal hinv hnow h).written
      kept := fun _ hu => (shift_delegateByTypeInternal hinv h).kept hu }

theorem typeEffect_delegateByTypeInternal_of_ne (hinv : PowerInvariant s now)
    (hnow : now ≤ env.block.number.val)
    (h : delegateByTypeInternal env delegator delegatee t s = .ok s') {t' : DelegationType}
    (hne : t' ≠ t) : TypeEffect env.block.number.val t' .skip s s' :=
  .skip_of_same (sameLedger_delegateByTypeInternal h).holdings
    ((delegates_delegateByTypeInternal h).2 t' hne)
    ((powerWritten_delegateByTypeInternal hinv hnow h).others t' hne)

end GovernancePowerDelegation

/-- Nothing is paid by a delegation. -/
theorem moved_zero_of_holdings_eq (hholdings : s'.holdings = s.holdings) (a b : Address) :
    Moved s.holdings s'.holdings a b 0 := by
  intro x
  rw [hholdings, ite_self, ite_self]

theorem PlmyTokenV2.orderEffect_execute {call : Call} (hcall : call.movesPower)
    (hinv : PowerInvariant s now) (hnow : now ≤ env.block.number.val)
    (h : execute chain env s call = .ok s') : OrderEffect env call s s' := by
  cases call with
  | transfer recipient amount =>
      have hframe := ((ERC20.transfer_effect h).frame (takesSnapshotsOnly env)).1
      obtain ⟨-, -, s₁, hbefore, -, -, hmoved⟩ := ERC20.transferInternal_cases h
      rw [(onlySnapshots_beforeTokenTransfer hbefore).holdings] at hmoved
      refine ⟨hmoved, fun t => ⟨hframe t, ?_, rewritten_transferInternal hinv hnow h t⟩⟩
      simp only [getDelegateeByType, hframe t]
      rfl
  | delegateByType delegatee t =>
      have h : delegateByTypeInternal env env.msgSender delegatee t s = .ok s' := h
      refine ⟨moved_zero_of_holdings_eq (sameLedger_delegateByTypeInternal h).holdings _ _, ?_⟩
      intro t'
      by_cases heq : t = t'
      · subst heq
        simp only [Call.operation, ↓reduceIte]
        exact typeEffect_delegateByTypeInternal hinv hnow h
      · simp only [Call.operation, heq, ↓reduceIte]
        exact typeEffect_delegateByTypeInternal_of_ne hinv hnow h (Ne.symm heq)
  | delegate delegatee =>
      obtain ⟨s₁, hvoting, hproposition⟩ := bind_eq_ok.mp h
      have hledger := (sameLedger_delegateByTypeInternal hvoting).trans
        (sameLedger_delegateByTypeInternal hproposition)
      have hinv₁ := (powerStep_delegateByTypeInternal hinv hnow hvoting).2
      refine ⟨moved_zero_of_holdings_eq hledger.holdings _ _, fun t => ?_⟩
      cases t with
      | votingPower =>
          exact (typeEffect_delegateByTypeInternal hinv hnow hvoting).then_skip
            (typeEffect_delegateByTypeInternal_of_ne hinv₁ le_rfl hproposition (by decide))
      | propositionPower =>
          exact (typeEffect_delegateByTypeInternal_of_ne hinv hnow hvoting
            (by decide)).skip_then (typeEffect_delegateByTypeInternal hinv₁ le_rfl hproposition)
  | _ => cases hcall

end Calls

section Orders

variable {chain : Chain} {env₁ env₂ : Env} {call₁ call₂ : Call} {now : ℕ}
  {s s₁ s₁₂ s₂ s₂₁ : Token} {block : ℕ} {t : DelegationType}

theorem TypeEffect.comm {first second : Operation Address} (hindependent : first.Independent second)
    (h₁ : TypeEffect block t first s s₁) (h₁₂ : TypeEffect block t second s₁ s₁₂)
    (h₂ : TypeEffect block t second s s₂) (h₂₁ : TypeEffect block t first s₂ s₂₁)
    (hholdings : s₁₂.holdings = s₂₁.holdings) :
    s₁₂.delegates t = s₂₁.delegates t ∧ ∀ u, s₁₂.history t u = s₂₁.history t u := by
  have hdelegates : s₁₂.delegates t = s₂₁.delegates t := by
    rw [h₁₂.delegates, h₁.delegates, h₂₁.delegates, h₂.delegates]
    exact Operation.profile_comm hindependent _
  have hpower : s₁₂.delegatedPower t = s₂₁.delegatedPower t :=
    funext (delegatedPower_congr hholdings hdelegates)
  have hfirst := h₁.rewritten.trans h₁₂.rewritten
  have hsecond := h₂.rewritten.trans h₂₁.rewritten
  rw [h₁.profile, Operation.touched_comm hindependent, ← h₂.profile] at hfirst
  exact ⟨hdelegates, hfirst.history_unique hsecond hpower⟩

/-- Inside one block the order of two operations does not matter.  Two transfers or
delegations, not both delegations of one caller, that succeed in either order in a
block after any run of V2, end in the same balances, delegatees and snapshots. -/
theorem order_within_a_block_is_irrelevant {txs : List Tx}
    (hrun : UpgradeRun chain .plmyTokenV2 txs)
    (hkinds : call₁.movesPower ∧ call₂.movesPower)
    (hdistinct : ¬ (call₁.isDelegation ∧ call₂.isDelegation ∧ env₁.msgSender = env₂.msgSender))
    (hblock : env₁.block.number = env₂.block.number)
    (hnow : ∀ tx ∈ txs, tx.block ≤ env₁.block.number.val)
    (h₁ : PlmyTokenV2.execute chain env₁ (Proxy.run chain txs).token call₁ = .ok s₁)
    (h₁₂ : PlmyTokenV2.execute chain env₂ s₁ call₂ = .ok s₁₂)
    (h₂ : PlmyTokenV2.execute chain env₂ (Proxy.run chain txs).token call₂ = .ok s₂)
    (h₂₁ : PlmyTokenV2.execute chain env₁ s₂ call₁ = .ok s₂₁) :
    s₁₂.balances = s₂₁.balances ∧ (∀ t, s₁₂.delegates t = s₂₁.delegates t) ∧
      ∀ t, s₁₂.snapshotTable t = s₂₁.snapshotTable t := by
  have hinv := hrun.powerInvariant hnow
  have hle : env₁.block.number.val ≤ env₂.block.number.val := hblock ▸ le_rfl
  have hge : env₂.block.number.val ≤ env₁.block.number.val := hblock ▸ le_rfl
  have hinv₁ := (PlmyTokenV2.powerStep_execute hinv le_rfl h₁).2
  have hinv₂ := (PlmyTokenV2.powerStep_execute hinv hle h₂).2
  have hfirst := PlmyTokenV2.orderEffect_execute hkinds.1 hinv le_rfl h₁
  have hthen := PlmyTokenV2.orderEffect_execute hkinds.2 hinv₁ hle h₁₂
  have hsecond := PlmyTokenV2.orderEffect_execute hkinds.2 hinv hle h₂
  have hback := PlmyTokenV2.orderEffect_execute hkinds.1 hinv₂ hge h₂₁
  have hholdings : s₁₂.holdings = s₂₁.holdings :=
    Moved.comm hfirst.moved hthen.moved hsecond.moved hback.moved
  have htypes : ∀ t, s₁₂.delegates t = s₂₁.delegates t ∧
      ∀ u, s₁₂.history t u = s₂₁.history t u := by
    intro t
    have hthen := hthen.effect t
    have hsecond := hsecond.effect t
    rw [← hblock] at hthen hsecond
    exact TypeEffect.comm (Call.independent hdistinct t) (hfirst.effect t) hthen hsecond
      (hback.effect t) hholdings
  have hvacant : ∀ t, (s₁₂.snapshotTable t).Vacant ∧ (s₂₁.snapshotTable t).Vacant := by
    intro t
    have hkept {env : Env} {call : Call} {s s' : Token}
        (h : Implementation.plmyTokenV2.execute chain env s call = .ok s')
        (hvacant : (s.snapshotTable t).Vacant) : (s'.snapshotTable t).Vacant :=
      (Implementation.tablesWritten_execute h t).vacant hvacant
    have hbefore : ((Proxy.run chain txs).token.snapshotTable t).Vacant :=
      Proxy.vacant_run txs t
    exact ⟨hkept h₁₂ (hkept h₁ hbefore), hkept h₂₁ (hkept h₂ hbefore)⟩
  refine ⟨?_, fun t => (htypes t).1, fun t => ?_⟩
  · funext account
    exact Fin.ext (congrFun hholdings account)
  · exact SnapshotTable.eq_of_history (hvacant t).1 (hvacant t).2 (htypes t).2

end Orders

/-- Alice pays Bob, and Bob hands his proposition power to Alice, in both orders. -/
def Sample.BothOrders (s₁ s₁₂ s₂ s₂₁ : Token) : Prop :=
  PlmyTokenV2.execute chain (env alice 6) (Proxy.run chain txs).token (.transfer bob 5) =
      .ok s₁ ∧
    PlmyTokenV2.execute chain (env bob 6) s₁ (.delegateByType alice .propositionPower) =
      .ok s₁₂ ∧
    PlmyTokenV2.execute chain (env bob 6) (Proxy.run chain txs).token
      (.delegateByType alice .propositionPower) = .ok s₂ ∧
    PlmyTokenV2.execute chain (env alice 6) s₂ (.transfer bob 5) = .ok s₂₁

theorem Sample.exists_bothOrders : ∃ s₁ s₁₂ s₂ s₂₁, BothOrders s₁ s₁₂ s₂ s₂₁ :=
  ⟨_, _, _, _, rfl, rfl, rfl, rfl⟩

theorem order_within_a_block_is_irrelevant_sample :
    ∃ s₁ s₁₂ s₂ s₂₁, Sample.BothOrders s₁ s₁₂ s₂ s₂₁ ∧ s₁₂.balances = s₂₁.balances ∧
      (∀ t, s₁₂.delegates t = s₂₁.delegates t) ∧
        ∀ t, s₁₂.snapshotTable t = s₂₁.snapshotTable t := by
  obtain ⟨s₁, s₁₂, s₂, s₂₁, h⟩ := Sample.exists_bothOrders
  exact ⟨s₁, s₁₂, s₂, s₂₁, h, order_within_a_block_is_irrelevant Sample.upgradeRun_txs
    ⟨by rfl, by rfl⟩ (by decide) (by rfl) (by decide) h.1 h.2.1 h.2.2.1 h.2.2.2⟩

end Palmy
