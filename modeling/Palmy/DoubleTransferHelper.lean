/-
DoubleTransferHelper.sol, which pays one recipient twice in a transaction.  PLMY
cannot tell the two payments from one: the snapshots of a block are taken once.
-/
import Palmy.SameBlock
import Palmy.WithoutDelegations

namespace Palmy

open Solidity
open Checkpoint
open Delegation
open GovernancePowerDelegation

namespace DoubleTransferHelper

/-- What PLMY sees of a transaction when the helper calls it. -/
def asHelper (helper : Address) (env : Env) : Env := { env with msgSender := helper }

@[simp] theorem msgSender_asHelper (helper : Address) (env : Env) :
    (asHelper helper env).msgSender = helper := rfl

/-- A call of `transfer` by the helper. -/
def send (chain : Chain) (helper : Address) (env : Env) (recipient : Address) (amount : Uint256)
    (p : Proxy) : Result Proxy :=
  Proxy.execute chain p ⟨asHelper helper env, .call (.transfer recipient amount)⟩

/-- `doubleSend`, on the proxy that `PLMY` is.  It does not look at the answers. -/
def doubleSend (chain : Chain) (helper : Address) (env : Env) (recipient : Address)
    (amount1 amount2 : Uint256) (p : Proxy) : Result Proxy := do
  let p ← send chain helper env recipient amount1 p
  send chain helper env recipient amount2 p

end DoubleTransferHelper

/-- Which powers an implementation keeps snapshots of. -/
def Implementation.records : Implementation → DelegationType → Bool
  | .plmyToken, .propositionPower => false
  | _, _ => true

/-- Two tokens with the same storage, whatever they logged on the way. -/
def SameStorage (s s' : Token) : Prop :=
  s' = { s with log := s'.log, narrowed := s'.narrowed }

/-- What a payment did, at the end of its block. -/
structure Paid (implementation : Implementation) (block : ℕ) (sender recipient : Address)
    (n : ℕ) (s s' : Token) : Prop where
  rest : s' = { s with
    balances := s'.balances
    votingSnapshots := s'.votingSnapshots
    propositionPowerSnapshots := s'.propositionPowerSnapshots
    log := s'.log
    narrowed := s'.narrowed }
  moved : Moved s.holdings s'.holdings sender recipient n
  rewritten : ∀ t, implementation.records t → Rewritten block t
    (ends 0 (getDelegateeByType sender t s) (getDelegateeByType recipient t s)) s s'
  kept : ∀ t, ¬ implementation.records t → s'.snapshotTable t = s.snapshotTable t
  vacant : ∀ t, (s.snapshotTable t).Vacant → (s'.snapshotTable t).Vacant

namespace Paid

variable {implementation : Implementation} {block m n : ℕ} {sender recipient : Address}
  {s s₁ s' s'' : Token}

theorem delegates (h : Paid implementation block sender recipient n s s') (t : DelegationType) :
    s'.delegates t = s.delegates t := by
  rw [h.rest]
  cases t <;> rfl

/-- Two payments of one block add up. -/
theorem trans (hfirst : Paid implementation block sender recipient m s s₁)
    (hsecond : Paid implementation block sender recipient n s₁ s') :
    Paid implementation block sender recipient (m + n) s s' where
  rest := by
    rw [hsecond.rest, hfirst.rest]
  moved := hfirst.moved.add hsecond.moved
  rewritten t hrecords := by
    have htrans := (hfirst.rewritten t hrecords).trans (hsecond.rewritten t hrecords)
    simpa only [getDelegateeByType, hfirst.delegates t, Set.union_self] using htrans
  kept t hnone := (hsecond.kept t hnone).trans (hfirst.kept t hnone)
  vacant t hvacant := hsecond.vacant t (hfirst.vacant t hvacant)

/-- The amount decides what a payment leaves behind. -/
theorem unique (hvacant : ∀ t, (s.snapshotTable t).Vacant)
    (hfirst : Paid implementation block sender recipient n s s')
    (hsecond : Paid implementation block sender recipient n s s'') : SameStorage s' s'' := by
  have hholdings : s'.holdings = s''.holdings := (hfirst.moved.unique hsecond.moved).symm
  have hbalances : s''.balances = s'.balances := by
    funext account
    exact Fin.ext (congrFun hholdings account).symm
  have htables : ∀ t, s''.snapshotTable t = s'.snapshotTable t := by
    intro t
    by_cases hrecords : implementation.records t
    case neg => exact (hsecond.kept t hrecords).trans (hfirst.kept t hrecords).symm
    have hdelegates : s'.delegates t = s''.delegates t :=
      (hfirst.delegates t).trans (hsecond.delegates t).symm
    have hpower : s''.delegatedPower t = s'.delegatedPower t :=
      funext (delegatedPower_congr hholdings.symm hdelegates.symm)
    apply SnapshotTable.eq_of_history (hsecond.vacant t (hvacant t)) (hfirst.vacant t (hvacant t))
    exact (hsecond.rewritten t hrecords).history_unique (hfirst.rewritten t hrecords) hpower
  have hvoting : s''.votingSnapshots = s'.votingSnapshots := htables .votingPower
  have hproposition : s''.propositionPowerSnapshots = s'.propositionPowerSnapshots :=
    htables .propositionPower
  have hrest := hsecond.rest
  rw [hbalances, hvoting, hproposition] at hrest
  apply hrest.trans
  rw [hfirst.rest]

end Paid

/-- A state that payments of an implementation start from. -/
structure Implementation.Ready (implementation : Implementation) (s : Token) (now : ℕ) :
    Prop where
  invariant : PowerInvariant s now
  undelegated : implementation = .plmyToken → Undelegated s

theorem UpgradeRun.ready {chain : Chain} {implementation : Implementation} {txs : List Tx}
    (hrun : UpgradeRun chain implementation txs) {now : ℕ} (hnow : ∀ tx ∈ txs, tx.block ≤ now) :
    implementation.Ready (Proxy.run chain txs).token now where
  invariant := hrun.powerInvariant hnow
  undelegated himplementation := by
    have hhistory := hrun.history
    subst himplementation
    exact hhistory.undelegated

section Payments

variable {chain : Chain} {env : Env} {now : ℕ} {s s' : Token} {recipient : Address}
  {amount : Uint256} {implementation : Implementation}

/-- What V1 writes for a payment are the two balances after it. -/
theorem Written.rewritten {block : Block} {sender : Address} {n : ℕ}
    (hwritten : Written block s.balances sender recipient n s.votingSnapshots s'.votingSnapshots)
    (hsorted : s.votingSnapshots.SortedUpTo now) (hnow : now ≤ block.number.val)
    (hsender : sender ≠ 0) (hrecipient : recipient ≠ 0)
    (hmoved : Moved s.holdings s'.holdings sender recipient n)
    (hsmall : ∀ account, s'.holdings account < 2 ^ 128) :
    WrittenFor block.number.val .votingPower (ends 0 sender recipient) s'.holdings s s' := by
  unfold Written at hwritten
  split at hwritten
  · next heq =>
      exact (WrittenFor.of_self heq s'.holdings s).congr rfl hwritten
  · next hne =>
      obtain ⟨debited, credited, hdebited, hcredited, mid, hfirst, hsecond⟩ := hwritten
      have hdebit : debited.val = s'.holdings sender := by
        have hat := hmoved sender
        rw [if_pos rfl, if_neg (Ne.symm hne)] at hat
        exact Nat.add_right_cancel (hdebited.trans hat.symm)
      have hcredit : credited.val = s'.holdings recipient := by
        have hat := hmoved recipient
        rw [if_neg hne, if_pos rfl] at hat
        exact hcredited.trans hat.symm
      have hsorted₁ := writeSnapshot_sortedUpTo hfirst hsorted hnow
      constructor
      · rintro u ⟨-, -, rfl | rfl⟩
        · have hself := writeSnapshot_history_self hfirst hsorted hnow
          rw [uint128_val_of_lt (by rw [hdebit]; exact hsmall u), hdebit] at hself
          exact (writeSnapshot_history_of_ne hsecond hne).trans hself
        · have hself := writeSnapshot_history_self hsecond hsorted₁ le_rfl
          rw [uint128_val_of_lt (by rw [hcredit]; exact hsmall u), hcredit,
            writeSnapshot_history_of_ne hfirst (Ne.symm hne)] at hself
          exact hself
      · intro u hu
        have hu₁ : u ≠ sender := fun heq => hu ⟨hne, heq ▸ hsender, Or.inl heq⟩
        have hu₂ : u ≠ recipient := fun heq => hu ⟨hne, heq ▸ hrecipient, Or.inr heq⟩
        exact (writeSnapshot_history_of_ne hsecond hu₂).trans
          (writeSnapshot_history_of_ne hfirst hu₁)

/-- V1 has no snapshots of proposition power. -/
theorem PlmyToken.propositionPowerSnapshots_beforeTokenTransfer {src dst : Address}
    (h : beforeTokenTransfer env src dst amount s = .ok s') :
    s'.propositionPowerSnapshots = s.propositionPowerSnapshots := by
  apply beforeTokenTransfer_rule
    (R := fun a b => b.propositionPowerSnapshots = a.propositionPowerSnapshots) _ _ _ h
  · exact fun _ => rfl
  · exact fun _ _ _ hfirst hsecond => hsecond.trans hfirst
  · intro owner oldValue newValue a b hwrite
    simp only [writeNarrowed, writeSnapshot, bind_eq_ok, pure_eq_ok] at hwrite
    obtain ⟨table, -, rfl⟩ := hwrite
    rfl

theorem PlmyToken.paid_transfer (hinv : PowerInvariant s now) (hundelegated : Undelegated s)
    (hnow : now ≤ env.block.number.val)
    (h : PlmyToken.execute chain env s (.transfer recipient amount) = .ok s') :
    Paid .plmyToken env.block.number.val env.msgSender recipient amount.val s s' := by
  have hstep := votingStep_execute hinv hundelegated hnow h
  have hexecute : Implementation.plmyToken.execute chain env s (.transfer recipient amount) =
    .ok s' := h
  have hwrites := Implementation.tablesWritten_execute hexecute
  obtain ⟨hsender, hrecipient, s₁, hbefore, -, hrest, hmoved⟩ := ERC20.transferInternal_cases h
  have hframe := onlySnapshots_beforeTokenTransfer hbefore
  rw [hframe.holdings] at hmoved
  have htables : ∀ t, s'.snapshotTable t = s₁.snapshotTable t := by
    rw [hrest]
    exact fun t => by cases t <;> rfl
  have hwritten := written_beforeTokenTransfer hbefore hsender hrecipient
  rw [← show s'.votingSnapshots = s₁.votingSnapshots from htables .votingPower] at hwritten
  refine ⟨?_, hmoved, fun t hrecords => ?_, fun t hnone => ?_,
    fun t hvacant => (hwrites t).vacant hvacant⟩
  · rw [hrest, hframe]
  · cases t with
    | propositionPower => cases hrecords
    | votingPower =>
        have hrewritten := hwritten.rewritten (hinv.coherent .votingPower).sorted hnow hsender
          hrecipient hmoved (holdings_lt hstep.invariant.supply)
        simp only [hundelegated.nobody.getDelegatee_eq]
        refine ⟨?_, fun u hu => ?_⟩
        · rwa [hstep.undelegated.nobody.delegatedPower_eq]
        · rw [hstep.undelegated.nobody.delegatedPower_eq,
            hundelegated.nobody.delegatedPower_eq]
          exact (Shift.of_moved hmoved (fun hzero => absurd hzero hsender) hrecipient).kept hu
  · cases t with
    | votingPower => exact absurd rfl hnone
    | propositionPower =>
        exact (htables _).trans (propositionPowerSnapshots_beforeTokenTransfer hbefore)

theorem PlmyTokenV2.paid_transfer (hinv : PowerInvariant s now)
    (hnow : now ≤ env.block.number.val)
    (h : PlmyTokenV2.execute chain env s (.transfer recipient amount) = .ok s') :
    Paid .plmyTokenV2 env.block.number.val env.msgSender recipient amount.val s s' := by
  have hexecute : Implementation.plmyTokenV2.execute chain env s (.transfer recipient amount) =
    .ok s' := h
  have hwrites := Implementation.tablesWritten_execute hexecute
  obtain ⟨-, -, s₁, hbefore, -, hrest, hmoved⟩ := ERC20.transferInternal_cases h
  have hframe := onlySnapshots_beforeTokenTransfer hbefore
  rw [hframe.holdings] at hmoved
  refine ⟨?_, hmoved, fun t _ => rewritten_transferInternal hinv hnow h t,
    fun t hnone => absurd rfl hnone, fun t hvacant => (hwrites t).vacant hvacant⟩
  rw [hrest, hframe]

namespace Implementation.Ready

theorem paid (hready : implementation.Ready s now) (hnow : now ≤ env.block.number.val)
    (h : implementation.execute chain env s (.transfer recipient amount) = .ok s') :
    Paid implementation env.block.number.val env.msgSender recipient amount.val s s' := by
  cases implementation with
  | plmyToken =>
      have h : PlmyToken.execute chain env s (.transfer recipient amount) = .ok s' := h
      exact PlmyToken.paid_transfer hready.invariant (hready.undelegated rfl) hnow h
  | plmyTokenV2 =>
      have h : PlmyTokenV2.execute chain env s (.transfer recipient amount) = .ok s' := h
      exact PlmyTokenV2.paid_transfer hready.invariant hnow h

theorem step (hready : implementation.Ready s now) (hnow : now ≤ env.block.number.val)
    {call : Call} (h : implementation.execute chain env s call = .ok s') :
    implementation.Ready s' env.block.number.val := by
  cases implementation with
  | plmyToken =>
      have hstep := PlmyToken.votingStep_execute hready.invariant (hready.undelegated rfl) hnow h
      exact ⟨hstep.invariant, fun _ => hstep.undelegated⟩
  | plmyTokenV2 =>
      exact ⟨(PlmyTokenV2.powerStep_execute hready.invariant hnow h).2,
        fun hother => absurd hother (by decide)⟩

theorem succeeds_transfer_iff (hready : implementation.Ready s now)
    (hnow : now ≤ env.block.number.val) (hhook : HookAccepts env s) :
    Succeeds (implementation.execute chain env s (.transfer recipient amount)) ↔
      env.msgSender ≠ 0 ∧ recipient ≠ 0 ∧ amount ≤ s.balances env.msgSender := by
  cases implementation with
  | plmyToken =>
      change Succeeds (ERC20.transferInternal (PlmyToken.beforeTokenTransfer env) _ _ _ s) ↔ _
      constructor
      · rintro ⟨s', h⟩
        obtain ⟨hsender, hrecipient, s₁, hbefore, henough, -⟩ := ERC20.transferInternal_cases h
        rw [(PlmyToken.onlySnapshots_beforeTokenTransfer hbefore).holdings] at henough
        exact ⟨hsender, hrecipient, henough⟩
      · rintro ⟨hsender, hrecipient, henough⟩
        refine (ERC20.succeeds_transferInternal_iff hready.invariant.supply
          (fun h => (PlmyToken.onlySnapshots_beforeTokenTransfer h).balances) ?_).mpr
          ⟨hsender, hrecipient, henough⟩
        exact fun henough => PlmyToken.succeeds_beforeTokenTransfer hready.invariant hnow hhook
          henough hsender hrecipient
  | plmyTokenV2 =>
      exact PlmyTokenV2.succeeds_transferInternal_iff hready.invariant hnow hhook

end Implementation.Ready

end Payments

namespace DoubleTransferHelper

variable {chain : Chain} {helper : Address} {env : Env} {recipient : Address}
  {amount amount1 amount2 : Uint256} {p p' : Proxy}

theorem send_eq_ok : send chain helper env recipient amount p = .ok p' ↔
    p'.implementation = p.implementation ∧
      p.implementation.execute chain (asHelper helper env) p.token
        (.transfer recipient amount) = .ok p'.token := by
  simp only [send, Proxy.execute, bind_eq_ok, pure_eq_ok]
  constructor
  · rintro ⟨token, htoken, rfl⟩
    exact ⟨rfl, htoken⟩
  · rintro ⟨himplementation, htoken⟩
    refine ⟨p'.token, htoken, ?_⟩
    rw [← himplementation]

theorem succeeds_send_iff {now : ℕ} (hready : p.implementation.Ready p.token now)
    (hnow : now ≤ env.block.number.val) (hhook : HookAccepts env p.token) :
    Succeeds (send chain helper env recipient amount p) ↔
      helper ≠ 0 ∧ recipient ≠ 0 ∧ amount.val ≤ p.token.holdings helper := by
  have hnow : now ≤ (asHelper helper env).block.number.val := hnow
  have hiff : Succeeds (p.implementation.execute chain (asHelper helper env) p.token
      (.transfer recipient amount)) ↔ _ := hready.succeeds_transfer_iff hnow hhook
  apply Iff.trans _ hiff
  constructor
  · rintro ⟨p', h⟩
    exact ⟨_, (send_eq_ok.mp h).2⟩
  · rintro ⟨token, htoken⟩
    exact ⟨⟨p.implementation, token⟩, send_eq_ok.mpr ⟨rfl, htoken⟩⟩

theorem doubleSend_eq_ok : doubleSend chain helper env recipient amount1 amount2 p = .ok p' ↔
    p'.implementation = p.implementation ∧ ∃ s₁,
      p.implementation.execute chain (asHelper helper env) p.token
        (.transfer recipient amount1) = .ok s₁ ∧
      p.implementation.execute chain (asHelper helper env) s₁
        (.transfer recipient amount2) = .ok p'.token := by
  simp only [doubleSend, bind_eq_ok, send_eq_ok]
  constructor
  · rintro ⟨p₁, ⟨hone, hfirst⟩, htwo, hsecond⟩
    rw [hone] at htwo hsecond
    exact ⟨htwo, p₁.token, hfirst, hsecond⟩
  · rintro ⟨himplementation, s₁, hfirst, hsecond⟩
    exact ⟨⟨p.implementation, s₁⟩, ⟨rfl, hfirst⟩, himplementation, hsecond⟩

theorem succeeds_doubleSend_iff {now : ℕ} (hready : p.implementation.Ready p.token now)
    (hnow : now ≤ env.block.number.val) (hhook : HookAccepts env p.token)
    (hother : recipient ≠ helper) :
    Succeeds (doubleSend chain helper env recipient amount1 amount2 p) ↔
      helper ≠ 0 ∧ recipient ≠ 0 ∧ amount1.val + amount2.val ≤ p.token.holdings helper := by
  have hnow : now ≤ (asHelper helper env).block.number.val := hnow
  have hhook : HookAccepts (asHelper helper env) p.token := hhook
  have hbetween : ∀ s₁, p.implementation.execute chain (asHelper helper env) p.token
      (.transfer recipient amount1) = .ok s₁ →
      (s₁.holdings helper + amount1.val = p.token.holdings helper) ∧
      (Succeeds (p.implementation.execute chain (asHelper helper env) s₁
        (.transfer recipient amount2)) ↔
          helper ≠ 0 ∧ recipient ≠ 0 ∧ amount2 ≤ s₁.balances helper) := by
    intro s₁ hfirst
    have hpaid := hready.paid hnow hfirst
    have hleft := hpaid.moved helper
    rw [msgSender_asHelper, if_pos rfl, if_neg hother, Nat.add_zero] at hleft
    have hhook₁ : HookAccepts (asHelper helper env) s₁ := by
      rw [HookAccepts, hpaid.rest]
      exact hhook
    exact ⟨hleft, (hready.step hnow hfirst).succeeds_transfer_iff le_rfl hhook₁⟩
  constructor
  · rintro ⟨p', h⟩
    obtain ⟨-, s₁, hfirst, hsecond⟩ := doubleSend_eq_ok.mp h
    obtain ⟨hleft, hiff⟩ := hbetween s₁ hfirst
    obtain ⟨hhelper, hrecipient, henough⟩ := hiff.mp ⟨_, hsecond⟩
    have henough : amount2.val ≤ s₁.holdings helper := henough
    exact ⟨hhelper, hrecipient, by omega⟩
  · rintro ⟨hhelper, hrecipient, henough⟩
    have hone : amount1.val ≤ p.token.holdings helper := by omega
    obtain ⟨s₁, hfirst⟩ :=
      (hready.succeeds_transfer_iff hnow hhook).mpr ⟨hhelper, hrecipient, hone⟩
    obtain ⟨hleft, hiff⟩ := hbetween s₁ hfirst
    have htwo : amount2.val ≤ s₁.holdings helper := by omega
    obtain ⟨s₂, hsecond⟩ := hiff.mpr ⟨hhelper, hrecipient, htwo⟩
    exact ⟨⟨p.implementation, s₂⟩, doubleSend_eq_ok.mpr ⟨rfl, s₁, hfirst, hsecond⟩⟩

end DoubleTransferHelper

open DoubleTransferHelper

/-- PLMY cannot tell two payments in a transaction from one.  After any run with at
most one upgrade, with a hook that lets transfers pass, `doubleSend` to anybody but
the helper succeeds exactly when one payment of the sum would, and leaves the same
storage: balances, delegatees and every snapshot.  A sum beyond a word is never
paid. -/
theorem double_send_is_one_payment {chain : Chain} {implementation : Implementation}
    {txs : List Tx} (hrun : UpgradeRun chain implementation txs) {env : Env}
    (hblock : ∀ tx ∈ txs, tx.block ≤ env.block.number.val)
    (hhook : HookAccepts env (Proxy.run chain txs).token) {helper recipient : Address}
    (hother : recipient ≠ helper) (amount1 amount2 : Uint256) :
    (∀ amount : Uint256, amount.val = amount1.val + amount2.val →
      Matches (fun p p' => p'.implementation = p.implementation ∧ SameStorage p.token p'.token)
        (doubleSend chain helper env recipient amount1 amount2 (Proxy.run chain txs))
        (send chain helper env recipient amount (Proxy.run chain txs))) ∧
      (2 ^ 256 ≤ amount1.val + amount2.val →
        ¬ Succeeds (doubleSend chain helper env recipient amount1 amount2
          (Proxy.run chain txs))) := by
  have hready : (Proxy.run chain txs).implementation.Ready (Proxy.run chain txs).token
      (asHelper helper env).block.number.val := hrun.implementation_eq ▸ hrun.ready hblock
  have hdouble : Succeeds (doubleSend chain helper env recipient amount1 amount2
      (Proxy.run chain txs)) ↔ _ := succeeds_doubleSend_iff hready le_rfl hhook hother
  refine ⟨fun amount hsum => ⟨?_, ?_⟩, fun hlarge => ?_⟩
  · rw [hdouble, ← hsum]
    exact (succeeds_send_iff hready le_rfl hhook).symm
  · intro p p' htwo hone
    obtain ⟨himplementation, s₁, hfirst, hsecond⟩ := doubleSend_eq_ok.mp htwo
    obtain ⟨himplementation', hsent⟩ := send_eq_ok.mp hone
    refine ⟨himplementation'.trans himplementation.symm, ?_⟩
    have hready₁ := hready.step le_rfl hfirst
    have hpaid := (hready.paid le_rfl hfirst).trans (hready₁.paid le_rfl hsecond)
    rw [← hsum] at hpaid
    exact hpaid.unique (fun t => Proxy.vacant_run txs t) (hready.paid le_rfl hsent)
  · rw [hdouble]
    rintro ⟨-, -, henough⟩
    have hword : (Proxy.run chain txs).token.holdings helper < 2 ^ 256 :=
      ((Proxy.run chain txs).token.balances helper).isLt
    omega

namespace Sample

def helper : Address := Address.ofNat 7

/-- Alice pays the helper. -/
def helperTxs : List Tx := txs ++ [⟨env alice 6, .call (.transfer helper 50)⟩]

theorem upgradeRun_helperTxs : UpgradeRun chain .plmyTokenV2 helperTxs :=
  .call upgradeRun_txs (by decide)

end Sample

theorem double_send_is_one_payment_sample :
    ∃ p p', doubleSend Sample.chain Sample.helper (Sample.env Sample.alice 7) Sample.bob 20 30
        (Proxy.run Sample.chain Sample.helperTxs) = .ok p ∧
      send Sample.chain Sample.helper (Sample.env Sample.alice 7) Sample.bob 50
        (Proxy.run Sample.chain Sample.helperTxs) = .ok p' ∧ SameStorage p.token p'.token := by
  have hblock : ∀ tx ∈ Sample.helperTxs,
      tx.block ≤ (Sample.env Sample.alice 7).block.number.val := by decide
  have hother : Sample.bob ≠ Sample.helper := by decide
  have hmatches := (double_send_is_one_payment Sample.upgradeRun_helperTxs hblock (Or.inl rfl)
    hother 20 30).1 50 (by decide)
  exact ⟨_, _, rfl, rfl, (hmatches.related _ _ rfl rfl).2⟩

end Palmy
