/-
The event log of the token tells the whole ledger: an indexer that saw nothing
but the log holds every balance, the supply, every allowance and every
delegatee, whatever implementations served the proxy.
-/
import Palmy.InternalSteps
import Palmy.Library.EventSourcing
import Palmy.Supply

namespace Palmy

open Solidity
open EventSourcing

/-- What an indexer of the token holds. -/
@[ext] structure TokenIndex where
  balances : Address → Uint256
  totalSupply : Uint256
  allowances : Address → Address → Uint256
  delegates : DelegationType → Address → Address

namespace TokenIndex

/-- Before the first event. -/
def empty : TokenIndex := ⟨fun _ => 0, 0, fun _ _ => 0, fun _ _ => 0⟩

/-- The balances once a transfer was debited; a mint debits nobody. -/
def debited (index : TokenIndex) (src : Address) (value : Uint256) : Address → Uint256 :=
  if src = 0 then index.balances
  else Function.update index.balances src (index.balances src - value)

/-- What the indexer makes of one event: a transfer out of the zero address is a
mint, and an approval announces the allowance it leaves behind. -/
def observe (index : TokenIndex) : Event → TokenIndex
  | .transfer src dst value =>
      { index with
        balances := Function.update (index.debited src value) dst
          (index.debited src value dst + value)
        totalSupply := if src = 0 then index.totalSupply + value else index.totalSupply }
  | .approval owner spender value =>
      { index with
        allowances := Function.update index.allowances owner
          (Function.update (index.allowances owner) spender value) }
  | .delegateChanged delegator delegatee t =>
      { index with
        delegates := Function.update index.delegates t
          (Function.update (index.delegates t) delegator delegatee) }
  | .snapshotDone .. | .delegatedPowerChanged .. => index

/-- What moves is there to be debited, and there is room for it. -/
def Covers (index : TokenIndex) : Event → Prop
  | .transfer src dst value =>
      dst ≠ 0 ∧ (src ≠ 0 → value ≤ index.balances src) ∧
        (index.debited src value dst).val + value.val < 2 ^ 256 ∧
        (src = 0 → index.totalSupply.val + value.val < 2 ^ 256)
  | _ => True

end TokenIndex

namespace Event

/-- The events of powers and snapshots. -/
def ofPower : Event → Bool
  | .snapshotDone .. | .delegatedPowerChanged .. => true
  | _ => false

/-- What an event takes from an account. -/
def debit (account : Address) : Event → ℕ
  | .transfer src _ value => if src = account then value.val else 0
  | _ => 0

/-- What an event gives to an account. -/
def credit (account : Address) : Event → ℕ
  | .transfer _ dst value => if dst = account then value.val else 0
  | _ => 0

theorem debit_of_power {event : Event} (hevent : event.ofPower) (account : Address) :
    event.debit account = 0 := by
  cases event with
  | transfer => cases hevent
  | _ => rfl

theorem credit_of_power {event : Event} (hevent : event.ofPower) (account : Address) :
    event.credit account = 0 := by
  cases event with
  | transfer => cases hevent
  | _ => rfl

end Event

/-- All that a log says an account sent; what the zero address sent was minted. -/
def sent (account : Address) (events : List Event) : ℕ := (events.map (Event.debit account)).sum

/-- All that a log says an account received. -/
def received (account : Address) (events : List Event) : ℕ :=
  (events.map (Event.credit account)).sum

@[simp] theorem sent_append (account : Address) (first second : List Event) :
    sent account (first ++ second) = sent account first + sent account second := by
  simp [sent]

@[simp] theorem received_append (account : Address) (first second : List Event) :
    received account (first ++ second) = received account first + received account second := by
  simp [received]

@[simp] theorem sent_singleton (account : Address) (event : Event) :
    sent account [event] = event.debit account := by
  simp [sent]

@[simp] theorem received_singleton (account : Address) (event : Event) :
    received account [event] = event.credit account := by
  simp [received]

namespace TokenIndex

variable {index : TokenIndex} {event : Event}

theorem observe_of_power (hevent : event.ofPower) (index : TokenIndex) :
    index.observe event = index := by
  cases event with
  | snapshotDone | delegatedPowerChanged => rfl
  | transfer | approval | delegateChanged => cases hevent

theorem debited_val {src account : Address} {value : Uint256}
    (henough : src ≠ 0 → value ≤ index.balances src) (hne : account ≠ 0) :
    (index.debited src value account).val + (if src = account then value.val else 0) =
      (index.balances account).val := by
  unfold debited
  by_cases heq : src = account
  · subst heq
    rw [if_neg hne, if_pos rfl, Function.update_self, Fin.sub_val_of_le (henough hne)]
    exact Nat.sub_add_cancel (henough hne)
  · rw [if_neg heq, Nat.add_zero]
    split
    · rfl
    · rw [Function.update_of_ne (Ne.symm heq)]

/-- A covered event takes what it says and gives what it says. -/
theorem balances_observe (hcovers : index.Covers event) {account : Address} (hne : account ≠ 0) :
    ((index.observe event).balances account).val + event.debit account =
      (index.balances account).val + event.credit account := by
  cases event with
  | transfer src dst value =>
      obtain ⟨-, henough, hroom, -⟩ := hcovers
      have hdebit := debited_val henough hne
      have hcredit : (Function.update (index.debited src value) dst
          (index.debited src value dst + value) account).val =
          (index.debited src value account).val + (if dst = account then value.val else 0) := by
        by_cases heq : dst = account
        · subst heq
          rw [Function.update_self, if_pos rfl, Fin.val_add, Nat.mod_eq_of_lt hroom]
        · rw [Function.update_of_ne (Ne.symm heq), if_neg heq, Nat.add_zero]
      simp only [observe, Event.debit, Event.credit]
      omega
  | _ => rfl

/-- What the zero address sends is what the supply grows by. -/
theorem totalSupply_observe (hcovers : index.Covers event) :
    (index.observe event).totalSupply.val = index.totalSupply.val + event.debit 0 := by
  cases event with
  | transfer src dst value =>
      obtain ⟨-, -, -, hroom⟩ := hcovers
      simp only [observe, Event.debit]
      split
      · next hmint => rw [Fin.val_add, Nat.mod_eq_of_lt (hroom hmint)]
      · rw [Nat.add_zero]
  | _ => rfl

end TokenIndex

/-- The part of the storage the log tells. -/
def Token.index (s : Token) : TokenIndex := ⟨s.balances, s.totalSupply, s.allowances, s.delegates⟩

theorem Token.index_congr {s s' : Token} (hbalances : s'.balances = s.balances)
    (hsupply : s'.totalSupply = s.totalSupply) (hallowances : s'.allowances = s.allowances)
    (hdelegates : ∀ t, s'.delegates t = s.delegates t) : s'.index = s.index :=
  TokenIndex.ext hbalances hsupply hallowances (funext hdelegates)

theorem Token.OnlySnapshots.index {s s' : Token} (h : OnlySnapshots s s') : s'.index = s.index :=
  index_congr h.balances h.totalSupply h.allowances h.delegates

/-- A step that announces nothing but powers. -/
abbrev AnnouncesPower (s s' : Token) : Prop :=
  Appends Token.log (fun event => event.ofPower = true) s s'

theorem AnnouncesPower.sent {s s' : Token} (h : AnnouncesPower s s') (account : Address) :
    Palmy.sent account s'.log = Palmy.sent account s.log := by
  obtain ⟨events, hlog, hpower⟩ := h
  have hnone : Palmy.sent account events = 0 := by
    apply List.sum_eq_zero
    intro n hn
    obtain ⟨event, hevent, rfl⟩ := List.mem_map.mp hn
    exact Event.debit_of_power (hpower event hevent) account
  rw [hlog, sent_append, hnone, Nat.add_zero]

theorem AnnouncesPower.received {s s' : Token} (h : AnnouncesPower s s') (account : Address) :
    Palmy.received account s'.log = Palmy.received account s.log := by
  obtain ⟨events, hlog, hpower⟩ := h
  have hnone : Palmy.received account events = 0 := by
    apply List.sum_eq_zero
    intro n hn
    obtain ⟨event, hevent, rfl⟩ := List.mem_map.mp hn
    exact Event.credit_of_power (hpower event hevent) account
  rw [hlog, received_append, hnone, Nat.add_zero]

/-- One entry of the ledger: none at all, or one event, which the ledger covers,
after those of the powers that move with it. -/
inductive LedgerStep (s s' : Token) : Prop
  | silent (hpower : AnnouncesPower s s') (hindex : s'.index = s.index)
  | event {event : Event} {s₁ : Token} (hpower : AnnouncesPower s s₁)
      (hlog : s'.log = s₁.log ++ [event]) (hindex : s'.index = s.index.observe event)
      (hcovers : s.index.Covers event)

/-- What a transaction does to the ledger. -/
abbrev LedgerSteps : Token → Token → Prop := Relation.ReflTransGen LedgerStep

theorem LedgerSteps.of_fields {s s' : Token} (hlog : s'.log = s.log)
    (hindex : s'.index = s.index) : LedgerSteps s s' :=
  .single (.silent (.of_same hlog) hindex)

theorem LedgerStep.told {s s' : Token} (h : LedgerStep s s') :
    Told Token.log Token.index TokenIndex.observe s s' := by
  cases h with
  | silent hpower hindex =>
      obtain ⟨events, hlog, hkind⟩ := hpower
      refine ⟨events, hlog, hindex.trans (replay_of_quiet ?_ s.index).symm⟩
      intro event hevent held
      exact TokenIndex.observe_of_power (hkind event hevent) held
  | event hpower hlog hindex =>
      exact Told.after_quiet hpower (fun _ => TokenIndex.observe_of_power) hlog hindex

/-- The balances are what the log says was received and not sent again, and the
supply is what it says was minted. -/
structure Balanced (s : Token) : Prop where
  account : ∀ account ≠ 0, s.holdings account + sent account s.log = received account s.log
  supply : s.totalSupply.val = sent 0 s.log

theorem balanced_genesis : Balanced .genesis := ⟨fun _ _ => rfl, rfl⟩

theorem LedgerStep.balanced {s s' : Token} (h : LedgerStep s s') (hbalanced : Balanced s) :
    Balanced s' := by
  cases h with
  | silent hpower hindex =>
      refine ⟨fun account hne => ?_, ?_⟩
      · rw [hpower.sent, hpower.received, ← hbalanced.account account hne]
        exact congrArg (fun index => (index.balances account).val + _) hindex
      · rw [hpower.sent, ← hbalanced.supply]
        exact congrArg (fun index => index.totalSupply.val) hindex
  | @event event s₁ hpower hlog hindex hcovers =>
      refine ⟨fun account hne => ?_, ?_⟩
      · have hflow := TokenIndex.balances_observe hcovers hne
        rw [← hindex] at hflow
        have hbefore := hbalanced.account account hne
        rw [hlog, sent_append, received_append, sent_singleton, received_singleton, hpower.sent,
          hpower.received]
        change (s'.index.balances account).val + _ = _
        change (s.index.balances account).val + _ = _ at hbefore
        omega
      · have hminted := TokenIndex.totalSupply_observe hcovers
        rw [← hindex] at hminted
        rw [hlog, sent_append, sent_singleton, hpower.sent, ← hbalanced.supply]
        exact hminted

theorem LedgerSteps.told {s s' : Token} (h : LedgerSteps s s') :
    Told Token.log Token.index TokenIndex.observe s s' :=
  Told.of_run (fun _ _ => LedgerStep.told) h

theorem LedgerSteps.balanced {s s' : Token} (h : LedgerSteps s s') (hbalanced : Balanced s) :
    Balanced s' := by
  induction h with
  | refl => exact hbalanced
  | tail _ hlast ih => exact hlast.balanced ih

section Calls

variable {chain : Chain} {env : Env} {s s₁ s' : Token} {src dst owner spender : Address}
  {amount : Uint256} {beforeTokenTransfer : ERC20.BeforeTokenTransfer}

theorem PlmyToken.announcesPower_beforeTokenTransfer
    (h : PlmyToken.beforeTokenTransfer env src dst amount s = .ok s') : AnnouncesPower s s' := by
  apply beforeTokenTransfer_rule (fun _ => Appends.of_same rfl) (fun _ _ _ => Appends.trans) _ h
  intro owner oldValue newValue s s' hwrite
  simp only [writeNarrowed, writeSnapshot, bind_eq_ok, pure_eq_ok] at hwrite
  obtain ⟨table, -, rfl⟩ := hwrite
  exact .single rfl rfl

theorem GovernancePowerDelegation.announcesPower_moveDelegatesByType {t : DelegationType}
    (h : moveDelegatesByType env src dst amount t s = .ok s') : AnnouncesPower s s' := by
  apply moveDelegatesByType_rule (fun _ => Appends.of_same rfl) (fun _ _ _ => Appends.trans) _ h
  intro user change s s' hchange
  simp only [changePower, bind_eq_ok, pure_eq_ok] at hchange
  obtain ⟨changed, -, table, -, rfl⟩ := hchange
  cases t <;> exact .single rfl rfl

theorem PlmyTokenV2.announcesPower_beforeTokenTransfer
    (h : PlmyTokenV2.beforeTokenTransfer env src dst amount s = .ok s') :
    AnnouncesPower s s' := by
  simp only [PlmyTokenV2.beforeTokenTransfer, bind_eq_ok, pure_eq_ok] at h
  obtain ⟨s₁, hvoting, s₂, hproposition, _, _, rfl⟩ := h
  exact (GovernancePowerDelegation.announcesPower_moveDelegatesByType hvoting).trans
    (GovernancePowerDelegation.announcesPower_moveDelegatesByType hproposition)

/-- A transfer hook that takes snapshots and announces powers only. -/
structure ERC20.Discreet (beforeTokenTransfer : ERC20.BeforeTokenTransfer) : Prop where
  snapshots : ERC20.TakesSnapshotsOnly beforeTokenTransfer
  power : ∀ ⦃src dst amount s s'⦄,
    beforeTokenTransfer src dst amount s = .ok s' → AnnouncesPower s s'

theorem PlmyToken.discreet (env : Env) : ERC20.Discreet (PlmyToken.beforeTokenTransfer env) :=
  ⟨takesSnapshotsOnly env, fun _ _ _ _ _ => announcesPower_beforeTokenTransfer⟩

theorem PlmyTokenV2.discreet (env : Env) : ERC20.Discreet (PlmyTokenV2.beforeTokenTransfer env) :=
  ⟨takesSnapshotsOnly env, fun _ _ _ _ _ => announcesPower_beforeTokenTransfer⟩

namespace ERC20

theorem ledgerSteps_approveInternal (h : approveInternal owner spender amount s = .ok s') :
    LedgerSteps s s' := by
  simp only [approveInternal, bind_eq_ok, require_eq_ok, pure_eq_ok, exists_const] at h
  obtain ⟨-, -, rfl⟩ := h
  exact .single (.event (.of_same rfl) rfl rfl trivial)

theorem ledgerSteps_transferInternal (hhook : Discreet beforeTokenTransfer)
    (h : transferInternal beforeTokenTransfer src dst amount s = .ok s') : LedgerSteps s s' := by
  simp only [transferInternal, bind_eq_ok, require_eq_ok, pure_eq_ok, exists_const,
    SafeMath.subOr_eq_ok, SafeMath.add_eq_ok] at h
  obtain ⟨hsrc, hdst, s₁, hbefore, debited, ⟨hle, hdebited⟩, credited, hcredited, rfl⟩ := h
  have hindex := (hhook.snapshots hbefore).index
  have hsub : Function.update s₁.balances src debited = s₁.index.debited src amount := by
    rw [TokenIndex.debited, if_neg hsrc]
    refine congrArg (Function.update s₁.balances src) (eq_sub_of_val ?_)
    rw [hdebited]
    exact Nat.sub_add_cancel hle
  rw [hsub] at hcredited
  refine .single (.event (hhook.power hbefore) rfl ?_ ?_)
  · rw [← hindex]
    refine TokenIndex.ext ?_ (if_neg hsrc).symm rfl (funext fun t => by cases t <;> rfl)
    change Function.update (Function.update s₁.balances src debited) dst credited = _
    rw [hsub, eq_add_of_val hcredited]
    rfl
  · rw [← hindex]
    exact ⟨hdst, fun _ => hle, hcredited ▸ credited.isLt, fun hzero => absurd hzero hsrc⟩

theorem ledgerSteps_mint (hhook : Discreet beforeTokenTransfer)
    (h : mint beforeTokenTransfer dst amount s = .ok s') : LedgerSteps s s' := by
  simp only [mint, bind_eq_ok, require_eq_ok, pure_eq_ok, exists_const, SafeMath.add_eq_ok] at h
  obtain ⟨hdst, s₁, hbefore, supply, hsupply, credited, hcredited, rfl⟩ := h
  have hindex := (hhook.snapshots hbefore).index
  refine .single (.event (hhook.power hbefore) rfl ?_ ?_)
  · rw [← hindex]
    refine TokenIndex.ext ?_ (eq_add_of_val hsupply) rfl (funext fun t => by cases t <;> rfl)
    change Function.update s₁.balances dst credited = _
    rw [eq_add_of_val hcredited]
    rfl
  · rw [← hindex]
    exact ⟨hdst, fun hne => absurd rfl hne, hcredited ▸ credited.isLt,
      fun _ => hsupply ▸ supply.isLt⟩

end ERC20

/-- A delegation is announced after the power has moved. -/
theorem GovernancePowerDelegation.announcesPower_delegateByTypeInternal
    {delegator delegatee : Address} {t : DelegationType}
    (h : delegateByTypeInternal env delegator delegatee t s = .ok s') :
    ∃ s₁, moveDelegatesByType env (getDelegatee delegator (s.delegates t)) delegatee
        (s.balances delegator) t
        (s.setDelegates t (Function.update (s.delegates t) delegator delegatee)) = .ok s₁ ∧
      AnnouncesPower s s₁ ∧ s' = s₁.emit (.delegateChanged delegator delegatee t) := by
  obtain ⟨-, s₁, hmove, rfl⟩ := delegateByTypeInternal_cases h
  refine ⟨s₁, hmove, ?_, rfl⟩
  apply Appends.trans _ (announcesPower_moveDelegatesByType hmove)
  cases t <;> exact .of_same rfl

theorem GovernancePowerDelegation.ledgerSteps_delegateByTypeInternal
    {delegator delegatee : Address} {t : DelegationType}
    (h : delegateByTypeInternal env delegator delegatee t s = .ok s') : LedgerSteps s s' := by
  obtain ⟨s₁, hmove, hpower, rfl⟩ := announcesPower_delegateByTypeInternal h
  refine .single (.event hpower rfl ?_ trivial)
  change s₁.index = _
  rw [(onlySnapshots_moveDelegatesByType hmove).index]
  have hdelegates : ∀ t', (s.setDelegates t (Function.update (s.delegates t) delegator
      delegatee)).delegates t' = Function.update s.delegates t
      (Function.update (s.delegates t) delegator delegatee) t' := by
    intro t'
    by_cases heq : t' = t
    · rw [heq, Token.delegates_setDelegates, Function.update_self]
    · rw [Token.delegates_setDelegates_of_ne heq, Function.update_of_ne heq]
  apply TokenIndex.ext _ _ _ (funext hdelegates) <;> cases t <;> rfl

theorem Implementation.discreet (env : Env) (implementation : Implementation) :
    ERC20.Discreet (implementation.beforeTokenTransfer env) := by
  cases implementation with
  | plmyToken => exact PlmyToken.discreet env
  | plmyTokenV2 => exact PlmyTokenV2.discreet env

theorem InternalStep.ledgerSteps {implementation : Implementation}
    (h : InternalStep implementation env s s') : LedgerSteps s s' := by
  cases h with
  | transferred h => exact ERC20.ledgerSteps_transferInternal (implementation.discreet env) h
  | minted h => exact ERC20.ledgerSteps_mint (implementation.discreet env) h
  | approved h => exact ERC20.ledgerSteps_approveInternal h
  | delegated h => exact GovernancePowerDelegation.ledgerSteps_delegateByTypeInternal h
  | counted h =>
      rw [h]
      exact .of_fields rfl (Token.index_congr rfl rfl rfl fun t => by cases t <;> rfl)
  | revised h =>
      rw [h]
      exact .of_fields rfl (Token.index_congr rfl rfl rfl fun t => by cases t <;> rfl)

theorem Implementation.ledgerSteps_execute (implementation : Implementation) {call : Call}
    (h : implementation.execute chain env s call = .ok s') : LedgerSteps s s' := by
  obtain ⟨s₀, hconfigured, hsteps⟩ := implementation.internalSteps_execute h
  have hstart : LedgerSteps s s₀ := by
    rcases hconfigured with rfl | ⟨-, palmyGovernance, rfl⟩
    · exact .refl
    · exact .of_fields rfl (Token.index_congr rfl rfl rfl fun t => by cases t <;> rfl)
  clear hconfigured h
  induction hsteps with
  | refl => exact hstart
  | tail _ hstep ih => exact ih.trans hstep.ledgerSteps

end Calls

namespace Proxy

variable {chain : Chain}

theorem ledgerSteps_step (p : Proxy) (tx : Tx) : LedgerSteps p.token (step chain p tx).token := by
  rcases commit_cases p (execute chain p tx) with hsame | hok
  · rw [step, hsame]
  rw [← step] at hok
  unfold execute at hok
  split at hok
  · simp only [bind_eq_ok, pure_eq_ok] at hok
    obtain ⟨token, hcall, heq⟩ := hok
    rw [← heq]
    exact p.implementation.ledgerSteps_execute hcall
  · rw [pure_eq_ok] at hok
    rw [← hok]

theorem told_run (chain : Chain) (p : Proxy) (txs : List Tx) :
    Told Token.log Token.index TokenIndex.observe p.token
      (Timeline.run (step chain) p txs).token := by
  change Told (fun p : Proxy => p.token.log) (fun p => p.token.index) TokenIndex.observe p _
  apply Told.of_actions
  intro p tx
  exact (ledgerSteps_step p tx).told

theorem balanced_run (chain : Chain) (txs : List Tx) : Balanced (run chain txs).token := by
  apply Timeline.run_induction (P := fun p : Proxy => Balanced p.token) balanced_genesis
  intro p tx hbalanced
  exact (ledgerSteps_step p tx).balanced hbalanced

/-- The log of the token tells its ledger.  After any transactions, switches
between the implementations included, an indexer that starts empty and replays
the log holds every balance, the supply, every allowance and every delegatee,
and what the log gains later takes it to the later ledger.  No balance ever
wrapped on the way: each is all that was received less all that was sent, and
the supply is all that was minted. -/
theorem token_log_tells_the_ledger (chain : Chain) (txs : List Tx) :
    replay TokenIndex.observe .empty (run chain txs).token.log = (run chain txs).token.index ∧
      (∀ later, ∃ events,
        (run chain (txs ++ later)).token.log = (run chain txs).token.log ++ events ∧
        replay TokenIndex.observe (run chain txs).token.index events =
          (run chain (txs ++ later)).token.index) ∧
      (∀ account ≠ 0, (ERC20.balanceOf (run chain txs).token account).val +
        sent account (run chain txs).token.log = received account (run chain txs).token.log) ∧
      (run chain txs).token.totalSupply.val = sent 0 (run chain txs).token.log := by
  refine ⟨?_, ?_, (balanced_run chain txs).account, (balanced_run chain txs).supply⟩
  · have hempty : Proxy.genesis.token.index = .empty :=
      TokenIndex.ext rfl rfl rfl (funext fun t => by cases t <;> rfl)
    rw [← hempty]
    exact (told_run chain genesis txs).rebuilds rfl
  · intro later
    rw [run_append]
    obtain ⟨events, hlog, hindex⟩ := told_run chain (run chain txs) later
    exact ⟨events, hlog, hindex.symm⟩

/-- Alice's balance is the distribution less her two payments, by the log. -/
theorem token_log_tells_the_ledger_sample :
    (ERC20.balanceOf (run Sample.chain Sample.txs).token Sample.alice).val +
        sent Sample.alice (run Sample.chain Sample.txs).token.log =
      received Sample.alice (run Sample.chain Sample.txs).token.log :=
  (token_log_tells_the_ledger Sample.chain Sample.txs).2.2.1 Sample.alice (by decide)

end Proxy

end Palmy
