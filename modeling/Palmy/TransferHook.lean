/-
The transfer hook.  Nothing moves in any call of any run that it did not let
pass, and once the token is initialised nobody can take it off.
-/
import Palmy.TokenEvents

namespace Palmy

open Solidity
open EventSourcing

/-- The hook let a transfer pass: there is none, it agreed, or it is V1 that does
not ask it about an account that pays itself. -/
def LetThrough (implementation : Implementation) (env : Env) (hook src dst : Address)
    (amount : Uint256) : Prop :=
  hook = 0 ∨ env.onTransfer hook src dst amount = .ok () ∨
    (implementation = .plmyToken ∧ src = dst)

/-- A hook that lets nothing pass. -/
def RefusesAll (env : Env) (hook : Address) : Prop :=
  hook ≠ 0 ∧ ∀ src dst amount, env.onTransfer hook src dst amount ≠ .ok ()

theorem RefusesAll.self_of_letThrough {implementation : Implementation} {env : Env}
    {hook src dst : Address} {amount : Uint256} (hrefuses : RefusesAll env hook)
    (h : LetThrough implementation env hook src dst amount) : src = dst := by
  rcases h with hnone | hagreed | ⟨-, hself⟩
  · exact absurd hnone hrefuses.1
  · exact absurd hagreed (hrefuses.2 src dst amount)
  · exact hself

/-- An event that the hook has let pass, or was not asked about. -/
def Event.Passed (implementation : Implementation) (env : Env) (hook : Address) : Event → Prop
  | .transfer src dst amount => LetThrough implementation env hook src dst amount
  | _ => True

theorem Event.passed_of_power {implementation : Implementation} {env : Env} {hook : Address}
    {event : Event} (hpower : event.ofPower = true) : event.Passed implementation env hook := by
  cases event with
  | transfer => cases hpower
  | _ => trivial

section Hooks

variable {env : Env} {src dst : Address} {amount : Uint256} {s s' : Token}

theorem callTransferHook_cases {u : Unit} (h : callTransferHook env src dst amount s = .ok u) :
    s.palmyGovernance = 0 ∨ env.onTransfer s.palmyGovernance src dst amount = .ok () := by
  unfold callTransferHook at h
  split at h
  · exact Or.inr h
  · next hunset => exact Or.inl (not_not.mp hunset)

theorem PlmyToken.letThrough_beforeTokenTransfer
    (h : beforeTokenTransfer env src dst amount s = .ok s') :
    LetThrough .plmyToken env s.palmyGovernance src dst amount := by
  have hhook : s'.palmyGovernance = s.palmyGovernance :=
    (onlySnapshots_beforeTokenTransfer h).palmyGovernance
  unfold beforeTokenTransfer at h
  by_cases heq : src = dst
  · exact Or.inr (Or.inr ⟨rfl, heq⟩)
  · simp only [heq, ↓reduceIte, bind_eq_ok, pure_eq_ok] at h
    obtain ⟨s₁, -, s₂, -, _, hcall, rfl⟩ := h
    rw [← hhook]
    exact (callTransferHook_cases hcall).imp_right Or.inl

theorem PlmyTokenV2.letThrough_beforeTokenTransfer
    (h : beforeTokenTransfer env src dst amount s = .ok s') :
    LetThrough .plmyTokenV2 env s.palmyGovernance src dst amount := by
  have hhook : s'.palmyGovernance = s.palmyGovernance :=
    (onlySnapshots_beforeTokenTransfer h).palmyGovernance
  simp only [beforeTokenTransfer, bind_eq_ok, pure_eq_ok] at h
  obtain ⟨s₁, -, s₂, -, _, hcall, rfl⟩ := h
  rw [← hhook]
  exact (callTransferHook_cases hcall).imp_right Or.inl

theorem Implementation.letThrough {implementation : Implementation}
    (h : implementation.beforeTokenTransfer env src dst amount s = .ok s') :
    LetThrough implementation env s.palmyGovernance src dst amount := by
  cases implementation with
  | plmyToken => exact PlmyToken.letThrough_beforeTokenTransfer h
  | plmyTokenV2 => exact PlmyTokenV2.letThrough_beforeTokenTransfer h

end Hooks

/-- The hook stays on, and what it refuses does not happen. -/
structure Gated (implementation : Implementation) (env : Env) (s s' : Token) : Prop where
  hook : s'.palmyGovernance = s.palmyGovernance
  initialised : s.lastInitializedRevision ≠ 0 → s'.lastInitializedRevision ≠ 0
  passed : Appends Token.log (Event.Passed implementation env s.palmyGovernance) s s'
  frozen : RefusesAll env s.palmyGovernance → s'.balances = s.balances

namespace Gated

variable {implementation : Implementation} {env : Env} {s s₁ s' : Token}

theorem refl (implementation : Implementation) (env : Env) (s : Token) :
    Gated implementation env s s where
  hook := rfl
  initialised := id
  passed := .of_same rfl
  frozen _ := rfl

theorem trans (hfirst : Gated implementation env s s₁)
    (hsecond : Gated implementation env s₁ s') : Gated implementation env s s' where
  hook := hsecond.hook.trans hfirst.hook
  initialised hrevision := hsecond.initialised (hfirst.initialised hrevision)
  passed := hfirst.passed.trans (hfirst.hook ▸ hsecond.passed)
  frozen hrefuses :=
    (hsecond.frozen (hfirst.hook.symm ▸ hrefuses)).trans (hfirst.frozen hrefuses)

end Gated

section Calls

variable {chain : Chain} {implementation : Implementation} {env : Env} {s s' : Token}

theorem gated_transferInternal {sender recipient : Address} {amount : Uint256}
    (h : ERC20.transferInternal (implementation.beforeTokenTransfer env) sender recipient amount s =
      .ok s') : Gated implementation env s s' := by
  obtain ⟨-, -, s₁, hbefore, -, hrest, hmoved⟩ := ERC20.transferInternal_cases h
  have hdiscreet := implementation.discreet env
  have hframe := hdiscreet.snapshots hbefore
  have hpassed := Implementation.letThrough hbefore
  refine ⟨?_, fun hrevision => ?_, ?_, fun hrefuses => ?_⟩
  · rw [hrest]
    exact hframe.palmyGovernance
  · rw [hrest]
    exact hframe.lastInitializedRevision ▸ hrevision
  · exact ((hdiscreet.power hbefore).mono fun _ => Event.passed_of_power).trans
      (.single (ERC20.log_transferInternal h hbefore) hpassed)
  · rw [hrefuses.self_of_letThrough hpassed] at hmoved
    rw [← hframe.balances]
    funext account
    exact Fin.ext (Nat.add_right_cancel (hmoved account))

/-- A mint is a transfer from nobody, which is no account. -/
theorem gated_mint {account : Address} {amount : Uint256}
    (h : ERC20.mint (implementation.beforeTokenTransfer env) account amount s = .ok s') :
    Gated implementation env s s' := by
  simp only [ERC20.mint, bind_eq_ok, require_eq_ok, pure_eq_ok, exists_const] at h
  obtain ⟨haccount, s₁, hbefore, supply, -, credited, -, rfl⟩ := h
  have hdiscreet := implementation.discreet env
  have hframe := hdiscreet.snapshots hbefore
  have hpassed := Implementation.letThrough hbefore
  refine ⟨hframe.palmyGovernance, fun hrevision => ?_, ?_, fun hrefuses => ?_⟩
  · exact hframe.lastInitializedRevision ▸ hrevision
  · exact ((hdiscreet.power hbefore).mono fun _ => Event.passed_of_power).trans
      (.single rfl hpassed)
  · exact absurd (hrefuses.self_of_letThrough hpassed).symm haccount

theorem InternalStep.gated (h : InternalStep implementation env s s') :
    Gated implementation env s s' := by
  cases h with
  | transferred h => exact gated_transferInternal h
  | minted h => exact gated_mint h
  | @approved owner spender amount h =>
      have hlog := ERC20.log_approveInternal h
      rw [ERC20.approveInternal_rest h]
      exact ⟨rfl, id, .single hlog trivial, fun _ => rfl⟩
  | delegated h =>
      have hledger := GovernancePowerDelegation.sameLedger_delegateByTypeInternal h
      obtain ⟨s₁, -, hpower, rfl⟩ :=
        GovernancePowerDelegation.announcesPower_delegateByTypeInternal h
      exact ⟨hledger.palmyGovernance, fun hrevision => hledger.lastInitializedRevision ▸ hrevision,
        (hpower.mono fun _ => Event.passed_of_power).trans (.single rfl trivial),
        fun _ => hledger.balances⟩
  | counted h =>
      rw [h]
      exact ⟨rfl, id, .of_same rfl, fun _ => rfl⟩
  | revised h =>
      rw [h]
      have hrevision : PlmyTokenV2.revision ≠ 0 := by decide
      exact ⟨rfl, fun _ => hrevision, .of_same rfl, fun _ => rfl⟩

theorem InternalSteps.gated (h : InternalSteps implementation env s s') :
    Gated implementation env s s' := by
  induction h with
  | refl => exact .refl implementation env s
  | tail _ hstep ih => exact ih.trans hstep.gated

/-- A transaction, which may be the one that puts the hook on. -/
structure Guarded (implementation : Implementation) (env : Env) (s s' : Token) : Prop where
  passed : Appends Token.log (Event.Passed implementation env s'.palmyGovernance) s s'
  hook : s.lastInitializedRevision ≠ 0 →
    s'.palmyGovernance = s.palmyGovernance ∧ s'.lastInitializedRevision ≠ 0
  frozen : s.lastInitializedRevision ≠ 0 → RefusesAll env s.palmyGovernance →
    s'.balances = s.balances

theorem Guarded.refl (implementation : Implementation) (env : Env) (s : Token) :
    Guarded implementation env s s :=
  ⟨.of_same rfl, fun hrevision => ⟨rfl, hrevision⟩, fun _ _ => rfl⟩

theorem Implementation.guarded_execute {call : Call}
    (h : implementation.execute chain env s call = .ok s') :
    Guarded implementation env s s' := by
  obtain ⟨s₀, hconfigured, hsteps⟩ := implementation.internalSteps_execute h
  have hgated := InternalSteps.gated hsteps
  have hpassed := hgated.passed
  rw [← hgated.hook] at hpassed
  rcases hconfigured with rfl | ⟨hfirst, palmyGovernance, rfl⟩
  · exact ⟨hpassed, fun hrevision => ⟨hgated.hook, hgated.initialised hrevision⟩,
      fun _ hrefuses => hgated.frozen hrefuses⟩
  · refine ⟨Appends.trans (.of_same rfl) hpassed, fun hrevision => ?_, fun hrevision => ?_⟩
    · exact absurd hfirst hrevision
    · exact absurd hfirst hrevision

end Calls

namespace Proxy

variable (chain : Chain)

theorem guarded_step (p : Proxy) (tx : Tx) :
    Guarded p.implementation tx.env p.token (step chain p tx).token := by
  rcases commit_cases p (execute chain p tx) with hsame | hok
  · rw [step, hsame]
    exact .refl p.implementation tx.env p.token
  rw [← step] at hok
  unfold execute at hok
  split at hok
  · simp only [bind_eq_ok, pure_eq_ok] at hok
    obtain ⟨token, hcall, heq⟩ := hok
    rw [← heq]
    exact Implementation.guarded_execute hcall
  · rw [pure_eq_ok] at hok
    rw [← hok]
    exact .refl p.implementation tx.env p.token

/-- Every event in the log was added by one of the transactions. -/
theorem exists_step_of_mem_log (txs : List Tx) {event : Event}
    (hevent : event ∈ (run chain txs).token.log) :
    ∃ before tx after events, txs = before ++ tx :: after ∧
      (step chain (run chain before) tx).token.log = (run chain before).token.log ++ events ∧
      event ∈ events := by
  induction txs using List.reverseRecOn with
  | nil => exact absurd hevent List.not_mem_nil
  | append_singleton txs tx ih =>
      obtain ⟨events, hlog, -⟩ := (guarded_step chain (run chain txs) tx).passed
      rw [run_concat, hlog, List.mem_append] at hevent
      rcases hevent with hold | hnew
      · obtain ⟨before, tx', after, events', heq, hadded⟩ := ih hold
        refine ⟨before, tx', after ++ [tx], events', ?_, hadded⟩
        rw [heq, List.append_assoc, List.cons_append]
      · exact ⟨txs, tx, [], events, rfl, hlog, hnew⟩

/-- The hook stays on. -/
theorem palmyGovernance_run (p : Proxy) (later : List Tx)
    (hrevision : p.token.lastInitializedRevision ≠ 0) :
    (Timeline.run (step chain) p later).token.palmyGovernance = p.token.palmyGovernance := by
  induction later generalizing p with
  | nil => rfl
  | cons tx later ih =>
      obtain ⟨hhook, hrevision'⟩ := (guarded_step chain p tx).hook hrevision
      exact (ih (step chain p tx) hrevision').trans hhook

/-- As long as the hook refuses everything, no balance changes. -/
theorem balances_run_of_refused (p : Proxy) (later : List Tx)
    (hrevision : p.token.lastInitializedRevision ≠ 0)
    (hrefuses : ∀ tx ∈ later, RefusesAll tx.env p.token.palmyGovernance) :
    (Timeline.run (step chain) p later).token.balances = p.token.balances := by
  induction later generalizing p with
  | nil => rfl
  | cons tx later ih =>
      obtain ⟨hrefused, hlater⟩ := List.forall_mem_cons.mp hrefuses
      have hguarded := guarded_step chain p tx
      obtain ⟨hhook, hrevision'⟩ := hguarded.hook hrevision
      rw [← hhook] at hlater
      exact (ih (step chain p tx) hrevision' hlater).trans (hguarded.frozen hrevision hrefused)

/-- Nothing moves past the transfer hook.  After any transactions, switches between the
implementations included, every transfer in the log was added by a transaction, and
each transfer that a transaction adds was let through by the hook as it answered
then.  Once the token is initialised the hook is never changed again, and while it
refuses everything no balance changes, whatever is called by whom. -/
theorem transfers_pass_the_hook (chain : Chain) (txs : List Tx) :
    (∀ src dst amount, .transfer src dst amount ∈ (run chain txs).token.log →
      ∃ before tx after events, txs = before ++ tx :: after ∧
        (step chain (run chain before) tx).token.log = (run chain before).token.log ++ events ∧
        .transfer src dst amount ∈ events) ∧
      (∀ before tx events,
        (step chain (run chain before) tx).token.log = (run chain before).token.log ++ events →
        ∀ src dst amount, .transfer src dst amount ∈ events →
          LetThrough (run chain before).implementation tx.env
            (step chain (run chain before) tx).token.palmyGovernance src dst amount) ∧
      ∀ later, (run chain txs).token.lastInitializedRevision ≠ 0 →
        (run chain (txs ++ later)).token.palmyGovernance =
          (run chain txs).token.palmyGovernance ∧
        ((∀ tx ∈ later, RefusesAll tx.env (run chain txs).token.palmyGovernance) →
          (run chain (txs ++ later)).token.balances = (run chain txs).token.balances) := by
  refine ⟨fun src dst amount hevent => exists_step_of_mem_log chain txs hevent, ?_, ?_⟩
  · intro before tx events hlog src dst amount hevent
    exact (guarded_step chain (run chain before) tx).passed.forall_mem hlog _ hevent
  · intro later hrevision
    rw [run_append]
    exact ⟨palmyGovernance_run chain _ later hrevision,
      balances_run_of_refused chain _ later hrevision⟩

/-- Alice's payment in block 2 was let through: there is no hook. -/
theorem transfers_pass_the_hook_sample :
    LetThrough .plmyToken (Sample.env Sample.alice 2) 0 Sample.alice Sample.bob 100 := by
  have hlog : (run Sample.chain (Sample.txs.take 2)).token.log =
      (run Sample.chain (Sample.txs.take 1)).token.log ++
        (run Sample.chain (Sample.txs.take 2)).token.log.drop
          (run Sample.chain (Sample.txs.take 1)).token.log.length := by decide +kernel
  exact (transfers_pass_the_hook Sample.chain []).2.1 (Sample.txs.take 1)
    ⟨Sample.env Sample.alice 2, .call (.transfer Sample.bob 100)⟩ _ hlog Sample.alice Sample.bob
    100 (by decide +kernel)

end Proxy

end Palmy
