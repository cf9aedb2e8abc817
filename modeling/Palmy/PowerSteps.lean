/-
The power invariant over one successful call of either implementation: powers
of both types are tracked by V2, voting power already by V1.
-/
import Palmy.PowerInvariant

namespace Palmy

open Solidity
open Delegation
open GovernancePowerDelegation

/-- What every block of a run leaves behind. -/
structure PowerInvariant (s : Token) (now : ℕ) : Prop where
  coherent : ∀ t, Coherent s t now
  supply : SupplyInvariant s
  zero : s.holdings 0 = 0
  fits : ∀ x ∈ s.narrowed, x.val < 2 ^ 128

/-- Every account is its own delegatee, by default. -/
def NobodyDelegates (s : Token) : Prop := ∀ t account, s.delegates t account = 0

namespace NobodyDelegates

variable {s : Token} (h : NobodyDelegates s) (t : DelegationType)
include h

theorem getDelegatee_eq (d : Address) : getDelegateeByType d t s = d := by
  simp [getDelegateeByType, getDelegatee, h t d]

theorem selfDelegated (user : Address) : SelfDelegated s t user := fun d => by
  rw [h.getDelegatee_eq]

theorem delegatedPower_eq : s.delegatedPower t = s.holdings :=
  funext fun user => (h.selfDelegated t user).delegatedPower

end NobodyDelegates

/-- A state of V1: nobody delegates, and no proposition power is recorded. -/
structure Undelegated (s : Token) : Prop where
  nobody : NobodyDelegates s
  proposition : ∀ user, s.history .propositionPower user = []

namespace Undelegated

variable {s : Token}

/-- Proposition power starts with nothing recorded, hence sound. -/
theorem coherent_proposition (h : Undelegated s) (now : ℕ) :
    Coherent s .propositionPower now := by
  have hnil : ∀ user, (s.snapshotTable .propositionPower).history user = [] := h.proposition
  refine ⟨⟨?_, ?_⟩, ?_, ?_, h.proposition 0⟩
  · intro user
    rw [hnil]
    exact List.Pairwise.nil
  · intro user entry hentry
    rw [hnil] at hentry
    exact absurd hentry List.not_mem_nil
  · intro user hne
    exact absurd (hnil user) hne
  · exact fun user _ _ => h.nobody.selfDelegated _ user

/-- Nothing but voting snapshots and the ledger changes under V1. -/
theorem of_same {s' : Token} (h : Undelegated s)
    (hdelegates : ∀ t, s'.delegates t = s.delegates t)
    (htable : s'.snapshotTable .propositionPower = s.snapshotTable .propositionPower) :
    Undelegated s' where
  nobody t account := by
    rw [hdelegates]
    exact h.nobody t account
  proposition user := by
    rw [Token.history, htable]
    exact h.proposition user

end Undelegated

theorem SupplyInvariant.of_sameLedger {s s' : Token} (hinv : SupplyInvariant s)
    (hledger : SameLedger s s') : SupplyInvariant s' :=
  hinv.kept ⟨hledger.totalSupply, by rw [hledger.holdings], hledger.lastInitializedRevision.ge⟩

section Moves

variable {s s' : Token} {t : DelegationType} {src dst : Address} {n : ℕ}

/-- Moving a balance moves power between the delegatees. -/
theorem moved_delegatedPower (hdelegates : s'.delegates t = s.delegates t)
    (hmoved : Moved s.holdings s'.holdings src dst n) :
    Moved (s.delegatedPower t) (s'.delegatedPower t) (getDelegateeByType src t s)
      (getDelegateeByType dst t s) n := by
  have hpower : s'.delegatedPower t =
      power s'.holdings (fun d => getDelegateeByType d t s) := by
    funext user
    simp only [Token.delegatedPower_eq, getDelegateeByType, hdelegates]
  rw [hpower]
  exact hmoved.power fun d => getDelegateeByType d t s

/-- Between accounts that exist it is a shift. -/
theorem shift_delegatedPower (hsrc : src ≠ 0) (hdst : dst ≠ 0)
    (hdelegates : s'.delegates t = s.delegates t)
    (hmoved : Moved s.holdings s'.holdings src dst n) :
    Shift (getDelegateeByType src t s) (getDelegateeByType dst t s) n (s.delegatedPower t)
      (s'.delegatedPower t) :=
  .of_moved (moved_delegatedPower hdelegates hmoved)
    (fun hzero => absurd hzero (getDelegatee_ne_zero hsrc)) (getDelegatee_ne_zero hdst)

/-- Account zero stays empty when it is neither end of a move. -/
theorem holdings_zero_of_moved (hmoved : Moved s.holdings s'.holdings src dst n)
    (hsrc : src ≠ 0) (hdst : dst ≠ 0) (hzero : s.holdings 0 = 0) : s'.holdings 0 = 0 := by
  have hat := hmoved 0
  rw [if_neg hsrc, if_neg hdst] at hat
  exact hat.trans hzero

theorem selfDelegated_congr (hdelegates : s'.delegates t = s.delegates t) {user : Address}
    (hself : SelfDelegated s t user) : SelfDelegated s' t user := by
  simpa only [SelfDelegated, getDelegateeByType, hdelegates] using hself

end Moves

/-- The invariant after a call, from what the call did to both types of power. -/
theorem PowerInvariant.step {s s' : Token} {now block : ℕ} (hinv : PowerInvariant s now)
    (hnow : now ≤ block) (hsteps : ∀ t, PowerStep block t s s')
    (hsupply : SupplyInvariant s') (hzero : s'.holdings 0 = 0)
    (hfits : ∀ x ∈ s'.narrowed, x ∈ s.narrowed ∨ x.val < 2 ^ 128) :
    PowerInvariant s' block where
  coherent t := (hsteps t).coherent (hinv.coherent t) hnow
  supply := hsupply
  zero := hzero
  fits x hx := (hfits x hx).elim (hinv.fits x) id

theorem PowerInvariant.previousPower_eq {s : Token} {now : ℕ} (hinv : PowerInvariant s now)
    (t : DelegationType) (user : Address) :
    (previousPower user t s).val = s.delegatedPower t user :=
  (hinv.coherent t).previousPower_eq hinv.zero user

section V2

variable {env : Env} {now : ℕ} {s s' : Token}

/-- The hook of V2 lets both powers follow the balances it runs ahead of. -/
theorem PlmyTokenV2.powerWritten_beforeTokenTransfer {sender recipient : Address}
    {amount : Uint256} {s₁ : Token} (hinv : PowerInvariant s now)
    (hnow : now ≤ env.block.number.val)
    (h : beforeTokenTransfer env sender recipient amount s = .ok s₁)
    (hrecipient : recipient ≠ 0) (hsender : sender ≠ 0)
    (hdelegates : ∀ t, s'.delegates t = s.delegates t)
    (hmoved : Moved s.holdings s'.holdings sender recipient amount.val)
    (hsupply : SupplyInvariant s') :
    ∃ a, PowerWritten env.block.number.val .votingPower (getDelegatee sender s.votingDelegates)
        (getDelegatee recipient s.votingDelegates) (s.delegatedPower .votingPower)
        (s'.delegatedPower .votingPower) s a ∧
      PowerWritten env.block.number.val .propositionPower
        (getDelegatee sender s.propositionPowerDelegates)
        (getDelegatee recipient s.propositionPowerDelegates)
        (s.delegatedPower .propositionPower) (s'.delegatedPower .propositionPower) a s₁ := by
  simp only [beforeTokenTransfer, bind_eq_ok, pure_eq_ok] at h
  obtain ⟨a, hvoting, b, hproposition, _, _, rfl⟩ := h
  have hframe := onlySnapshots_moveDelegatesByType hvoting
  have hvotingWritten := powerWritten_moveDelegatesByType hvoting
    (hinv.coherent .votingPower).sorted hnow
    (shift_delegatedPower hsender hrecipient (hdelegates .votingPower) hmoved)
    (hinv.previousPower_eq _) (delegatedPower_lt hinv.supply _) (delegatedPower_lt hsupply _)
  refine ⟨a, hvotingWritten, ?_⟩
  have htable : a.snapshotTable .propositionPower = s.snapshotTable .propositionPower :=
    hvotingWritten.others _ (by decide)
  have hprofile : a.propositionPowerDelegates = s.propositionPowerDelegates :=
    hframe.delegates .propositionPower
  rw [hprofile] at hproposition
  apply powerWritten_moveDelegatesByType hproposition _ hnow
  · exact shift_delegatedPower hsender hrecipient (hdelegates .propositionPower) hmoved
  · intro user
    rw [previousPower_congr hframe.balances htable]
    exact hinv.previousPower_eq _ user
  · exact delegatedPower_lt hinv.supply _
  · exact delegatedPower_lt hsupply _
  · rw [htable]
    exact (hinv.coherent .propositionPower).sorted

/-- A transfer of V2 shifts the power of both types, and its hook writes down the
powers it ends with. -/
theorem PlmyTokenV2.powerWritten_moved {sender recipient : Address} {amount : Uint256} {s₁ : Token}
    (hinv : PowerInvariant s now) (hnow : now ≤ env.block.number.val)
    (hsender : sender ≠ 0) (hrecipient : recipient ≠ 0)
    (hbefore : beforeTokenTransfer env sender recipient amount s = .ok s₁)
    (hrest : s' = { s₁ with
      balances := s'.balances, allowances := s'.allowances, log := s'.log })
    (henough : amount.val ≤ s₁.holdings sender)
    (hmoved : Moved s₁.holdings s'.holdings sender recipient amount.val) :
    Moved s.holdings s'.holdings sender recipient amount.val ∧
      (∀ t, s'.snapshotTable t = s₁.snapshotTable t) ∧
      (∀ t, Shift (getDelegateeByType sender t s) (getDelegateeByType recipient t s) amount.val
        (s.delegatedPower t) (s'.delegatedPower t)) ∧
      ∃ a, PowerWritten env.block.number.val .votingPower (getDelegatee sender s.votingDelegates)
          (getDelegatee recipient s.votingDelegates) (s.delegatedPower .votingPower)
          (s'.delegatedPower .votingPower) s a ∧
        PowerWritten env.block.number.val .propositionPower
          (getDelegatee sender s.propositionPowerDelegates)
          (getDelegatee recipient s.propositionPowerDelegates)
          (s.delegatedPower .propositionPower) (s'.delegatedPower .propositionPower) a s₁ := by
  have heffect : Erc20Effect (beforeTokenTransfer env) s s' :=
    .moved hsender hrecipient hbefore hrest henough hmoved
  have hsupply := hinv.supply.kept (supplyKept_of_erc20Effect (takesSnapshotsOnly env) heffect)
  have hdelegates := (heffect.frame (takesSnapshotsOnly env)).1
  rw [(onlySnapshots_beforeTokenTransfer hbefore).holdings] at hmoved
  refine ⟨hmoved, ?_, ?_, ?_⟩
  · intro t
    rw [hrest]
    cases t <;> rfl
  · exact fun t => shift_delegatedPower hsender hrecipient (hdelegates t) hmoved
  · exact powerWritten_beforeTokenTransfer hinv hnow hbefore hrecipient hsender hdelegates hmoved
      hsupply

theorem PlmyTokenV2.powerStep_of_erc20Effect (hinv : PowerInvariant s now)
    (hnow : now ≤ env.block.number.val)
    (h : Erc20Effect (PlmyTokenV2.beforeTokenTransfer env) s s') :
    (∀ t, PowerStep env.block.number.val t s s') ∧
      PowerInvariant s' env.block.number.val := by
  have hsupply := hinv.supply.kept
    (supplyKept_of_erc20Effect (PlmyTokenV2.takesSnapshotsOnly env) h)
  have hdelegates := (h.frame (PlmyTokenV2.takesSnapshotsOnly env)).1
  cases h with
  | moved hsender hrecipient hbefore hrest henough hmoved =>
      obtain ⟨hmoved, htables, hshift, a, hvoting, hproposition⟩ := PlmyTokenV2.powerWritten_moved
        hinv hnow hsender hrecipient hbefore hrest henough hmoved
      have hsteps : ∀ t, PowerStep env.block.number.val t s s' := by
        intro t
        cases t with
        | votingPower =>
            refine .of_powerMoved (hvoting.moved (hshift .votingPower)) rfl ?_ fun user _ _ =>
              selfDelegated_congr (hdelegates _)
            rw [htables]
            exact hproposition.others _ (by decide)
        | propositionPower =>
            refine .of_powerMoved (hproposition.moved (hshift .propositionPower)) ?_ (htables _)
              fun user _ _ => selfDelegated_congr (hdelegates _)
            exact hvoting.others _ (by decide)
      refine ⟨hsteps, hinv.step hnow hsteps hsupply
        (holdings_zero_of_moved hmoved hsender hrecipient hinv.zero) ?_⟩
      intro x hx
      rw [hrest] at hx
      rcases hproposition.fits x hx with ha | hlt
      · exact hvoting.fits x ha
      · exact Or.inr hlt
  | approved hrest =>
      have hsteps : ∀ t, PowerStep env.block.number.val t s s' := by
        intro t
        rw [hrest]
        cases t <;> exact .of_same rfl rfl rfl
      refine ⟨hsteps, hinv.step hnow hsteps hsupply ?_ ?_⟩
      · rw [hrest]
        exact hinv.zero
      · rw [hrest]
        exact fun x hx => Or.inl hx

namespace GovernancePowerDelegation

variable {t : DelegationType} {delegator delegatee : Address}

theorem profile_delegateByTypeInternal
    (h : delegateByTypeInternal env delegator delegatee t s = .ok s') :
    (fun d => getDelegateeByType d t s') =
      Function.update (fun d => getDelegateeByType d t s) delegator delegatee := by
  simp only [getDelegateeByType, (delegates_delegateByTypeInternal h).1]
  exact getDelegatee_update (delegateByTypeInternal_cases h).1

/-- The delegator's balance leaves its old delegatee for the new one. -/
theorem shift_delegateByTypeInternal (hinv : PowerInvariant s now)
    (h : delegateByTypeInternal env delegator delegatee t s = .ok s') :
    Shift (getDelegateeByType delegator t s) delegatee (s.holdings delegator)
      (s.delegatedPower t) (s'.delegatedPower t) := by
  have hmoved : Moved (s.delegatedPower t) (s'.delegatedPower t)
      (getDelegateeByType delegator t s) delegatee (s.holdings delegator) := by
    have hpower : s'.delegatedPower t = power s.holdings
        (Function.update (fun d => getDelegateeByType d t s) delegator delegatee) := by
      rw [← profile_delegateByTypeInternal h, ← (sameLedger_delegateByTypeInternal h).holdings]
      rfl
    rw [hpower]
    exact moved_power_update s.holdings (fun d => getDelegateeByType d t s) delegator delegatee
  apply Shift.of_moved hmoved _ (delegateByTypeInternal_cases h).1
  intro hzero
  have hdelegator : delegator = 0 := by
    by_contra hne
    exact getDelegatee_ne_zero hne hzero
  rw [hdelegator]
  exact hinv.zero

/-- Storing a delegatee and moving the delegator's balance to it. -/
theorem powerWritten_delegateByTypeInternal (hinv : PowerInvariant s now)
    (hnow : now ≤ env.block.number.val)
    (h : delegateByTypeInternal env delegator delegatee t s = .ok s') :
    PowerWritten env.block.number.val t (getDelegateeByType delegator t s) delegatee
      (s.delegatedPower t) (s'.delegatedPower t) s s' := by
  have hsupply := hinv.supply.of_sameLedger (sameLedger_delegateByTypeInternal h)
  have hshift := shift_delegateByTypeInternal hinv h
  obtain ⟨-, s₂, hmove, hemit⟩ := delegateByTypeInternal_cases h
  have hwritten := powerWritten_moveDelegatesByType hmove
    (by rw [Token.snapshotTable_setDelegates]; exact (hinv.coherent t).sorted) hnow hshift
    (fun user => by
      rw [previousPower_congr (sameLedger_setDelegates s t _).balances
        (Token.snapshotTable_setDelegates s t t _)]
      exact hinv.previousPower_eq t user)
    (delegatedPower_lt hinv.supply t) (delegatedPower_lt hsupply t)
  have htables : ∀ t', s'.snapshotTable t' = s₂.snapshotTable t' := by
    intro t'
    rw [hemit]
    cases t' <;> rfl
  refine ⟨hwritten.written.congr (Token.snapshotTable_setDelegates s t t _) (htables t),
    fun t' hne => ?_, fun x hx => ?_, ?_⟩
  · rw [htables, hwritten.others t' hne, Token.snapshotTable_setDelegates]
  · rw [hemit] at hx
    rcases hwritten.fits x hx with hold | hlt
    · rw [Token.narrowed_setDelegates] at hold
      exact Or.inl hold
    · exact Or.inr hlt
  · obtain ⟨events, hlog, hcarries, hsilent⟩ := hwritten.announced
    have hchanged : ∀ t', Silent t' [.delegateChanged delegator delegatee t] := by
      intro t' event hevent
      rw [List.mem_singleton.mp hevent]
      rfl
    refine ⟨events ++ [.delegateChanged delegator delegatee t], ?_,
      hcarries.append ((hchanged t).carries _), fun t' hne => (hsilent t' hne).append (hchanged t')⟩
    rw [hemit, Token.emit, hlog, List.append_assoc]
    cases t <;> rfl

theorem powerStep_delegateByTypeInternal (hinv : PowerInvariant s now)
    (hnow : now ≤ env.block.number.val)
    (h : delegateByTypeInternal env delegator delegatee t s = .ok s') :
    (∀ t, PowerStep env.block.number.val t s s') ∧
      PowerInvariant s' env.block.number.val := by
  have hledger := sameLedger_delegateByTypeInternal h
  have hwritten := powerWritten_delegateByTypeInternal hinv hnow h
  have hsteps : ∀ t', PowerStep env.block.number.val t' s s' := by
    intro t'
    by_cases heq : t' = t
    · subst heq
      refine .of_powerMoved (hwritten.moved (shift_delegateByTypeInternal hinv h)) rfl rfl ?_
      intro user _ huntouched hselfDelegated d
      change (fun d => getDelegateeByType d t' s') d = user ↔ d = user
      rw [profile_delegateByTypeInternal h]
      by_cases hd : d = delegator
      · -- the delegator itself: its old delegatee was `user` only if it is `user`
        subst hd
        rw [Function.update_self]
        have hat := hselfDelegated d
        rcases huntouched with hsame | ⟨hnotFrom, hnotTo⟩
        · rwa [← hsame]
        · refine ⟨fun hto => absurd hto.symm hnotTo, fun hd => ?_⟩
          exact absurd (hat.mpr hd).symm hnotFrom
      · rw [Function.update_of_ne hd]
        exact hselfDelegated d
    · exact .of_same hledger.holdings ((delegates_delegateByTypeInternal h).2 t' heq)
        (hwritten.others t' heq)
  refine ⟨hsteps, hinv.step hnow hsteps (hinv.supply.of_sameLedger hledger) ?_ hwritten.fits⟩
  rw [hledger.holdings]
  exact hinv.zero

end GovernancePowerDelegation

/-- Spending a nonce is no matter of power. -/
theorem PowerInvariant.of_nonces (hinv : PowerInvariant s now)
    (h : s' = { s with nonces := s'.nonces }) : PowerInvariant s' now := by
  have hledger := sameLedger_of_nonces h
  refine ⟨fun t => (hinv.coherent t).congr hledger.holdings ?_ ?_,
    hinv.supply.of_sameLedger hledger, ?_, ?_⟩
  · rw [h]
    cases t <;> rfl
  · rw [h]
    cases t <;> rfl
  · rw [hledger.holdings]
    exact hinv.zero
  · rw [h]
    exact hinv.fits

theorem PowerStep.of_nonces (h : s' = { s with nonces := s'.nonces }) (block : ℕ)
    (t : DelegationType) : PowerStep block t s s' := by
  rw [h]
  cases t <;> exact .of_same rfl rfl rfl

theorem PlmyTokenV2.powerStep_of_delegationEffect (hinv : PowerInvariant s now)
    (hnow : now ≤ env.block.number.val) (h : DelegationEffect env s s') :
    (∀ t, PowerStep env.block.number.val t s s') ∧
      PowerInvariant s' env.block.number.val := by
  cases h with
  | one hnonces hdelegate =>
      obtain ⟨hsteps, hinv'⟩ :=
        powerStep_delegateByTypeInternal (hinv.of_nonces hnonces) hnow hdelegate
      exact ⟨fun t => (PowerStep.of_nonces hnonces _ t).trans (hsteps t), hinv'⟩
  | both hnonces hvoting hproposition =>
      obtain ⟨hsteps₁, hinv₁⟩ :=
        powerStep_delegateByTypeInternal (hinv.of_nonces hnonces) hnow hvoting
      obtain ⟨hsteps₂, hinv'⟩ := powerStep_delegateByTypeInternal hinv₁ le_rfl hproposition
      exact ⟨fun t => ((PowerStep.of_nonces hnonces _ t).trans (hsteps₁ t)).trans (hsteps₂ t),
        hinv'⟩

/-- Every call of V2 tracks both powers. -/
theorem PlmyTokenV2.powerStep_execute {chain : Chain} {call : Call}
    (hinv : PowerInvariant s now) (hnow : now ≤ env.block.number.val)
    (h : execute chain env s call = .ok s') :
    (∀ t, PowerStep env.block.number.val t s s') ∧
      PowerInvariant s' env.block.number.val := by
  rcases execute_cases h with ⟨-, hinit⟩ | heffect | heffect
  · simp only [initializeToken, initializer, bind_eq_ok, require_eq_ok, pure_eq_ok,
      exists_const] at hinit
    obtain ⟨hlt, rfl⟩ := hinit
    have hsteps : ∀ t, PowerStep env.block.number.val t s
        { s with lastInitializedRevision := revision } := by
      intro t
      cases t <;> exact .of_same rfl rfl rfl
    exact ⟨hsteps, hinv.step hnow hsteps (hinv.supply.kept ⟨rfl, rfl, hlt.le⟩) hinv.zero
      fun x hx => Or.inl hx⟩
  · exact powerStep_of_erc20Effect hinv hnow heffect
  · exact powerStep_of_delegationEffect hinv hnow heffect

end V2

section V1

variable {env : Env} {now : ℕ} {s s' : Token}

/-- The invariant of V1 after a call: proposition power needs no step. -/
theorem PowerInvariant.stepV1 {block : ℕ} (hinv : PowerInvariant s now) (hnow : now ≤ block)
    (hvoting : PowerStep block .votingPower s s') (hundelegated : Undelegated s')
    (hsupply : SupplyInvariant s') (hzero : s'.holdings 0 = 0)
    (hfits : ∀ x ∈ s'.narrowed, x ∈ s.narrowed ∨ x.val < 2 ^ 128) :
    PowerInvariant s' block where
  coherent t := by
    cases t with
    | votingPower => exact hvoting.coherent (hinv.coherent .votingPower) hnow
    | propositionPower => exact hundelegated.coherent_proposition block
  supply := hsupply
  zero := hzero
  fits x hx := (hfits x hx).elim (hinv.fits x) id

/-- What a call of V1 keeps and tracks. -/
structure VotingStep (block : ℕ) (s s' : Token) : Prop where
  voting : PowerStep block .votingPower s s'
  invariant : PowerInvariant s' block
  undelegated : Undelegated s'

theorem VotingStep.trans {block : ℕ} {s₁ : Token} (hfirst : VotingStep block s s₁)
    (hsecond : VotingStep block s₁ s') : VotingStep block s s' where
  voting := hfirst.voting.trans hsecond.voting
  invariant := hsecond.invariant
  undelegated := hsecond.undelegated

/-- A movement of V1: the hook, then the balances. -/
theorem PlmyToken.votingStep_of_shift {src dst : Address} {amount : Uint256} {s₁ : Token}
    (hinv : PowerInvariant s now) (hundelegated : Undelegated s)
    (hnow : now ≤ env.block.number.val)
    (hbefore : beforeTokenTransfer env src dst amount s = .ok s₁)
    (hdelegates : ∀ t, s'.delegates t = s₁.delegates t)
    (htables : ∀ t, s'.snapshotTable t = s₁.snapshotTable t)
    (hnarrowed : s'.narrowed = s₁.narrowed)
    (hshift : Shift src dst amount.val s.holdings s'.holdings)
    (hsupply : SupplyInvariant s') (hzero : s'.holdings 0 = 0) :
    VotingStep env.block.number.val s s' := by
  have hframe := onlySnapshots_beforeTokenTransfer hbefore
  have hmoved := powerMoved_beforeTokenTransfer hbefore (hinv.coherent .votingPower).sorted hnow
    hshift (fun _ => rfl) (holdings_lt hinv.supply) (holdings_lt hsupply)
  have hsame : ∀ t, s'.delegates t = s.delegates t :=
    fun t => (hdelegates t).trans (hframe.delegates t)
  have hundelegated' : Undelegated s' :=
    hundelegated.of_same hsame ((htables _).trans (hmoved.others _ (by decide)))
  have hvoting : PowerStep env.block.number.val .votingPower s s' := by
    rw [← hundelegated.nobody.delegatedPower_eq .votingPower,
      ← hundelegated'.nobody.delegatedPower_eq .votingPower] at hmoved
    exact .of_powerMoved hmoved rfl (htables _) fun user _ _ => selfDelegated_congr (hsame _)
  refine ⟨hvoting, hinv.stepV1 hnow hvoting hundelegated' hsupply hzero ?_, hundelegated'⟩
  intro x hx
  rw [hnarrowed] at hx
  exact hmoved.fits x hx

theorem votingStep_of_same {block : ℕ} (hinv : PowerInvariant s now)
    (hundelegated : Undelegated s) (hnow : now ≤ block) (hholdings : s'.holdings = s.holdings)
    (hdelegates : ∀ t, s'.delegates t = s.delegates t)
    (htables : ∀ t, s'.snapshotTable t = s.snapshotTable t)
    (hnarrowed : s'.narrowed = s.narrowed) (hsupply : SupplyInvariant s') :
    VotingStep block s s' := by
  have hundelegated' := hundelegated.of_same hdelegates (htables _)
  have hvoting : PowerStep block .votingPower s s' :=
    .of_same hholdings (hdelegates _) (htables _)
  refine ⟨hvoting, hinv.stepV1 hnow hvoting hundelegated' hsupply ?_ ?_, hundelegated'⟩
  · rw [hholdings]
    exact hinv.zero
  · rw [hnarrowed]
    exact fun x hx => Or.inl hx

theorem PlmyToken.votingStep_of_erc20Effect (hinv : PowerInvariant s now)
    (hundelegated : Undelegated s) (hnow : now ≤ env.block.number.val)
    (h : Erc20Effect (beforeTokenTransfer env) s s') :
    VotingStep env.block.number.val s s' := by
  have hsupply := hinv.supply.kept
    (supplyKept_of_erc20Effect (takesSnapshotsOnly env) h)
  cases h with
  | moved hsender hrecipient hbefore hrest henough hmoved =>
      rw [(onlySnapshots_beforeTokenTransfer hbefore).holdings] at hmoved
      refine votingStep_of_shift hinv hundelegated hnow hbefore ?_ ?_ ?_
        (.of_moved hmoved (fun hzero => absurd hzero hsender) hrecipient) hsupply
        (holdings_zero_of_moved hmoved hsender hrecipient hinv.zero)
      · rw [hrest]
        exact fun t => by cases t <;> rfl
      · rw [hrest]
        exact fun t => by cases t <;> rfl
      · rw [hrest]
  | approved hrest =>
      refine votingStep_of_same hinv hundelegated hnow ?_ ?_ ?_ ?_ hsupply
      · rw [hrest]
        rfl
      · rw [hrest]
        exact fun t => by cases t <;> rfl
      · rw [hrest]
        exact fun t => by cases t <;> rfl
      · rw [hrest]

theorem PlmyToken.votingStep_of_mintedIfSet {account : Address} {amount : Uint256}
    (hinv : PowerInvariant s now) (hundelegated : Undelegated s)
    (hnow : now ≤ env.block.number.val) (hsupply : SupplyInvariant s')
    (h : MintedIfSet (beforeTokenTransfer env) account amount s s') :
    VotingStep env.block.number.val s s' := by
  rcases h with hmint | ⟨-, rfl⟩
  · obtain ⟨s₁, hbefore, hrest, -, hholdings⟩ := hmint.hook
    rw [(onlySnapshots_beforeTokenTransfer hbefore).holdings] at hholdings
    refine votingStep_of_shift hinv hundelegated hnow hbefore ?_ ?_ ?_
      (.of_add_single hholdings hmint.account_ne_zero) hsupply ?_
    · rw [hrest]
      exact fun t => by cases t <;> rfl
    · rw [hrest]
      exact fun t => by cases t <;> rfl
    · rw [hrest]
    · rw [hholdings, if_neg hmint.account_ne_zero, hinv.zero]
  · exact votingStep_of_same hinv hundelegated hnow rfl (fun _ => rfl) (fun _ => rfl) rfl hsupply

/-- Every call of V1 tracks voting power, initialisation included. -/
theorem PlmyToken.votingStep_execute {chain : Chain} {call : Call}
    (hinv : PowerInvariant s now) (hundelegated : Undelegated s)
    (hnow : now ≤ env.block.number.val) (h : execute chain env s call = .ok s') :
    VotingStep env.block.number.val s s' := by
  rcases execute_cases h with ⟨_, _, palmyGovernance, -, hinit⟩ | heffect
  · obtain ⟨-, -, hsupply, s₁, hsupply₁, hvesting, hvault⟩ :=
      supplyInvariant_initializeToken hinv.supply hinit
    have hconfigured : VotingStep env.block.number.val s (configured chain palmyGovernance s) :=
      votingStep_of_same hinv hundelegated hnow rfl (fun t => by cases t <;> rfl)
        (fun t => by cases t <;> rfl) rfl
        (supplyInvariant_configured hinv.supply chain palmyGovernance)
    have hfirst := votingStep_of_mintedIfSet hconfigured.invariant hconfigured.undelegated
      le_rfl hsupply₁ hvesting
    exact (hconfigured.trans hfirst).trans
      (votingStep_of_mintedIfSet hfirst.invariant hfirst.undelegated le_rfl hsupply hvault)
  · exact votingStep_of_erc20Effect hinv hundelegated hnow heffect

end V1

end Palmy
