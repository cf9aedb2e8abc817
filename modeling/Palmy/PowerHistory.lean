/-
Power over whole runs: V1 from its initialisation, one upgrade, and V2 after it.
The snapshots answer for the end of every past block, across the upgrade.
-/
import Palmy.PowerSteps

namespace Palmy

open Solidity
open Checkpoint
open Tracking
open GovernancePowerDelegation

theorem powerInvariant_genesis (now : ℕ) : PowerInvariant .genesis now where
  coherent t := by
    have hself : ∀ user, SelfDelegated .genesis t user := fun user d => by
      cases t <;> simp [getDelegateeByType, getDelegatee, Token.genesis, Token.delegates]
    cases t <;> exact
      { sorted := ⟨fun _ => List.Pairwise.nil, fun _ _ h => absurd h List.not_mem_nil⟩
        current := fun _ hne => absurd rfl hne
        fresh := fun user _ _ => hself user
        zero := rfl }
  supply := supplyInvariant_genesis
  zero := rfl
  fits x hx := absurd hx List.not_mem_nil

theorem undelegated_genesis : Undelegated .genesis where
  nobody t _ := by cases t <;> rfl
  proposition _ := rfl

theorem PowerInvariant.mono {s : Token} {now later : ℕ} (hinv : PowerInvariant s now)
    (hle : now ≤ later) : PowerInvariant s later where
  coherent t := (hinv.coherent t).mono hle
  supply := hinv.supply
  zero := hinv.zero
  fits := hinv.fits

namespace Proxy

variable (chain : Chain)

/-- A call succeeds when the implementation's does, and commits its token. -/
theorem execute_call (p : Proxy) {tx : Tx} {call : Call} (haction : tx.action = .call call) :
    (Succeeds (execute chain p tx) ↔
        Succeeds (p.implementation.execute chain tx.env p.token call)) ∧
      (step chain p tx).token =
        commit p.token (p.implementation.execute chain tx.env p.token call) := by
  have hexecute : execute chain p tx = (do
      let token ← p.implementation.execute chain tx.env p.token call
      return { p with token := token }) := by
    simp only [execute, haction]
  rw [step, hexecute]
  cases p.implementation.execute chain tx.env p.token call with
  | ok token => exact ⟨⟨fun _ => succeeds_ok _, fun _ => succeeds_ok _⟩, rfl⟩
  | error e =>
      exact ⟨⟨fun h => absurd h (not_succeeds_error _), fun h => absurd h (not_succeeds_error _)⟩,
        rfl⟩

theorem step_votingStep {p : Proxy} (tx : Tx) {call : Call}
    (himplementation : p.implementation = .plmyToken) (haction : tx.action = .call call)
    (hinv : PowerInvariant p.token tx.block) (hundelegated : Undelegated p.token) :
    (step chain p tx).implementation = .plmyToken ∧
      VotingStep tx.block p.token (step chain p tx).token := by
  rcases commit_cases p (execute chain p tx) with hsame | hok
  · rw [step, hsame]
    exact ⟨himplementation, votingStep_of_same hinv hundelegated le_rfl rfl (fun _ => rfl)
      (fun _ => rfl) rfl hinv.supply⟩
  · rw [← step] at hok
    simp only [execute, haction, himplementation, Implementation.execute, bind_eq_ok,
      pure_eq_ok] at hok
    obtain ⟨token, hcall, heq⟩ := hok
    rw [← heq]
    exact ⟨rfl, PlmyToken.votingStep_execute hinv hundelegated le_rfl hcall⟩

theorem step_powerStep {p : Proxy} (tx : Tx) {call : Call}
    (himplementation : p.implementation = .plmyTokenV2) (haction : tx.action = .call call)
    (hinv : PowerInvariant p.token tx.block) :
    (step chain p tx).implementation = .plmyTokenV2 ∧
      (∀ t, PowerStep tx.block t p.token (step chain p tx).token) ∧
      PowerInvariant (step chain p tx).token tx.block := by
  rcases commit_cases p (execute chain p tx) with hsame | hok
  · rw [step, hsame]
    exact ⟨himplementation, fun _ => .of_same rfl rfl rfl, hinv⟩
  · rw [← step] at hok
    simp only [execute, haction, himplementation, Implementation.execute, bind_eq_ok,
      pure_eq_ok] at hok
    obtain ⟨token, hcall, heq⟩ := hok
    rw [← heq]
    obtain ⟨hsteps, hinv'⟩ := PlmyTokenV2.powerStep_execute hinv le_rfl hcall
    exact ⟨rfl, hsteps, hinv'⟩

theorem step_upgradeTo (p : Proxy) (tx : Tx) {implementation : Implementation}
    (haction : tx.action = .upgradeTo implementation) :
    step chain p tx = { p with implementation := implementation } := by
  simp only [step, execute, haction]
  rfl

variable {txs : List Tx}

/-- The voting snapshots answer for the end of every block. -/
def VotingRecorded (txs : List Tx) : Prop :=
  ∀ user block, lookup 0 ((run chain txs).token.history .votingPower user) block =
    (stateAt chain txs block).token.delegatedPower .votingPower user

/-- The proposition snapshots answer for the end of every block of V2, if the
power each user had at the upgrade stands in before its first snapshot. -/
def PropositionRecorded (txs : List Tx) : Prop :=
  ∃ initial : Address → ℕ, ∀ user block,
    (stateAt chain txs block).implementation = .plmyTokenV2 →
    lookup (initial user) ((run chain txs).token.history .propositionPower user) block =
        (stateAt chain txs block).token.delegatedPower .propositionPower user ∧
      ((run chain txs).token.history .propositionPower user).filter
          (fun entry => entry.1 ≤ block) =
        (stateAt chain txs block).token.history .propositionPower user

/-- The invariant holds at the end of every block. -/
def PowerSettled (txs : List Tx) : Prop :=
  ∀ block, PowerInvariant (stateAt chain txs block).token block

/-- In every block that ended under V1 nobody had delegated. -/
def UndelegatedEra (txs : List Tx) : Prop :=
  ∀ block, (stateAt chain txs block).implementation = .plmyToken →
    Undelegated (stateAt chain txs block).token

/-- What a run of V1 establishes. -/
structure HistoryV1 (txs : List Tx) : Prop where
  implementation : (run chain txs).implementation = .plmyToken
  undelegated : Undelegated (run chain txs).token
  settled : PowerSettled chain txs
  voting : VotingRecorded chain txs
  era : UndelegatedEra chain txs
  eraV1 : ∀ block, (stateAt chain txs block).implementation = .plmyToken

/-- What a run through the upgrade establishes. -/
structure HistoryV2 (txs : List Tx) : Prop where
  implementation : (run chain txs).implementation = .plmyTokenV2
  settled : PowerSettled chain txs
  voting : VotingRecorded chain txs
  proposition : PropositionRecorded chain txs
  era : UndelegatedEra chain txs

theorem stateAt_of_forall_le {now : ℕ} (hnow : ∀ tx ∈ txs, tx.block ≤ now) :
    stateAt chain txs now = run chain txs :=
  Timeline.stateAt_of_forall_le _ _ _ hnow

variable {chain} in
theorem PowerSettled.current (hsettled : PowerSettled chain txs) {now : ℕ}
    (hnow : ∀ tx ∈ txs, tx.block ≤ now) : PowerInvariant (run chain txs).token now := by
  rw [← stateAt_of_forall_le chain hnow]
  exact hsettled now

section Snoc

variable {chain} {tx : Tx} (hordered : ∀ earlier ∈ txs, earlier.block ≤ tx.block)
include hordered

theorem stateAt_concat_of_le {block : ℕ} (hle : tx.block ≤ block) :
    stateAt chain (txs ++ [tx]) block = run chain (txs ++ [tx]) :=
  Timeline.stateAt_of_forall_le _ _ _ (Timeline.forall_le_of_last hordered hle)

omit hordered in
theorem stateAt_concat_of_lt {block : ℕ} (hlt : block < tx.block) :
    stateAt chain (txs ++ [tx]) block = stateAt chain txs block :=
  Timeline.stateAt_concat_of_lt _ _ _ txs hlt

theorem PowerSettled.concat (hsettled : PowerSettled chain txs)
    (hinv : PowerInvariant (run chain (txs ++ [tx])).token tx.block) :
    PowerSettled chain (txs ++ [tx]) := by
  intro block
  by_cases hlt : block < tx.block
  · rw [stateAt_concat_of_lt hlt]
    exact hsettled block
  · rw [stateAt_concat_of_le hordered (Nat.le_of_not_lt hlt)]
    exact hinv.mono (Nat.le_of_not_lt hlt)

theorem VotingRecorded.concat (hvoting : VotingRecorded chain txs)
    (hstep : PowerStep tx.block .votingPower (run chain txs).token
      (run chain (txs ++ [tx])).token) : VotingRecorded chain (txs ++ [tx]) := by
  intro user block
  exact lookup_stateAt_concat (fun p : Proxy => p.token.history .votingPower user)
    (fun p => p.token.delegatedPower .votingPower user) hordered (hstep.tracked user)
    (hvoting user block)

theorem UndelegatedEra.concat (hera : UndelegatedEra chain txs)
    (hlast : (run chain (txs ++ [tx])).implementation = .plmyToken →
      Undelegated (run chain (txs ++ [tx])).token) : UndelegatedEra chain (txs ++ [tx]) := by
  intro block himplementation
  by_cases hlt : block < tx.block
  · rw [stateAt_concat_of_lt hlt] at himplementation ⊢
    exact hera block himplementation
  · rw [stateAt_concat_of_le hordered (Nat.le_of_not_lt hlt)] at himplementation ⊢
    exact hlast himplementation

theorem PropositionRecorded.concat (hproposition : PropositionRecorded chain txs)
    (himplementation : (run chain txs).implementation = .plmyTokenV2)
    (hinv : PowerInvariant (run chain (txs ++ [tx])).token tx.block)
    (hstep : PowerStep tx.block .propositionPower (run chain txs).token
      (run chain (txs ++ [tx])).token) : PropositionRecorded chain (txs ++ [tx]) := by
  obtain ⟨initial, hinitial⟩ := hproposition
  refine ⟨initial, fun user block hblock => ?_⟩
  have hbefore : (stateAt chain txs block).implementation = .plmyTokenV2 := by
    by_cases hlt : block < tx.block
    · rwa [stateAt_concat_of_lt hlt] at hblock
    · rw [stateAt_of_forall_le chain fun earlier hearlier =>
        (hordered earlier hearlier).trans (Nat.le_of_not_lt hlt)]
      exact himplementation
  obtain ⟨hlookup, hfilter⟩ := hinitial user block hbefore
  refine ⟨?_, ?_⟩
  · exact lookup_stateAt_concat (fun p : Proxy => p.token.history .propositionPower user)
      (fun p => p.token.delegatedPower .propositionPower user) hordered (hstep.tracked user)
      hlookup
  · exact filter_stateAt_concat (fun p : Proxy => p.token.history .propositionPower user)
      (fun p => p.token.delegatedPower .propositionPower user) hordered (hstep.tracked user)
      ((hinv.coherent .propositionPower).sorted.le_now user) hfilter

/-- The upgrade: nothing is recorded yet, and balances are the initial powers. -/
theorem PropositionRecorded.of_upgrade
    (hera : ∀ block, (stateAt chain txs block).implementation = .plmyToken)
    (hundelegated : Undelegated (run chain (txs ++ [tx])).token) :
    PropositionRecorded chain (txs ++ [tx]) := by
  refine ⟨(run chain (txs ++ [tx])).token.delegatedPower .propositionPower, ?_⟩
  intro user block hblock
  by_cases hlt : block < tx.block
  · rw [stateAt_concat_of_lt hlt, hera block] at hblock
    cases hblock
  · rw [stateAt_concat_of_le hordered (Nat.le_of_not_lt hlt), hundelegated.proposition]
    exact ⟨lookup_nil _ _, List.filter_nil⟩

end Snoc

theorem historyV1_nil : HistoryV1 chain [] where
  implementation := rfl
  undelegated := undelegated_genesis
  settled block := powerInvariant_genesis block
  voting user block := by
    have hpower := undelegated_genesis.nobody.delegatedPower_eq .votingPower
    change 0 = Token.genesis.delegatedPower .votingPower user
    rw [hpower]
    rfl
  era _ _ := undelegated_genesis
  eraV1 _ := rfl

variable {chain}

theorem HistoryV1.concat {env : Env} {call : Call} (h : HistoryV1 chain txs)
    (hordered : ∀ earlier ∈ txs, earlier.block ≤ env.block.number.val) :
    HistoryV1 chain (txs ++ [⟨env, .call call⟩]) := by
  have hlast := step_votingStep chain ⟨env, .call call⟩ h.implementation rfl
    (h.settled.current hordered) h.undelegated
  rw [← run_concat] at hlast
  obtain ⟨himplementation, hstep⟩ := hlast
  refine ⟨himplementation, hstep.undelegated, h.settled.concat hordered hstep.invariant,
    h.voting.concat hordered hstep.voting, h.era.concat hordered fun _ => hstep.undelegated, ?_⟩
  intro block
  by_cases hlt : block < env.block.number.val
  · rw [stateAt_concat_of_lt hlt]
    exact h.eraV1 block
  · rw [stateAt_concat_of_le hordered (Nat.le_of_not_lt hlt)]
    exact himplementation

/-- The upgrade changes the implementation and no storage. -/
theorem HistoryV1.upgrade {env : Env} (h : HistoryV1 chain txs)
    (hordered : ∀ earlier ∈ txs, earlier.block ≤ env.block.number.val) :
    HistoryV2 chain (txs ++ [⟨env, .upgradeTo .plmyTokenV2⟩]) := by
  have hlast := step_upgradeTo chain (run chain txs)
    ⟨env, .upgradeTo .plmyTokenV2⟩ rfl
  rw [← run_concat] at hlast
  have htoken : (run chain (txs ++ [⟨env, .upgradeTo .plmyTokenV2⟩])).token =
      (run chain txs).token := by rw [hlast]
  have hundelegated : Undelegated (run chain (txs ++ [⟨env, .upgradeTo .plmyTokenV2⟩])).token := by
    rw [htoken]
    exact h.undelegated
  refine ⟨by rw [hlast], h.settled.concat hordered ?_, h.voting.concat hordered ?_,
    .of_upgrade hordered h.eraV1 hundelegated, h.era.concat hordered fun _ => hundelegated⟩
  · rw [htoken]
    exact h.settled.current hordered
  · rw [htoken]
    exact .of_same rfl rfl rfl

theorem HistoryV2.concat {env : Env} {call : Call} (h : HistoryV2 chain txs)
    (hordered : ∀ earlier ∈ txs, earlier.block ≤ env.block.number.val) :
    HistoryV2 chain (txs ++ [⟨env, .call call⟩]) := by
  have hlast := step_powerStep chain ⟨env, .call call⟩ h.implementation rfl
    (h.settled.current hordered)
  rw [← run_concat] at hlast
  obtain ⟨himplementation, hsteps, hinv⟩ := hlast
  refine ⟨himplementation, h.settled.concat hordered hinv, h.voting.concat hordered (hsteps _),
    h.proposition.concat hordered h.implementation hinv (hsteps _), h.era.concat hordered ?_⟩
  intro hV1
  rw [himplementation] at hV1
  cases hV1

end Proxy

theorem RunV1.history {chain : Chain} {txs : List Tx} (hrun : RunV1 chain txs) :
    Proxy.HistoryV1 chain txs := by
  induction hrun with
  | init hinit => exact (Proxy.historyV1_nil chain).concat fun _ hnone => absurd hnone List.not_mem_nil
  | call hrun hblock ih => exact ih.concat hblock

theorem Proxy.run_initializeV1 {chain : Chain} {env : Env}
    {vestingAddress vaultAddress palmyGovernance : Address} {s : Token}
    (hinit : PlmyToken.initializeToken chain env vestingAddress vaultAddress palmyGovernance
      .genesis = .ok s) :
    run chain [⟨env, .call (.initializeV1 vestingAddress vaultAddress palmyGovernance)⟩] =
      ⟨.plmyToken, s⟩ := by
  simp only [run, Timeline.run, List.foldl_cons, List.foldl_nil, step, execute, genesis,
    Implementation.execute, PlmyToken.execute, hinit, ok_bind]
  rfl

/-- V1 stays at the revision its initialisation took. -/
theorem RunV1.revision {chain : Chain} {txs : List Tx} (hrun : RunV1 chain txs) :
    (Proxy.run chain txs).token.lastInitializedRevision = 1 := by
  induction hrun with
  | init hinit =>
      obtain ⟨-, hone, -⟩ := supplyInvariant_initializeToken supplyInvariant_genesis hinit
      rw [Proxy.run_initializeV1 hinit]
      exact hone
  | @call txs env call hrun hblock ih =>
      rw [Proxy.run_concat, (Proxy.execute_call chain _ rfl).2, hrun.history.implementation]
      rcases commit_cases (Proxy.run chain txs).token
        (PlmyToken.execute chain env (Proxy.run chain txs).token call) with hsame | hok
      · exact (congrArg Token.lastInitializedRevision hsame).trans ih
      · rcases PlmyToken.execute_cases hok with ⟨_, _, _, -, hinit⟩ | heffect
        · -- a second initialisation cannot succeed
          have hzero := (PlmyToken.initializeToken_cases hinit).1
          rw [ih] at hzero
          exact absurd hzero (by decide)
        · exact (heffect.frame (PlmyToken.takesSnapshotsOnly env)).2.2.trans ih

theorem RunV2.history {chain : Chain} {txs : List Tx} (hrun : RunV2 chain txs) :
    Proxy.HistoryV2 chain txs := by
  induction hrun with
  | upgrade hrun hblock => exact hrun.history.upgrade hblock
  | call hrun hblock ih => exact ih.concat hblock

section UpgradeRuns

variable {chain : Chain} {implementation : Implementation} {txs : List Tx}

theorem UpgradeRun.history (hrun : UpgradeRun chain implementation txs) :
    match implementation with
    | .plmyToken => Proxy.HistoryV1 chain txs
    | .plmyTokenV2 => Proxy.HistoryV2 chain txs := by
  induction hrun with
  | deployed => exact Proxy.historyV1_nil chain
  | @call implementation txs env call hrun hblock ih =>
      cases implementation with
      | plmyToken => exact ih.concat hblock
      | plmyTokenV2 => exact ih.concat hblock
  | upgrade hrun hblock ih => exact ih.upgrade hblock

theorem UpgradeRun.implementation_eq (hrun : UpgradeRun chain implementation txs) :
    (Proxy.run chain txs).implementation = implementation := by
  have hhistory := hrun.history
  cases implementation with
  | plmyToken => exact hhistory.implementation
  | plmyTokenV2 => exact hhistory.implementation

/-- The power invariant holds after every run. -/
theorem UpgradeRun.powerInvariant (hrun : UpgradeRun chain implementation txs) {now : ℕ}
    (hnow : ∀ tx ∈ txs, tx.block ≤ now) : PowerInvariant (Proxy.run chain txs).token now := by
  have hhistory := hrun.history
  cases implementation with
  | plmyToken => exact hhistory.settled.current hnow
  | plmyTokenV2 => exact hhistory.settled.current hnow

end UpgradeRuns

end Palmy
