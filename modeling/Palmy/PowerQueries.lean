/-
What governance reads: current powers, powers at past blocks, and their sum.
-/
import Palmy.PowerHistory
import Palmy.PowerSearch

namespace Palmy

open Solidity
open Checkpoint
open Delegation
open GovernancePowerDelegation

section Queries

variable {now : Block} {s : Token} {t : DelegationType}

/-- What `getPowerAtBlock` answers in a sound state. -/
theorem getPowerAtBlock_spec (hcoherent : Coherent s t now.number.val) (user : Address)
    {block : Uint256} (hblock : block ≤ now.number) :
    ∃ value, getPowerAtBlock now user block t s = .ok value ∧
      value.val = if s.history t user = [] then s.holdings user
        else lookup 0 (s.history t user) block.val := by
  obtain ⟨value, hvalue, hval⟩ :=
    searchByBlockNumber_spec (hcoherent.sorted.sorted user) s.balances hblock
  refine ⟨value, hvalue, ?_⟩
  rw [hval]
  by_cases hcount : (s.snapshotTable t).counts user = 0
  · have hnil : s.history t user = [] := SnapshotTable.history_eq_nil_iff.mpr hcount
    rw [if_pos hcount, if_pos hnil]
    rfl
  · have hne : s.history t user ≠ [] := fun hnil =>
      hcount (SnapshotTable.history_eq_nil_iff.mp hnil)
    rw [if_neg hcount, if_neg hne]
    rfl

/-- The current power is the delegated power. -/
theorem getPowerCurrent_spec (hinv : PowerInvariant s now.number.val) (user : Address) :
    ∃ value, getPowerCurrent now user t s = .ok value ∧
      value.val = s.delegatedPower t user := by
  have hcoherent := hinv.coherent t
  obtain ⟨value, hvalue, hval⟩ := getPowerAtBlock_spec hcoherent user (le_refl now.number)
  refine ⟨value, hvalue, ?_⟩
  rw [hval]
  by_cases hnil : s.history t user = []
  · rw [if_pos hnil, hcoherent.delegatedPower_of_nil hinv.zero hnil]
  · rw [if_neg hnil, hcoherent.current user hnil]

end Queries

/-- Initialisation comes first, takes the revision, and blocks never go back. -/
structure StartsInitialised (chain : Chain) (txs : List Tx) : Prop where
  first : ∃ init rest, txs = init :: rest ∧
    (Proxy.run chain [init]).token.lastInitializedRevision ≠ 0
  ordered : Timeline.Ordered Tx.block txs

theorem StartsInitialised.concat {chain : Chain} {txs : List Tx}
    (h : StartsInitialised chain txs) {tx : Tx}
    (hordered : ∀ earlier ∈ txs, earlier.block ≤ tx.block) :
    StartsInitialised chain (txs ++ [tx]) where
  first := by
    obtain ⟨init, rest, rfl, hrevision⟩ := h.first
    exact ⟨init, rest ++ [tx], rfl, hrevision⟩
  ordered := (Timeline.ordered_concat_iff Tx.block).mpr ⟨h.ordered, hordered⟩

theorem RunV1.startsInitialised {chain : Chain} {txs : List Tx} (hrun : RunV1 chain txs) :
    StartsInitialised chain txs := by
  induction hrun with
  | init hinit =>
      obtain ⟨-, hone, -⟩ := supplyInvariant_initializeToken supplyInvariant_genesis hinit
      refine ⟨⟨_, [], rfl, ?_⟩, List.pairwise_singleton _ _⟩
      rw [Proxy.run_initializeV1 hinit, hone]
      decide
  | call hrun hblock ih => exact ih.concat hblock

theorem RunV2.startsInitialised {chain : Chain} {txs : List Tx} (hrun : RunV2 chain txs) :
    StartsInitialised chain txs := by
  induction hrun with
  | upgrade hrun hblock => exact hrun.startsInitialised.concat hblock
  | call hrun hblock ih => exact ih.concat hblock

/-- Voting power answers for the end of every block up to now. -/
theorem votingPower_stateAt {chain : Chain} {txs : List Tx} (hrun : RunV2 chain txs)
    {now : Block} (hnow : ∀ tx ∈ txs, tx.block ≤ now.number.val) (user : Address)
    {block : Uint256} (hblock : block ≤ now.number) :
    ∃ value, getPowerAtBlock now user block .votingPower (Proxy.run chain txs).token =
        .ok value ∧
      value.val =
        (Proxy.stateAt chain txs block.val).token.delegatedPower .votingPower user := by
  have hhistory := hrun.history
  have hinv := hhistory.settled.current hnow
  obtain ⟨value, hvalue, hval⟩ :=
    getPowerAtBlock_spec (hinv.coherent .votingPower) user hblock
  refine ⟨value, hvalue, ?_⟩
  rw [hval, ← hhistory.voting user block.val]
  by_cases hnil : (Proxy.run chain txs).token.history .votingPower user = []
  · -- a user without snapshots never had any power, and its balance is its power
    have hcurrent := hhistory.voting user now.number.val
    rw [Proxy.stateAt_of_forall_le chain hnow] at hcurrent
    rw [hnil, (hinv.coherent .votingPower).delegatedPower_of_nil hinv.zero hnil] at hcurrent
    rw [if_pos hnil, hnil, ← hcurrent]
    rfl
  · rw [if_neg hnil]

/-- Power is what the delegators hold.  In every state of V2 the current power of
a user, of either type, is the sum of the balances delegated to it, and no value
on its way into a snapshot has lost a bit. -/
theorem current_power_is_delegated_balances {chain : Chain} {txs : List Tx}
    (hrun : RunV2 chain txs) (now : Block) (hnow : ∀ tx ∈ txs, tx.block ≤ now.number.val) :
    (∀ t user, ∃ value,
      getPowerCurrent now user t (Proxy.run chain txs).token = .ok value ∧
      value.val = ∑ d with getDelegateeByType d t (Proxy.run chain txs).token = user,
        ((Proxy.run chain txs).token.balances d).val) ∧
      ∀ x ∈ (Proxy.run chain txs).token.narrowed, (uint128 x).val = x.val := by
  have hinv := hrun.history.settled.current hnow
  exact ⟨fun t user => getPowerCurrent_spec hinv user,
    fun x hx => uint128_val_of_lt (hinv.fits x hx)⟩

/-- On a run in which Alice delegates her vote to Bob. -/
theorem current_power_is_delegated_balances_sample :
    ∃ value, getPowerCurrent (Sample.block 6) Sample.bob .votingPower
        (Proxy.run Sample.chain Sample.txs).token = .ok value ∧
      value.val = ∑ d with getDelegateeByType d .votingPower
          (Proxy.run Sample.chain Sample.txs).token = Sample.bob,
        ((Proxy.run Sample.chain Sample.txs).token.balances d).val :=
  (current_power_is_delegated_balances Sample.runV2_txs (Sample.block 6)
    (by decide)).1 .votingPower Sample.bob

/-- Voting power at a past block is the truth of that block.  It is the sum of the
balances delegated to the user when the block ended; in blocks of V1 that is the
user's own balance; and once the block is over no later run changes the answer. -/
theorem voting_power_at_block_is_true {chain : Chain} {txs : List Tx}
    (hrun : RunV2 chain txs) (now : Block) (hnow : ∀ tx ∈ txs, tx.block ≤ now.number.val)
    (user : Address) (block : Uint256) (hblock : block ≤ now.number) :
    (∃ value, getPowerAtBlock now user block .votingPower (Proxy.run chain txs).token =
        .ok value ∧
      value.val = ∑ d with getDelegateeByType d .votingPower
          (Proxy.stateAt chain txs block.val).token = user,
        ((Proxy.stateAt chain txs block.val).token.balances d).val ∧
      ((Proxy.stateAt chain txs block.val).implementation = .plmyToken →
        value = (Proxy.stateAt chain txs block.val).token.balances user)) ∧
      ∀ later : List Tx, RunV2 chain (txs ++ later) →
        (∀ tx ∈ later, block.val < tx.block) →
        ∀ now' : Block, (∀ tx ∈ txs ++ later, tx.block ≤ now'.number.val) →
        block ≤ now'.number →
        getPowerAtBlock now' user block .votingPower
            (Proxy.run chain (txs ++ later)).token =
          getPowerAtBlock now user block .votingPower (Proxy.run chain txs).token := by
  obtain ⟨value, hvalue, hval⟩ := votingPower_stateAt hrun hnow user hblock
  refine ⟨⟨value, hvalue, hval, ?_⟩, ?_⟩
  · intro hV1
    have hundelegated := hrun.history.era block.val hV1
    rw [hundelegated.nobody.delegatedPower_eq] at hval
    exact Fin.ext hval
  · intro later hrun' hlater now' hnow' hblock'
    obtain ⟨value', hvalue', hval'⟩ := votingPower_stateAt hrun' hnow' user hblock'
    have hsame : Proxy.stateAt chain (txs ++ later) block.val =
        Proxy.stateAt chain txs block.val :=
      Timeline.stateAt_append_of_lt _ _ _ txs hlater
    rw [hsame, ← hval] at hval'
    rw [hvalue, hvalue', Fin.ext hval']

/-- Block 2 of the sample run still belongs to V1. -/
theorem voting_power_at_block_is_true_sample :
    ∃ value, getPowerAtBlock (Sample.block 6) Sample.alice 2 .votingPower
        (Proxy.run Sample.chain Sample.txs).token = .ok value ∧
      value = (Proxy.stateAt Sample.chain Sample.txs 2).token.balances Sample.alice := by
  obtain ⟨value, hvalue, -, hV1⟩ := (voting_power_at_block_is_true Sample.runV2_txs
    (Sample.block 6) (by decide) Sample.alice 2 (by decide)).1
  exact ⟨value, hvalue, hV1 rfl⟩

/-- No voting power is lost or counted twice.  At every block since the
initialisation the voting powers of all users add up to the total supply. -/
theorem voting_powers_sum_to_supply {chain : Chain} {txs : List Tx}
    (hrun : RunV2 chain txs) (now : Block) (hnow : ∀ tx ∈ txs, tx.block ≤ now.number.val)
    (block : Uint256) (hblock : block ≤ now.number)
    (hinitialised : ∀ init ∈ txs.head?, init.block ≤ block.val) :
    ∃ powers : Address → Uint256,
      (∀ user, getPowerAtBlock now user block .votingPower (Proxy.run chain txs).token =
        .ok (powers user)) ∧
      ∑ user, (powers user).val =
        (totalSupplyAt block (Proxy.run chain txs).token).val := by
  have hpowers := fun user => votingPower_stateAt hrun hnow user hblock
  choose powers hpowers hval using hpowers
  refine ⟨powers, hpowers, ?_⟩
  have hstarts := hrun.startsInitialised
  obtain ⟨init, rest, rfl, hrevision⟩ := hstarts.first
  have hsupply := Proxy.totalSupply_stateAt chain [] hstarts.ordered hrevision
    (hinitialised init rfl)
  have hinv : SupplyInvariant (Proxy.stateAt chain (init :: rest) block.val).token :=
    Proxy.run_supplyInvariant chain _
  calc ∑ user, (powers user).val
      = ∑ user, (Proxy.stateAt chain (init :: rest) block.val).token.delegatedPower
          .votingPower user := Finset.sum_congr rfl fun user _ => hval user
    _ = ∑ d, (Proxy.stateAt chain (init :: rest) block.val).token.holdings d :=
        sum_power _ _
    _ = (Proxy.stateAt chain (init :: rest) block.val).token.totalSupply.val := hinv.total
    _ = (totalSupplyAt block (Proxy.run chain (init :: rest)).token).val :=
        congrArg Fin.val hsupply

/-- On the sample run, at the block of its initialisation. -/
theorem voting_powers_sum_to_supply_sample :
    ∃ powers : Address → Uint256,
      (∀ user, getPowerAtBlock (Sample.block 6) user 1 .votingPower
        (Proxy.run Sample.chain Sample.txs).token = .ok (powers user)) ∧
      ∑ user, (powers user).val =
        (totalSupplyAt 1 (Proxy.run Sample.chain Sample.txs).token).val :=
  voting_powers_sum_to_supply Sample.runV2_txs (Sample.block 6) (by decide) 1
    (by decide) (by decide)

end Palmy
