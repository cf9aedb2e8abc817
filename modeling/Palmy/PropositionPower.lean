/-
Proposition power at past blocks.  Its snapshots start empty at the upgrade while
balances do not, and before a user's first snapshot the search answers zero.
-/
import Palmy.Availability

namespace Palmy

open Solidity
open Checkpoint
open GovernancePowerDelegation

/-- The answer about a block of V2, in three cases: nothing was recorded to this
day, something was recorded by the end of the block, or only later. -/
theorem propositionPower_answer {chain : Chain} {txs : List Tx} (hrun : RunV2 chain txs)
    {now : Block} (hnow : ∀ tx ∈ txs, tx.block ≤ now.number.val) (user : Address)
    {block : Uint256} (hblock : block ≤ now.number)
    (hupgraded : (Proxy.stateAt chain txs block.val).implementation = .plmyTokenV2) :
    ∃ answer, getPowerAtBlock now user block .propositionPower (Proxy.run chain txs).token =
        .ok answer ∧
      ((Proxy.run chain txs).token.history .propositionPower user = [] →
        answer.val = (Proxy.stateAt chain txs block.val).token.delegatedPower
          .propositionPower user) ∧
      ((Proxy.stateAt chain txs block.val).token.history .propositionPower user ≠ [] →
        answer.val = (Proxy.stateAt chain txs block.val).token.delegatedPower
          .propositionPower user) ∧
      ((Proxy.run chain txs).token.history .propositionPower user ≠ [] →
        (Proxy.stateAt chain txs block.val).token.history .propositionPower user = [] →
        answer.val = 0 ∧
          (Proxy.stateAt chain txs block.val).token.delegatedPower .propositionPower user =
            (Proxy.stateAt chain txs block.val).token.holdings user) := by
  have hhistory := hrun.history
  have hinv := hhistory.settled.current hnow
  have hpast := hhistory.settled block.val
  obtain ⟨initial, hinitial⟩ := hhistory.proposition
  obtain ⟨hlookup, hfilter⟩ := hinitial user block.val hupgraded
  obtain ⟨answer, hanswer, hval⟩ :=
    getPowerAtBlock_spec (hinv.coherent .propositionPower) user hblock
  refine ⟨answer, hanswer, ?_, ?_, ?_⟩
  · -- the balance of today is the power at the upgrade, and so is every power since
    intro hnil
    have hupgradedNow : (Proxy.stateAt chain txs now.number.val).implementation =
        .plmyTokenV2 := by
      rw [Proxy.stateAt_of_forall_le chain hnow]
      exact hhistory.implementation
    have hcurrent := (hinitial user now.number.val hupgradedNow).1
    rw [Proxy.stateAt_of_forall_le chain hnow, hnil,
      (hinv.coherent .propositionPower).delegatedPower_of_nil hinv.zero hnil] at hcurrent
    rw [hval, if_pos hnil, ← hlookup, hnil, ← hcurrent]
    rfl
  · -- some entry is old enough, so the default does not matter
    intro hthen
    have hne : (Proxy.run chain txs).token.history .propositionPower user ≠ [] := by
      intro hnil
      rw [hnil] at hfilter
      exact hthen hfilter.symm
    rw [hval, if_neg hne, ← hlookup]
    exact lookup_default_irrelevant 0 (initial user) (by rwa [hfilter])
  · -- no entry is old enough, so the search answers with its implicit zero
    intro hne hthen
    rw [hthen] at hfilter
    rw [hval, if_neg hne, lookup_of_filter_nil 0 hfilter]
    exact ⟨rfl, (hpast.coherent .propositionPower).delegatedPower_of_nil hpast.zero hthen⟩

/-- The answer of one state about a block of V2 is the truth exactly when the user
held nothing at its end, or had a snapshot by then, or has none to this day. -/
theorem propositionPower_true_iff {chain : Chain} {txs : List Tx}
    (hrun : RunV2 chain txs) {now : Block} (hnow : ∀ tx ∈ txs, tx.block ≤ now.number.val)
    (user : Address) {block : Uint256}
    (hupgraded : (Proxy.stateAt chain txs block.val).implementation = .plmyTokenV2)
    (hfinished : block < now.number) :
    (∃ value, getPowerAtBlock now user block .propositionPower (Proxy.run chain txs).token =
        .ok value ∧
      value.val = ∑ d with getDelegateeByType d .propositionPower
          (Proxy.stateAt chain txs block.val).token = user,
        ((Proxy.stateAt chain txs block.val).token.balances d).val) ↔
      (Proxy.stateAt chain txs block.val).token.balances user = 0 ∨
      (Proxy.stateAt chain txs block.val).token.propositionPowerSnapshots.counts user ≠ 0 ∨
      (Proxy.run chain txs).token.propositionPowerSnapshots.counts user = 0 := by
  obtain ⟨answer, hanswer, hnever, hthen, hlater⟩ :=
    propositionPower_answer hrun hnow user hfinished.le hupgraded
  have hcount : ∀ s : Token, s.propositionPowerSnapshots.counts user = 0 ↔
      s.history .propositionPower user = [] :=
    fun _ => SnapshotTable.history_eq_nil_iff.symm
  have hzero : (Proxy.stateAt chain txs block.val).token.balances user = 0 ↔
      (Proxy.stateAt chain txs block.val).token.holdings user = 0 := Fin.ext_iff
  rw [ne_eq, hcount, hcount, hzero]
  constructor
  · rintro ⟨value, hvalue, htruth⟩
    by_cases hrecorded : (Proxy.run chain txs).token.history .propositionPower user = []
    · exact Or.inr (Or.inr hrecorded)
    by_cases hold : (Proxy.stateAt chain txs block.val).token.history .propositionPower user = []
    · obtain ⟨hanswerZero, hpower⟩ := hlater hrecorded hold
      rw [hanswer] at hvalue
      cases hvalue
      exact Or.inl (hpower.symm.trans (htruth.symm.trans hanswerZero))
    · exact Or.inr (Or.inl hold)
  · intro hcondition
    refine ⟨answer, hanswer, ?_⟩
    by_cases hrecorded : (Proxy.run chain txs).token.history .propositionPower user = []
    · exact hnever hrecorded
    by_cases hold : (Proxy.stateAt chain txs block.val).token.history .propositionPower user = []
    · obtain ⟨hanswerZero, hpower⟩ := hlater hrecorded hold
      have hempty : (Proxy.stateAt chain txs block.val).token.holdings user = 0 := by
        rcases hcondition with hempty | hne | hnil
        · exact hempty
        · exact absurd hold hne
        · exact absurd hnil hrecorded
      exact hanswerZero.trans (hpower.trans hempty).symm
    · exact hthen hold

/-- Whoever else delegates to a user leaves it with a snapshot. -/
theorem history_ne_nil_of_delegateByType {t : DelegationType} {env : Env} {s s' : Token}
    {now : ℕ} {user : Address} (hinv : PowerInvariant s' now) (huser : user ≠ 0)
    (hother : env.msgSender ≠ user) (h : delegateByType env user t s = .ok s') :
    s'.history t user ≠ [] := by
  intro hnil
  have hdelegatee : getDelegateeByType env.msgSender t s' = user := by
    have hprofile := congrFun (profile_delegateByTypeInternal h) env.msgSender
    rwa [Function.update_self] at hprofile
  exact hother (((hinv.coherent t).fresh user huser hnil env.msgSender).mp hdelegatee)

/-- In the current block anybody can give a user its first snapshot. -/
theorem exists_later_snapshot {chain : Chain} {txs : List Tx} (hrun : RunV2 chain txs)
    (now : Block) (hnow : ∀ tx ∈ txs, tx.block ≤ now.number.val) {user : Address}
    (huser : user ≠ 0) :
    ∃ tx : Tx, tx.block = now.number.val ∧ RunV2 chain (txs ++ [tx]) ∧
      (Proxy.run chain (txs ++ [tx])).token.history .propositionPower user ≠ [] := by
  obtain ⟨stranger, hstranger⟩ : ∃ stranger : Address, stranger ≠ user := by
    by_cases hone : user = .ofNat 1
    · exact ⟨.ofNat 2, hone ▸ by decide⟩
    · exact ⟨.ofNat 1, Ne.symm hone⟩
  have hinv := hrun.history.settled.current hnow
  let env : Env := ⟨stranger, now, fun _ _ _ _ => .ok ()⟩
  obtain ⟨s', hdelegate⟩ : Succeeds (delegateByType env user .propositionPower
      (Proxy.run chain txs).token) := succeeds_delegateByTypeInternal hinv le_rfl huser
  have hlater : RunV2 chain (txs ++ [⟨env, .call (.delegateByType user .propositionPower)⟩]) :=
    hrun.call hnow
  have htoken : (Proxy.run chain
      (txs ++ [⟨env, .call (.delegateByType user .propositionPower)⟩])).token = s' := by
    rw [Proxy.run_concat, (Proxy.execute_call chain _ rfl).2, hrun.history.implementation]
    change commit _ (delegateByType env user .propositionPower _) = s'
    rw [hdelegate, commit_ok]
  refine ⟨⟨env, .call (.delegateByType user .propositionPower)⟩, rfl, hlater, ?_⟩
  have hinv' := hlater.history.settled.current (Timeline.forall_le_of_last hnow le_rfl)
  rw [htoken] at hinv' ⊢
  exact history_ne_nil_of_delegateByType hinv' huser hstranger hdelegate

/-- Proposition power of a finished block of V2 is the truth of that block, and is
never rewritten, exactly when the user held nothing at its end or had a snapshot
by then.  Otherwise the answer holds until the first snapshot, which anybody can
bring about, and is zero from then on. -/
theorem proposition_power_at_block_iff {chain : Chain} {txs : List Tx}
    (hrun : RunV2 chain txs) (now : Block) (hnow : ∀ tx ∈ txs, tx.block ≤ now.number.val)
    (user : Address) (block : Uint256)
    (hupgraded : (Proxy.stateAt chain txs block.val).implementation = .plmyTokenV2)
    (hfinished : block < now.number) :
    (∃ value : Uint256,
      value.val = ∑ d with getDelegateeByType d .propositionPower
          (Proxy.stateAt chain txs block.val).token = user,
        ((Proxy.stateAt chain txs block.val).token.balances d).val ∧
      ∀ later : List Tx, RunV2 chain (txs ++ later) →
        (∀ tx ∈ later, block.val < tx.block) →
        ∀ now' : Block, (∀ tx ∈ txs ++ later, tx.block ≤ now'.number.val) →
        block < now'.number →
        getPowerAtBlock now' user block .propositionPower
          (Proxy.run chain (txs ++ later)).token = .ok value) ↔
      (Proxy.stateAt chain txs block.val).token.balances user = 0 ∨
      (Proxy.stateAt chain txs block.val).token.propositionPowerSnapshots.counts user ≠ 0 := by
  have hsame : ∀ later : List Tx, (∀ tx ∈ later, block.val < tx.block) →
      Proxy.stateAt chain (txs ++ later) block.val = Proxy.stateAt chain txs block.val :=
    fun later hlater => Timeline.stateAt_append_of_lt _ _ _ txs hlater
  constructor
  · rintro ⟨value, htruth, hanswers⟩
    by_contra hcondition
    rw [not_or, not_not] at hcondition
    obtain ⟨hheld, hcount⟩ := hcondition
    have huser : user ≠ 0 := by
      rintro rfl
      exact hheld (Fin.ext (hrun.history.settled block.val).zero)
    -- somebody's delegation after the block brings the user its first snapshot
    obtain ⟨tx, htx, hrun', hrecorded⟩ := exists_later_snapshot hrun now hnow huser
    have hafter : ∀ tx' ∈ [tx], block.val < tx'.block := by
      intro tx' htx'
      rw [List.mem_singleton.mp htx', htx]
      exact hfinished
    have hnow' : ∀ tx' ∈ txs ++ [tx], tx'.block ≤ now.number.val :=
      Timeline.forall_le_of_last (fun earlier h => htx ▸ hnow earlier h) htx.le
    have hcases := (propositionPower_true_iff hrun' hnow' user (hsame _ hafter ▸ hupgraded)
      hfinished).mp ⟨value, hanswers [tx] hrun' hafter now hnow' hfinished,
        hsame _ hafter ▸ htruth⟩
    rw [hsame _ hafter] at hcases
    rcases hcases with hnothing | hsnapshot | hnever
    · exact hheld hnothing
    · exact hsnapshot hcount
    · exact hrecorded (SnapshotTable.history_eq_nil_iff.mpr hnever)
  · intro hcondition
    have htrue : ∀ later : List Tx, RunV2 chain (txs ++ later) →
        (∀ tx ∈ later, block.val < tx.block) →
        ∀ now' : Block, (∀ tx ∈ txs ++ later, tx.block ≤ now'.number.val) →
        block < now'.number → ∃ value, getPowerAtBlock now' user block .propositionPower
            (Proxy.run chain (txs ++ later)).token = .ok value ∧
          value.val = (Proxy.stateAt chain txs block.val).token.delegatedPower
            .propositionPower user := by
      intro later hrun' hafter now' hnow' hfinished'
      have hstate := hsame later hafter
      have hanswer := propositionPower_true_iff hrun' hnow' user (hstate ▸ hupgraded) hfinished'
      rw [hstate] at hanswer
      exact hanswer.mpr (hcondition.imp_right Or.inl)
    have hpresent := htrue [] ((List.append_nil txs).symm ▸ hrun)
      (fun tx hnone => absurd hnone List.not_mem_nil) now
      (by rwa [List.append_nil]) hfinished
    obtain ⟨value, -, htruth⟩ := hpresent
    refine ⟨value, htruth, fun later hrun' hafter now' hnow' hfinished' => ?_⟩
    obtain ⟨value', hanswer, htruth'⟩ := htrue later hrun' hafter now' hnow' hfinished'
    rw [hanswer, Fin.ext (htruth'.trans htruth.symm)]

/-- Alice's first proposition snapshot is of block 5, which is answered truthfully
from block 6 on, whatever happens. -/
theorem proposition_power_at_block_iff_sample :
    ∃ value : Uint256,
      value.val = ∑ d with getDelegateeByType d .propositionPower
          (Proxy.stateAt Sample.chain Sample.txs 5).token = Sample.alice,
        ((Proxy.stateAt Sample.chain Sample.txs 5).token.balances d).val ∧
      ∀ later : List Tx, RunV2 Sample.chain (Sample.txs ++ later) →
        (∀ tx ∈ later, 5 < tx.block) →
        ∀ now' : Block, (∀ tx ∈ Sample.txs ++ later, tx.block ≤ now'.number.val) →
        5 < now'.number →
        getPowerAtBlock now' Sample.alice 5 .propositionPower
          (Proxy.run Sample.chain (Sample.txs ++ later)).token = .ok value :=
  (proposition_power_at_block_iff Sample.runV2_txs (Sample.block 6) (by decide) Sample.alice 5
    rfl (by decide)).mpr (Or.inr (by decide))

/-- Alice held almost everything when block 4 ended, and block 5 still said so; her
transfer in block 5 turned the answer about block 4 to zero. -/
theorem proposition_power_of_finished_block_rewritten :
    RunV2 Sample.chain Sample.txs ∧
      (∀ tx ∈ Sample.txs, tx.block ≤ (Sample.block 6).number.val) ∧
      (Proxy.stateAt Sample.chain Sample.txs 4).implementation = .plmyTokenV2 ∧
      getPowerAtBlock (Sample.block 5) Sample.alice 4 .propositionPower
          (Proxy.run Sample.chain (Sample.txs.take 4)).token =
        .ok (PlmyToken.distributionAmount - 100) ∧
      getPowerAtBlock (Sample.block 6) Sample.alice 4 .propositionPower
          (Proxy.run Sample.chain Sample.txs).token = .ok 0 ∧
      ¬ ∃ value, getPowerAtBlock (Sample.block 6) Sample.alice 4 .propositionPower
          (Proxy.run Sample.chain Sample.txs).token = .ok value ∧
        value.val = ∑ d with getDelegateeByType d .propositionPower
            (Proxy.stateAt Sample.chain Sample.txs 4).token = Sample.alice,
          ((Proxy.stateAt Sample.chain Sample.txs 4).token.balances d).val := by
  have hbefore : getPowerAtBlock (Sample.block 5) Sample.alice 4 .propositionPower
      (Proxy.run Sample.chain (Sample.txs.take 4)).token =
      .ok (PlmyToken.distributionAmount - 100) := rfl
  have hafter : getPowerAtBlock (Sample.block 6) Sample.alice 4 .propositionPower
      (Proxy.run Sample.chain Sample.txs).token = .ok 0 := rfl
  have hheld : 0 < (Proxy.stateAt Sample.chain Sample.txs 4).token.holdings Sample.alice := by
    decide
  have hpower := Delegation.le_power (Proxy.stateAt Sample.chain Sample.txs 4).token.holdings
    (fun d => getDelegateeByType d .propositionPower
      (Proxy.stateAt Sample.chain Sample.txs 4).token) Sample.alice
  refine ⟨Sample.runV2_txs, by decide, rfl, hbefore, hafter, ?_⟩
  rintro ⟨value, hvalue, htruth⟩
  rw [hafter] at hvalue
  cases hvalue
  have hpositive := Nat.lt_of_lt_of_le hheld hpower
  exact absurd htruth hpositive.ne

end Palmy
