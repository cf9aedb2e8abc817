/-
Snapshot tables only grow.  All a call does to a table is write snapshots at
its own block, and a write appends one entry or overwrites one of that block.
-/
import Mathlib.Logic.Relation
import Palmy.Authorisation
import Palmy.PowerHistory

namespace Palmy

open Solidity
open GovernancePowerDelegation

namespace SnapshotTable

/-- One snapshot is written in the block of that number. -/
def WriteStep (number : ℕ) (table table' : SnapshotTable) : Prop :=
  ∃ block : Block, block.number.val = number ∧
    ∃ owner newValue, table.writeSnapshot block owner newValue = .ok table'

/-- Snapshots are written, all in one block. -/
abbrev Writes (number : ℕ) : SnapshotTable → SnapshotTable → Prop :=
  Relation.ReflTransGen (WriteStep number)

/-- Nothing is stored at or beyond the count. -/
def Vacant (table : SnapshotTable) : Prop :=
  ∀ owner i, table.counts owner ≤ i → table.snapshots owner i = ⟨0, 0⟩

/-- Entries of earlier blocks stay, and a count grows only by an entry of the
block itself. -/
structure Extends (number : ℕ) (table table' : SnapshotTable) : Prop where
  kept : ∀ owner i, i < table.counts owner →
    (table.snapshots owner i).blockNumber.val < number →
      table'.snapshots owner i = table.snapshots owner i
  grown : ∀ owner, table'.counts owner = table.counts owner ∨
    ((table'.counts owner).val = (table.counts owner).val + 1 ∧
      (table'.snapshots owner (table.counts owner)).blockNumber.val = number)

variable {number : ℕ} {base table table' : SnapshotTable}

theorem Extends.refl (number : ℕ) (table : SnapshotTable) : Extends number table table where
  kept _ _ _ _ := rfl
  grown _ := Or.inl rfl

theorem Extends.counts_le (h : Extends number table table') (owner : Address) :
    table.counts owner ≤ table'.counts owner := by
  rw [Fin.le_def]
  rcases h.grown owner with hsame | ⟨hmore, -⟩
  · rw [hsame]
  · omega

theorem WriteStep.vacant (hwrite : WriteStep number table table') (hvacant : table.Vacant) :
    table'.Vacant := by
  obtain ⟨block, -, owner, newValue, hwrite⟩ := hwrite
  intro user i hi
  by_cases huser : user = owner
  · subst huser
    rcases writeSnapshot_cases hwrite with ⟨hne, -, rfl⟩ | ⟨-, count, hcount, rfl⟩
    · have hi : table.counts user ≤ i := hi
      have hpred := Fin.val_sub_one_of_ne_zero hne
      have hnewest : i ≠ table.counts user - 1 := by
        rintro rfl
        rw [Fin.le_def, hpred] at hi
        have : (table.counts user).val ≠ 0 := fun h => hne (Fin.ext h)
        omega
      simp only [Function.update_self, Function.update_of_ne hnewest]
      exact hvacant user i hi
    · simp only [Function.update_self] at hi
      have hi' : count.val ≤ i.val := hi
      have hnewest : i ≠ table.counts user := by
        rintro rfl
        omega
      simp only [Function.update_self, Function.update_of_ne hnewest]
      apply hvacant user i
      rw [Fin.le_def]
      omega
  · obtain ⟨hsnapshots, hcounts⟩ := writeSnapshot_of_ne hwrite huser
    rw [hsnapshots]
    rw [hcounts] at hi
    exact hvacant user i hi

theorem pred_of_val_eq_succ {count less : Uint256} (hmore : count.val = less.val + 1) :
    count ≠ 0 ∧ count - 1 = less := by
  have hne : count ≠ 0 := by
    rintro rfl
    exact absurd hmore (Nat.succ_ne_zero _).symm
  refine ⟨hne, Fin.ext ?_⟩
  rw [Fin.val_sub_one_of_ne_zero hne, hmore]
  rfl

theorem Extends.write (h : Extends number base table) (hwrite : WriteStep number table table') :
    Extends number base table' := by
  obtain ⟨block, rfl, owner, newValue, hwrite⟩ := hwrite
  have hblock := uint128_blockNumber block
  constructor
  · intro user i hi hearlier
    have hkept := h.kept user i hi hearlier
    have hi' : i < table.counts user := lt_of_lt_of_le hi (h.counts_le user)
    rw [← hkept]
    by_cases huser : user = owner
    · subst huser
      rcases writeSnapshot_cases hwrite with ⟨-, hnewest, rfl⟩ | ⟨-, count, -, rfl⟩
      · -- the entry overwritten is one of this block
        have hne : i ≠ table.counts user - 1 := by
          rintro rfl
          rw [← hkept, hnewest, hblock] at hearlier
          omega
        simp only [Function.update_self, Function.update_of_ne hne]
      · simp only [Function.update_self, Function.update_of_ne hi'.ne]
    · rw [(writeSnapshot_of_ne hwrite huser).1]
  · intro user
    by_cases huser : user = owner
    · subst huser
      rcases writeSnapshot_cases hwrite with ⟨-, -, rfl⟩ | ⟨hnew, count, hcount, rfl⟩
      · refine (h.grown user).imp id fun ⟨hmore, _⟩ => ⟨hmore, ?_⟩
        simp only [(pred_of_val_eq_succ hmore).2, Function.update_self]
        exact hblock
      · rcases h.grown user with hsame | ⟨hmore, hnewest⟩
        · refine Or.inr ⟨?_, ?_⟩
          · simp only [Function.update_self, hcount, hsame]
          · simp only [← hsame, Function.update_self]
            exact hblock
        · -- an entry of this block would have been overwritten
          obtain ⟨hne, hpred⟩ := pred_of_val_eq_succ hmore
          refine absurd ⟨hne, Fin.ext ?_⟩ hnew
          rw [hpred, hnewest, hblock]
    · obtain ⟨hsnapshots, hcounts⟩ := writeSnapshot_of_ne hwrite huser
      rw [hsnapshots, hcounts]
      exact h.grown user

theorem Writes.vacant (hwrites : Writes number table table') (hvacant : table.Vacant) :
    table'.Vacant := by
  induction hwrites with
  | refl => exact hvacant
  | tail _ hwrite ih => exact hwrite.vacant ih

theorem Writes.extends (hwrites : Writes number table table') : Extends number table table' := by
  induction hwrites with
  | refl => exact .refl number table
  | tail _ hwrite ih => exact ih.write hwrite

end SnapshotTable

open SnapshotTable

/-- Snapshots of the block were written into the tables, and nothing else was. -/
def Token.TablesWritten (number : ℕ) (s s' : Token) : Prop :=
  ∀ t, Writes number (s.snapshotTable t) (s'.snapshotTable t)

section Calls

variable {number : ℕ} {env : Env} {s s₁ s' : Token}

namespace Token.TablesWritten

theorem of_same (htables : ∀ t, s'.snapshotTable t = s.snapshotTable t) :
    TablesWritten number s s' := fun t => by
  rw [htables]

theorem trans (hfirst : TablesWritten number s s₁) (hsecond : TablesWritten number s₁ s') :
    TablesWritten number s s' := fun t => (hfirst t).trans (hsecond t)

end Token.TablesWritten

open Token

theorem PlmyToken.tablesWritten_writeNarrowed {owner : Address} {oldValue newValue : Uint256}
    (h : writeNarrowed env owner oldValue newValue s = .ok s') :
    TablesWritten env.block.number.val s s' := by
  simp only [writeNarrowed, writeSnapshot, bind_eq_ok, pure_eq_ok] at h
  obtain ⟨table, hwrite, rfl⟩ := h
  intro t
  cases t with
  | votingPower => exact .single ⟨env.block, rfl, _, _, hwrite⟩
  | propositionPower => exact .refl

theorem GovernancePowerDelegation.tablesWritten_changePower {user : Address}
    {change : Uint256 → Result Uint256} {t : DelegationType}
    (h : changePower env user change t s = .ok s') :
    TablesWritten env.block.number.val s s' := by
  intro t'
  by_cases heq : t' = t
  · subst heq
    simp only [changePower, bind_eq_ok, pure_eq_ok] at h
    obtain ⟨changed, -, table, hwrite, rfl⟩ := h
    apply Relation.ReflTransGen.single
    cases t' <;> exact ⟨env.block, rfl, _, _, hwrite⟩
  · rw [snapshotTable_changePower h heq]

theorem GovernancePowerDelegation.tablesWritten_moveDelegatesByType {src dst : Address}
    {amount : Uint256} {t : DelegationType}
    (h : moveDelegatesByType env src dst amount t s = .ok s') :
    TablesWritten env.block.number.val s s' :=
  moveDelegatesByType_rule (fun _ => .of_same fun _ => rfl) (fun _ _ _ => TablesWritten.trans)
    (fun _ _ _ _ => tablesWritten_changePower) h

/-- A transfer hook whose snapshots are of one block. -/
def ERC20.WritesAt (number : ℕ) (beforeTokenTransfer : ERC20.BeforeTokenTransfer) : Prop :=
  ∀ ⦃src dst amount s s'⦄, beforeTokenTransfer src dst amount s = .ok s' →
    TablesWritten number s s'

theorem PlmyToken.writesAt (env : Env) :
    ERC20.WritesAt env.block.number.val (beforeTokenTransfer env) := fun _ _ _ _ _ h =>
  beforeTokenTransfer_rule (fun _ => .of_same fun _ => rfl) (fun _ _ _ => TablesWritten.trans)
    (fun _ _ _ _ _ => tablesWritten_writeNarrowed) h

theorem PlmyTokenV2.writesAt (env : Env) :
    ERC20.WritesAt env.block.number.val (beforeTokenTransfer env) := by
  intro src dst amount s s' h
  simp only [beforeTokenTransfer, bind_eq_ok, pure_eq_ok] at h
  obtain ⟨s₁, hvoting, s₂, hproposition, _, _, rfl⟩ := h
  exact (tablesWritten_moveDelegatesByType hvoting).trans
    (tablesWritten_moveDelegatesByType hproposition)

section Effects

variable {beforeTokenTransfer : ERC20.BeforeTokenTransfer}
  (hwrites : ERC20.WritesAt number beforeTokenTransfer)
include hwrites

theorem Erc20Effect.tablesWritten (h : Erc20Effect beforeTokenTransfer s s') :
    TablesWritten number s s' := by
  cases h with
  | moved hsender hrecipient hbefore hrest henough hmoved =>
      apply (hwrites hbefore).trans
      rw [hrest]
      exact .of_same fun t => by cases t <;> rfl
  | approved hrest =>
      rw [hrest]
      exact .of_same fun t => by cases t <;> rfl

theorem MintedIfSet.tablesWritten {account : Address} {amount : Uint256}
    (h : MintedIfSet beforeTokenTransfer account amount s s') : TablesWritten number s s' := by
  rcases h with hmint | ⟨-, rfl⟩
  · obtain ⟨s₁, hbefore, hrest, -, -⟩ := hmint.hook
    apply (hwrites hbefore).trans
    rw [hrest]
    exact .of_same fun t => by cases t <;> rfl
  · exact .of_same fun _ => rfl

end Effects

theorem GovernancePowerDelegation.tablesWritten_delegateByTypeInternal
    {delegator delegatee : Address} {t : DelegationType}
    (h : delegateByTypeInternal env delegator delegatee t s = .ok s') :
    TablesWritten env.block.number.val s s' := by
  obtain ⟨-, s₂, hmove, rfl⟩ := delegateByTypeInternal_cases h
  have hstored : TablesWritten env.block.number.val s
      (s.setDelegates t (Function.update (s.delegates t) delegator delegatee)) :=
    .of_same fun t' => snapshotTable_setDelegates s t t' _
  apply (hstored.trans (tablesWritten_moveDelegatesByType hmove)).trans
  exact .of_same fun t' => by cases t' <;> rfl

theorem GovernancePowerDelegation.tablesWritten_of_nonces
    (h : s' = { s with nonces := s'.nonces }) : TablesWritten number s s' := by
  rw [h]
  exact .of_same fun t => by cases t <;> rfl

theorem PlmyTokenV2.DelegationEffect.tablesWritten (h : DelegationEffect env s s') :
    TablesWritten env.block.number.val s s' := by
  cases h with
  | one hnonces hdelegate =>
      exact (tablesWritten_of_nonces hnonces).trans
        (tablesWritten_delegateByTypeInternal hdelegate)
  | both hnonces hvoting hproposition =>
      exact ((tablesWritten_of_nonces hnonces).trans
        (tablesWritten_delegateByTypeInternal hvoting)).trans
        (tablesWritten_delegateByTypeInternal hproposition)

/-- All a successful call does to the tables is write snapshots of its block. -/
theorem Implementation.tablesWritten_execute {implementation : Implementation} {chain : Chain}
    {call : Call} (h : implementation.execute chain env s call = .ok s') :
    TablesWritten env.block.number.val s s' := by
  cases implementation with
  | plmyToken =>
      rcases PlmyToken.execute_cases h with ⟨_, _, palmyGovernance, -, hinit⟩ | heffect
      · obtain ⟨-, s₁, hvesting, hvault⟩ := PlmyToken.initializeToken_cases hinit
        have hconfigured : TablesWritten env.block.number.val s
            (PlmyToken.configured chain palmyGovernance s) :=
          .of_same fun t => by cases t <;> rfl
        exact (hconfigured.trans (hvesting.tablesWritten (PlmyToken.writesAt env))).trans
          (hvault.tablesWritten (PlmyToken.writesAt env))
      · exact heffect.tablesWritten (PlmyToken.writesAt env)
  | plmyTokenV2 =>
      rcases PlmyTokenV2.execute_cases h with ⟨-, hinit⟩ | heffect | heffect
      · simp only [PlmyTokenV2.initializeToken, initializer, bind_eq_ok, require_eq_ok,
          pure_eq_ok, exists_const] at hinit
        obtain ⟨-, rfl⟩ := hinit
        exact .of_same fun t => by cases t <;> rfl
      · exact heffect.tablesWritten (PlmyTokenV2.writesAt env)
      · exact heffect.tablesWritten

end Calls

namespace Proxy

open Token

variable {chain : Chain}

theorem tablesWritten_step (p : Proxy) (tx : Tx) :
    TablesWritten tx.block p.token (step chain p tx).token := by
  obtain ⟨env, action⟩ := tx
  cases action with
  | upgradeTo implementation => exact .of_same fun _ => rfl
  | call call =>
      rw [(execute_call chain p rfl).2]
      rcases commit_cases p.token (p.implementation.execute chain env p.token call)
        with hsame | hok
      · rw [hsame]
        exact .of_same fun _ => rfl
      · exact Implementation.tablesWritten_execute hok

theorem tablesWritten_run (p : Proxy) (ops : List Tx) {number : ℕ}
    (hblock : ∀ tx ∈ ops, tx.block = number) :
    TablesWritten number p.token (Timeline.run (step chain) p ops).token := by
  induction ops generalizing p with
  | nil => exact .of_same fun _ => rfl
  | cons tx ops ih =>
      have hstep : TablesWritten tx.block p.token (step chain p tx).token :=
        tablesWritten_step p tx
      rw [hblock tx List.mem_cons_self] at hstep
      exact hstep.trans (ih _ fun later hlater => hblock later (List.mem_cons_of_mem _ hlater))

theorem vacant_run (txs : List Tx) (t : DelegationType) :
    ((run chain txs).token.snapshotTable t).Vacant := by
  have hfresh : (genesis.token.snapshotTable t).Vacant := by
    cases t <;> exact fun _ _ _ => rfl
  exact Timeline.run_induction (P := fun p => (p.token.snapshotTable t).Vacant) hfresh
    (fun p tx hvacant => (tablesWritten_step p tx t).vacant hvacant) txs

/-- Nobody signs as account zero. -/
theorem signer_ne_zero_of_acceptedBy {p : Proxy} {tx : Tx} {signed : SignedRequest}
    (hsigned : signed ∈ acceptedBy chain p tx) : signed.signer ≠ 0 := by
  have hspends := step_nonces chain p tx
  rw [Option.mem_def.mp hsigned] at hspends
  exact hspends.signer_ne_zero

/-- Without calls from account zero it never gets a delegatee. -/
theorem delegates_zero_run (txs : List Tx) (hcallers : ∀ tx ∈ txs, tx.env.msgSender ≠ 0)
    (t : DelegationType) : (run chain txs).token.delegates t 0 = 0 := by
  induction txs using List.reverseRecOn with
  | nil => cases t <;> rfl
  | append_singleton txs tx ih =>
      rw [run_concat]
      have hcaller := hcallers tx (List.mem_append_right _ (List.mem_singleton.mpr rfl))
      have hstep : DrawsOnAllowance 0 tx.env.msgSender (run chain txs).token
          (step chain (run chain txs) tx).token :=
        step_draws hcaller fun _ => signer_ne_zero_of_acceptedBy
      exact (hstep.delegatee t).trans
        (ih fun earlier hearlier => hcallers earlier (List.mem_append_left _ hearlier))

end Proxy

/-- The snapshots of one owner as the binary search needs them at block `now`. -/
structure SnapshotTable.Orderly (table : SnapshotTable) (owner : Address) (now : ℕ) : Prop where
  increasing : ∀ i j : Uint256, i < j → j < table.counts owner →
    (table.snapshots owner i).blockNumber < (table.snapshots owner j).blockNumber
  le_now : ∀ i < table.counts owner, (table.snapshots owner i).blockNumber.val ≤ now
  vacant : ∀ i, table.counts owner ≤ i → table.snapshots owner i = ⟨0, 0⟩

theorem SnapshotTable.SortedUpTo.orderly {table : SnapshotTable} {now : ℕ}
    (hsorted : table.SortedUpTo now) (hvacant : table.Vacant) (owner : Address) :
    table.Orderly owner now where
  increasing := sorted_history_iff.mp (hsorted.sorted owner)
  le_now i hi := by
    have hentry := hsorted.le_now owner (table.entry owner i.val) (mem_history_iff.mpr ⟨_, hi, rfl⟩)
    rwa [entry_val] at hentry
  vacant := hvacant owner

/-- Snapshot histories are sorted and append-only.  After every run over V1, an
upgrade and V2, the entries of every owner are in order, none is later than the
current block and none lies beyond the count; account zero has none and no
delegatee.  Operations of one block keep every entry of an earlier block, lower
no count and raise none by more than one. -/
theorem snapshots_sorted_and_append_only {chain : Chain} {implementation : Implementation}
    {txs : List Tx} (hrun : UpgradeRun chain implementation txs)
    (hcallers : ∀ tx ∈ txs, tx.env.msgSender ≠ 0) :
    (∀ now, (∀ tx ∈ txs, tx.block ≤ now) → ∀ t owner,
      ((Proxy.run chain txs).token.snapshotTable t).Orderly owner now) ∧
    (∀ t, ((Proxy.run chain txs).token.snapshotTable t).counts 0 = 0 ∧
      (Proxy.run chain txs).token.delegates t 0 = 0) ∧
    ∀ (ops : List Tx) (block : ℕ), (∀ tx ∈ ops, tx.block = block) → ∀ t owner,
      (∀ i < ((Proxy.run chain txs).token.snapshotTable t).counts owner,
        (((Proxy.run chain txs).token.snapshotTable t).snapshots owner i).blockNumber.val < block →
          ((Proxy.run chain (txs ++ ops)).token.snapshotTable t).snapshots owner i =
            ((Proxy.run chain txs).token.snapshotTable t).snapshots owner i) ∧
      ((Proxy.run chain txs).token.snapshotTable t).counts owner ≤
        ((Proxy.run chain (txs ++ ops)).token.snapshotTable t).counts owner ∧
      (((Proxy.run chain (txs ++ ops)).token.snapshotTable t).counts owner).val ≤
        (((Proxy.run chain txs).token.snapshotTable t).counts owner).val + 1 := by
  refine ⟨?_, ?_, ?_⟩
  · intro now hnow t owner
    exact ((hrun.powerInvariant hnow).coherent t).sorted.orderly (Proxy.vacant_run txs t) owner
  · intro t
    have hpower := hrun.powerInvariant fun tx htx => List.le_sum_of_mem (List.mem_map_of_mem htx)
    exact ⟨history_eq_nil_iff.mp (hpower.coherent t).zero,
      Proxy.delegates_zero_run txs hcallers t⟩
  · intro ops block hblock t owner
    have hextends : ((Proxy.run chain txs).token.snapshotTable t).Extends block
        ((Proxy.run chain (txs ++ ops)).token.snapshotTable t) := by
      rw [Proxy.run_append]
      exact (Proxy.tablesWritten_run (Proxy.run chain txs) ops hblock t).extends
    refine ⟨hextends.kept owner, hextends.counts_le owner, ?_⟩
    rcases hextends.grown owner with hsame | ⟨hmore, -⟩
    · rw [hsame]
      exact Nat.le_succ _
    · exact hmore.le

theorem snapshots_sorted_and_append_only_sample :
    ((Proxy.run Sample.chain Sample.txs).token.snapshotTable .votingPower).Orderly Sample.bob 5 :=
  (snapshots_sorted_and_append_only Sample.upgradeRun_txs (by decide)).1 5 (by decide) _ _

end Palmy
