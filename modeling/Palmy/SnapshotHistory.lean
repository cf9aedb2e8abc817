/-
The snapshot mappings of one account, read as a checkpoint history.  Writing a
snapshot records a checkpoint, and the binary search is a lookup.
-/
import Palmy.GovernancePowerDelegation
import Palmy.Library.Checkpoint

namespace Palmy

open Solidity
open Checkpoint

namespace SnapshotTable

/-- Entry `i` of a user: its block and its value. -/
def entry (table : SnapshotTable) (user : Address) (i : ℕ) : ℕ × ℕ :=
  let snapshot := table.snapshots user (Fin.ofNat (2 ^ 256) i)
  (snapshot.blockNumber.val, snapshot.value.val)

/-- The entries below the count, oldest first. -/
def history (table : SnapshotTable) (user : Address) : List (ℕ × ℕ) :=
  (List.range (table.counts user).val).map (table.entry user)

/-- The invariant the binary search needs: histories are sorted, and no entry
lies after `now`. -/
structure SortedUpTo (table : SnapshotTable) (now : ℕ) : Prop where
  sorted : ∀ user, Sorted (table.history user)
  le_now : ∀ user, ∀ entry ∈ table.history user, entry.1 ≤ now

theorem SortedUpTo.mono {table : SnapshotTable} {now later : ℕ}
    (hsorted : table.SortedUpTo now) (hle : now ≤ later) : table.SortedUpTo later :=
  ⟨hsorted.sorted, fun user entry hentry => (hsorted.le_now user entry hentry).trans hle⟩

@[simp] theorem length_history (table : SnapshotTable) (user : Address) :
    (table.history user).length = (table.counts user).val := by
  simp [history]

theorem history_eq_nil_iff {table : SnapshotTable} {user : Address} :
    table.history user = [] ↔ table.counts user = 0 := by
  rw [← List.length_eq_zero_iff, length_history, Fin.ext_iff]
  rfl

theorem ofNat_pred_eq {count : Uint256} (hne : count ≠ 0) :
    Fin.ofNat (2 ^ 256) (count.val - 1) = count - 1 := by
  apply Fin.ext
  rw [Fin.val_sub_one_of_ne_zero hne]
  exact Nat.mod_eq_of_lt (by omega)

theorem ofNat_val_eq (i : Uint256) : Fin.ofNat (2 ^ 256) i.val = i :=
  Fin.ext (Nat.mod_eq_of_lt i.isLt)

theorem entry_val (table : SnapshotTable) (user : Address) (i : Uint256) :
    table.entry user i.val =
      ((table.snapshots user i).blockNumber.val, (table.snapshots user i).value.val) := by
  rw [entry, ofNat_val_eq]

theorem entry_pred (table : SnapshotTable) {user : Address} (hne : table.counts user ≠ 0) :
    table.entry user ((table.counts user).val - 1) =
      ((table.snapshots user (table.counts user - 1)).blockNumber.val,
        (table.snapshots user (table.counts user - 1)).value.val) := by
  rw [entry, ofNat_pred_eq hne]

/-- A history that is not empty ends with the newest entry. -/
theorem history_eq_concat (table : SnapshotTable) {user : Address}
    (hne : table.counts user ≠ 0) :
    table.history user =
      (List.range ((table.counts user).val - 1)).map (table.entry user) ++
        [table.entry user ((table.counts user).val - 1)] := by
  have hpos : (table.counts user).val = (table.counts user).val - 1 + 1 := by
    have : (table.counts user).val ≠ 0 := fun h => hne (Fin.ext h)
    omega
  rw [history, hpos, List.range_succ, List.map_append]
  simp

theorem newest_mem_history (table : SnapshotTable) {user : Address}
    (hne : table.counts user ≠ 0) :
    table.entry user ((table.counts user).val - 1) ∈ table.history user := by
  rw [history_eq_concat table hne]
  exact List.mem_append_right _ (List.mem_singleton.mpr rfl)

theorem mem_history_iff {table : SnapshotTable} {user : Address} {e : ℕ × ℕ} :
    e ∈ table.history user ↔ ∃ i < (table.counts user).val, table.entry user i = e := by
  simp [history]

/-- A history is sorted when the block numbers below the count strictly increase. -/
theorem sorted_history_iff {table : SnapshotTable} {user : Address} :
    Sorted (table.history user) ↔ ∀ i j : Uint256, i < j → j < table.counts user →
      (table.snapshots user i).blockNumber < (table.snapshots user j).blockNumber := by
  have hget (i : ℕ) (hi : i < (table.history user).length) :
      (table.history user)[i] = table.entry user i := by
    simp [history]
  rw [Sorted, List.pairwise_iff_getElem]
  simp only [hget, length_history]
  constructor
  · intro hsorted i j hij hj
    have hlt := hsorted i.val j.val (hij.trans hj) hj hij
    rwa [entry_val, entry_val] at hlt
  · intro hincreasing i j hi hj hij
    have hcount := (table.counts user).isLt
    let first : Uint256 := ⟨i, hi.trans hcount⟩
    let second : Uint256 := ⟨j, hj.trans hcount⟩
    have hlt : (table.snapshots user first).blockNumber.val <
        (table.snapshots user second).blockNumber.val := hincreasing first second hij hj
    have hfirst := congrArg Prod.fst (table.entry_val user first)
    have hsecond := congrArg Prod.fst (table.entry_val user second)
    exact lt_of_eq_of_lt hfirst (lt_of_lt_of_eq hlt hsecond.symm)

/-- Counts stay far from overflow: there is at most one entry a block. -/
theorem SortedUpTo.count_le {table : SnapshotTable} {now : ℕ}
    (hsorted : table.SortedUpTo now) (user : Address) : (table.counts user).val ≤ now + 1 := by
  rw [← length_history]
  exact (hsorted.sorted user).length_le (hsorted.le_now user)

end SnapshotTable

section Write

variable {block : Block} {table table' : SnapshotTable} {owner : Address} {newValue : Uint128}

theorem uint128_blockNumber (block : Block) : (uint128 block.number).val = block.number.val :=
  Nat.mod_eq_of_lt block.number_lt

theorem writeSnapshot_cases (hwrite : table.writeSnapshot block owner newValue = .ok table') :
    (table.counts owner ≠ 0 ∧
      (table.snapshots owner (table.counts owner - 1)).blockNumber = uint128 block.number ∧
      table' = ⟨Function.update table.snapshots owner
        (Function.update (table.snapshots owner) (table.counts owner - 1)
          ⟨uint128 block.number, newValue⟩), table.counts⟩) ∨
    (¬ (table.counts owner ≠ 0 ∧
      (table.snapshots owner (table.counts owner - 1)).blockNumber = uint128 block.number) ∧
      ∃ count : Uint256, count.val = (table.counts owner).val + 1 ∧
        table' = ⟨Function.update table.snapshots owner
          (Function.update (table.snapshots owner) (table.counts owner)
            ⟨uint128 block.number, newValue⟩),
          Function.update table.counts owner count⟩) := by
  rw [SnapshotTable.writeSnapshot] at hwrite
  by_cases hsame : table.counts owner ≠ 0 ∧
      (table.snapshots owner (table.counts owner - 1)).blockNumber = uint128 block.number
  · simp only [hsame, ne_eq, not_false_eq_true, and_self, ↓reduceIte, pure_eq_ok] at hwrite
    exact Or.inl ⟨hsame.1, hsame.2, hwrite.symm⟩
  · simp only [hsame, ↓reduceIte, bind_eq_ok, checkedAdd_eq_ok, pure_eq_ok] at hwrite
    obtain ⟨count, hcount, heq⟩ := hwrite
    exact Or.inr ⟨hsame, count, hcount, heq.symm⟩

/-- Other accounts keep their entries and counts. -/
theorem writeSnapshot_of_ne (hwrite : table.writeSnapshot block owner newValue = .ok table')
    {user : Address} (hne : user ≠ owner) :
    table'.snapshots user = table.snapshots user ∧ table'.counts user = table.counts user := by
  rcases writeSnapshot_cases hwrite with ⟨_, _, rfl⟩ | ⟨_, count, _, rfl⟩
  · exact ⟨Function.update_of_ne hne _ _, rfl⟩
  · exact ⟨Function.update_of_ne hne _ _, Function.update_of_ne hne _ _⟩

theorem history_congr {first second : SnapshotTable} {user : Address}
    (hsnapshots : first.snapshots user = second.snapshots user)
    (hcounts : first.counts user = second.counts user) :
    first.history user = second.history user := by
  have hentry : first.entry user = second.entry user := by
    funext i
    simp only [SnapshotTable.entry, hsnapshots]
  rw [SnapshotTable.history, SnapshotTable.history, hentry, hcounts]

theorem writeSnapshot_history_of_ne
    (hwrite : table.writeSnapshot block owner newValue = .ok table')
    {user : Address} (hne : user ≠ owner) : table'.history user = table.history user := by
  obtain ⟨hsnapshots, hcounts⟩ := writeSnapshot_of_ne hwrite hne
  exact history_congr hsnapshots hcounts

/-- Writing an index does not touch the entries below it. -/
private theorem map_range_update {index : Uint256} {snapshot : Snapshot}
    (hwritten : table'.snapshots owner =
      Function.update (table.snapshots owner) index snapshot)
    {bound : ℕ} (hbound : bound ≤ index.val) :
    (List.range bound).map (table'.entry owner) =
      (List.range bound).map (table.entry owner) := by
  apply List.map_congr_left
  intro i hi
  have hlt : i < index.val := Nat.lt_of_lt_of_le (List.mem_range.mp hi) hbound
  have hne : Fin.ofNat (2 ^ 256) i ≠ index := by
    intro heq
    have hval := congrArg Fin.val heq
    rw [Fin.val_ofNat, Nat.mod_eq_of_lt (by omega)] at hval
    omega
  simp only [SnapshotTable.entry, hwritten, Function.update_of_ne hne]

/-- Writing a snapshot records a checkpoint at the current block. -/
theorem writeSnapshot_history_self {now : ℕ}
    (hwrite : table.writeSnapshot block owner newValue = .ok table')
    (hsorted : table.SortedUpTo now) (hnow : now ≤ block.number.val) :
    table'.history owner = record (table.history owner) block.number.val newValue.val := by
  rcases writeSnapshot_cases hwrite with ⟨hne, hblock, htable⟩ | ⟨hnew, count, hcount, htable⟩
  · -- the newest entry carries the current block, and `record` drops exactly it
    have hwritten : table'.snapshots owner = Function.update (table.snapshots owner)
        (table.counts owner - 1) ⟨uint128 block.number, newValue⟩ := by
      rw [htable]
      exact Function.update_self _ _ _
    have hcounts : table'.counts owner = table.counts owner := by rw [htable]
    have hne' : table'.counts owner ≠ 0 := by rwa [hcounts]
    have hlast : table.entry owner ((table.counts owner).val - 1) =
        (block.number.val, (table.snapshots owner (table.counts owner - 1)).value.val) := by
      rw [SnapshotTable.entry_pred table hne, hblock, uint128_blockNumber]
    have hold := SnapshotTable.history_eq_concat table hne
    have hsortedOwner := hsorted.sorted owner
    rw [hold, hlast] at hsortedOwner
    rw [hold, hlast, record_concat_self _ hsortedOwner,
      SnapshotTable.history_eq_concat table' hne', SnapshotTable.entry_pred table' hne', hcounts,
      hwritten, Function.update_self, uint128_blockNumber,
      map_range_update hwritten (Fin.val_sub_one_of_ne_zero hne).ge]
  · -- the newest entry is older, so everything stays and one entry is appended
    have hwritten : table'.snapshots owner = Function.update (table.snapshots owner)
        (table.counts owner) ⟨uint128 block.number, newValue⟩ := by
      rw [htable]
      exact Function.update_self _ _ _
    have hcounts : table'.counts owner = count := by
      rw [htable]
      exact Function.update_self _ _ _
    have hlt : ∀ entry ∈ table.history owner, entry.1 < block.number.val := by
      intro entry hentry
      have hcountne : table.counts owner ≠ 0 := by
        intro hzero
        rw [SnapshotTable.history_eq_nil_iff.mpr hzero] at hentry
        simp at hentry
      have hnewest := hsorted.le_now owner _ (SnapshotTable.newest_mem_history table hcountne)
      have hnewestne : (table.entry owner ((table.counts owner).val - 1)).1 ≠
          block.number.val := by
        intro heq
        apply hnew
        refine ⟨hcountne, Fin.ext ?_⟩
        rw [SnapshotTable.entry_pred table hcountne] at heq
        rw [uint128_blockNumber]
        exact heq
      have hsortedOwner := hsorted.sorted owner
      rw [SnapshotTable.history_eq_concat table hcountne] at hentry hsortedOwner
      rcases List.mem_append.mp hentry with hfront | hlast
      · have := (List.pairwise_append.mp hsortedOwner).2.2 entry hfront _
          (List.mem_singleton.mpr rfl)
        omega
      · rw [List.mem_singleton] at hlast
        subst hlast
        omega
    rw [record_of_forall_lt _ hlt, SnapshotTable.history, hcounts, hcount,
      List.range_succ, List.map_append, map_range_update hwritten le_rfl, List.map_singleton,
      SnapshotTable.entry_val, hwritten, Function.update_self, uint128_blockNumber]
    rfl

/-- A write keeps every history sorted and within the current block. -/
theorem writeSnapshot_sortedUpTo {now : ℕ}
    (hwrite : table.writeSnapshot block owner newValue = .ok table')
    (hsorted : table.SortedUpTo now) (hnow : now ≤ block.number.val) :
    table'.SortedUpTo block.number.val := by
  constructor
  · intro user
    by_cases heq : user = owner
    · subst heq
      rw [writeSnapshot_history_self hwrite hsorted hnow]
      exact sorted_record (hsorted.sorted user) _ _
    · rw [writeSnapshot_history_of_ne hwrite heq]
      exact hsorted.sorted user
  · intro user
    by_cases heq : user = owner
    · subst heq
      rw [writeSnapshot_history_self hwrite hsorted hnow]
      exact forall_le_record _ ((hsorted.mono hnow).le_now user) le_rfl
    · rw [writeSnapshot_history_of_ne hwrite heq]
      exact (hsorted.mono hnow).le_now user

/-- A sorted table always has room for one more snapshot. -/
theorem succeeds_writeSnapshot {now : ℕ} (hsorted : table.SortedUpTo now)
    (hnow : now ≤ block.number.val) (owner : Address) (newValue : Uint128) :
    Succeeds (table.writeSnapshot block owner newValue) := by
  have hcount := hsorted.count_le owner
  have hblock := block.number_lt
  rw [SnapshotTable.writeSnapshot]
  split
  · exact succeeds_pure _
  · rw [succeeds_bind]
    refine ⟨⟨(table.counts owner).val + 1, by omega⟩, ?_, succeeds_pure _⟩
    rw [checkedAdd_eq_ok]
    rfl

end Write

end Palmy
