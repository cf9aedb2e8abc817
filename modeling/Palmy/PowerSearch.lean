/-
The binary search of `_searchByBlockNumber`.  On a sorted history it is the
lookup of the last checkpoint at or before the queried block; without
snapshots it falls back to the balance.
-/
import Palmy.SnapshotHistory

namespace Palmy

open Solidity
open Checkpoint
open GovernancePowerDelegation

/-- One round of the loop looks at an index strictly above `lower` and never
underflows, whatever the array holds. -/
theorem searchLoop_succ (snapshotsUser : Uint256 → Snapshot) (blockNumber : Uint256)
    (fuel : ℕ) {lower upper : Uint256} (hlt : lower < upper) :
    ∃ center before : Uint256, lower.val < center.val ∧ center.val ≤ upper.val ∧
      before.val = center.val - 1 ∧
      searchLoop snapshotsUser blockNumber (fuel + 1) lower upper =
        if uint256 (snapshotsUser center).blockNumber = blockNumber then
          .ok (uint256 (snapshotsUser center).value)
        else if uint256 (snapshotsUser center).blockNumber < blockNumber then
          searchLoop snapshotsUser blockNumber fuel center upper
        else searchLoop snapshotsUser blockNumber fuel lower before := by
  have hltVal : lower.val < upper.val := hlt
  let width : Uint256 := ⟨upper.val - lower.val, by omega⟩
  let half : Uint256 := ⟨width.val / 2, by omega⟩
  let center : Uint256 := ⟨upper.val - half.val, by omega⟩
  let before : Uint256 := ⟨center.val - 1, by omega⟩
  have hhalf : half.val = (upper.val - lower.val) / 2 := rfl
  have hcenter : center.val = upper.val - half.val := rfl
  have hwidthOk : checkedSub upper lower = .ok width :=
    checkedSub_eq_ok.mpr ⟨hlt.le, rfl⟩
  have hhalfOk : checkedDiv width 2 = .ok half :=
    checkedDiv_eq_ok.mpr ⟨by decide, rfl⟩
  have hcenterOk : checkedSub upper half = .ok center :=
    checkedSub_eq_ok.mpr ⟨Fin.le_def.mpr (by omega), rfl⟩
  have hbeforeOk : checkedSub center 1 = .ok before := by
    refine checkedSub_eq_ok.mpr ⟨Fin.le_def.mpr ?_, rfl⟩
    change 1 ≤ center.val
    omega
  refine ⟨center, before, by omega, by omega, rfl, ?_⟩
  rw [searchLoop, if_pos hlt, hwidthOk, ok_bind, hhalfOk, ok_bind, hcenterOk, ok_bind]
  simp only [hbeforeOk, ok_bind]
  rfl

/-- An entry no later than the query, followed by later entries only, is what
the lookup answers. -/
theorem lookup_history_eq {table : SnapshotTable} {user : Address} {i block : ℕ}
    (hi : i < (table.counts user).val) (hle : (table.entry user i).1 ≤ block)
    (hlater : ∀ j, i < j → j < (table.counts user).val → block < (table.entry user j).1) :
    lookup 0 (table.history user) block = (table.entry user i).2 := by
  have hlength : i < (table.history user).length := by
    rwa [SnapshotTable.length_history]
  have hget : (table.history user)[i] = table.entry user i := by
    simp [SnapshotTable.history]
  have hsplit : table.history user =
      (table.history user).take i ++
        table.entry user i :: (table.history user).drop (i + 1) := by
    rw [← hget, List.getElem_cons_drop, List.take_append_drop]
  rw [hsplit]
  apply lookup_append_cons 0 _ _ hle
  intro e he
  obtain ⟨k, hk, rfl⟩ := List.mem_drop_iff_getElem.mp he
  rw [SnapshotTable.length_history] at hk
  have hbound : i + 1 + k < (table.history user).length := by
    rw [SnapshotTable.length_history]
    omega
  have hentry : (table.history user)[i + 1 + k] = table.entry user (i + 1 + k) := by
    simp [SnapshotTable.history]
  rw [hentry]
  exact hlater _ (by omega) (by omega)

theorem entry_lt_entry {table : SnapshotTable} {user : Address}
    (hsorted : Sorted (table.history user)) {i j : ℕ} (hij : i < j)
    (hj : j < (table.counts user).val) :
    (table.entry user i).1 < (table.entry user j).1 := by
  have hpairwise := List.pairwise_iff_getElem.mp hsorted i j
    (by rw [SnapshotTable.length_history]; omega)
    (by rwa [SnapshotTable.length_history]) hij
  simpa [SnapshotTable.history] using hpairwise

/-- The loop invariant: the answer lies between `lower` and `upper`.  What
`lower` points at is not too late, everything beyond `upper` is. -/
theorem searchLoop_spec {table : SnapshotTable} {user : Address}
    (hsorted : Sorted (table.history user)) (blockNumber : Uint256)
    {fuel : ℕ} {lower upper : Uint256}
    (hle : lower.val ≤ upper.val) (hupper : upper.val < (table.counts user).val)
    (hfuel : upper.val - lower.val < fuel)
    (hlower : (table.entry user lower.val).1 ≤ blockNumber.val)
    (hlater : ∀ j, upper.val < j → j < (table.counts user).val →
      blockNumber.val < (table.entry user j).1) :
    ∃ value, searchLoop (table.snapshots user) blockNumber fuel lower upper = .ok value ∧
      value.val = lookup 0 (table.history user) blockNumber.val := by
  induction fuel generalizing lower upper with
  | zero => omega
  | succ fuel ih =>
      by_cases hlt : lower < upper
      · obtain ⟨center, before, hcenter, hcenterUpper, hbefore, hloop⟩ :=
          searchLoop_succ (table.snapshots user) blockNumber fuel hlt
        have hcenterEntry := table.entry_val user center
        rw [hloop]
        by_cases hequal : uint256 (table.snapshots user center).blockNumber = blockNumber
        · refine ⟨_, if_pos hequal, ?_⟩
          have hblock : (table.entry user center.val).1 = blockNumber.val := by
            rw [hcenterEntry, ← hequal]
            rfl
          rw [lookup_history_eq (i := center.val) (by omega) hblock.le]
          · rw [hcenterEntry]
            rfl
          · intro j hj hcount
            have := entry_lt_entry hsorted hj hcount
            omega
        · rw [if_neg hequal]
          have hne : (table.entry user center.val).1 ≠ blockNumber.val := by
            intro hval
            apply hequal
            rw [hcenterEntry] at hval
            exact Fin.ext hval
          by_cases hearlier : uint256 (table.snapshots user center).blockNumber < blockNumber
          · rw [if_pos hearlier]
            have hcenterLe : (table.entry user center.val).1 ≤ blockNumber.val := by
              rw [hcenterEntry]
              exact hearlier.le
            exact ih hcenterUpper hupper (by omega) hcenterLe hlater
          · rw [if_neg hearlier]
            have hcenterGt : blockNumber.val < (table.entry user center.val).1 := by
              have hge : blockNumber.val ≤ (table.entry user center.val).1 := by
                rw [hcenterEntry]
                exact not_lt.mp hearlier
              omega
            apply ih (by omega) (by omega) (by omega) hlower
            intro j hj hcount
            by_cases hj' : j = center.val
            · rwa [hj']
            · have := entry_lt_entry hsorted (i := center.val) (j := j) (by omega) hcount
              omega
      · have hge : upper.val ≤ lower.val := not_lt.mp hlt
        have hequal : lower.val = upper.val := by omega
        refine ⟨uint256 (table.snapshots user lower).value, ?_, ?_⟩
        · rw [searchLoop, if_neg hlt]
          rfl
        · rw [lookup_history_eq (i := lower.val) (by omega) hlower]
          · rw [table.entry_val user lower]
            rfl
          · intro j hj hcount
            exact hlater j (by omega) hcount

/-- What `_searchByBlockNumber` answers about a sorted history. -/
theorem searchByBlockNumber_spec {table : SnapshotTable} {user : Address} {now : Block}
    (hsorted : Sorted (table.history user)) (balanceOf : Address → Uint256)
    {blockNumber : Uint256} (hblock : blockNumber ≤ now.number) :
    ∃ value, searchByBlockNumber now table balanceOf user blockNumber = .ok value ∧
      value.val = if table.counts user = 0 then (balanceOf user).val
        else lookup 0 (table.history user) blockNumber.val := by
  have hrequire : require (blockNumber ≤ now.number) "INVALID_BLOCK_NUMBER" = .ok () :=
    require_eq_ok.mpr hblock
  rw [searchByBlockNumber, hrequire, ok_bind]
  by_cases hzero : table.counts user = 0
  · simp only [hzero, ↓reduceIte]
    exact ⟨balanceOf user, rfl, rfl⟩
  have hpos : 0 < (table.counts user).val := by
    have : (table.counts user).val ≠ 0 := fun h => hzero (Fin.ext h)
    omega
  have hlastVal : (table.counts user - 1).val = (table.counts user).val - 1 :=
    Fin.val_sub_one_of_ne_zero hzero
  simp only [hzero, ↓reduceIte]
  by_cases hnewest : uint256 (table.snapshots user (table.counts user - 1)).blockNumber ≤
      blockNumber
  · -- the newest entry already answers
    rw [if_pos hnewest]
    refine ⟨_, rfl, ?_⟩
    have hentry := table.entry_val user (table.counts user - 1)
    rw [lookup_history_eq (i := (table.counts user - 1).val) (by omega)]
    · rw [hentry]
      rfl
    · rw [hentry]
      exact hnewest
    · intro j hj hcount
      omega
  rw [if_neg hnewest]
  have hfirstEntry := table.entry_val user 0
  by_cases hfirst : blockNumber < uint256 (table.snapshots user 0).blockNumber
  · -- every entry is later than the first one, hence than the query
    rw [if_pos hfirst]
    refine ⟨0, rfl, ?_⟩
    rw [lookup_of_forall_lt]
    · rfl
    · intro e he
      obtain ⟨i, hi, rfl⟩ := SnapshotTable.mem_history_iff.mp he
      have hzeroLt : blockNumber.val < (table.entry user 0).1 := by
        change blockNumber.val < (table.entry user (0 : Uint256).val).1
        rw [hfirstEntry]
        exact hfirst
      by_cases hi0 : i = 0
      · rwa [hi0]
      · exact hzeroLt.trans (entry_lt_entry hsorted (Nat.pos_of_ne_zero hi0) hi)
  · rw [if_neg hfirst]
    apply searchLoop_spec hsorted blockNumber
    · exact Nat.zero_le _
    · omega
    · change (table.counts user - 1).val - 0 < (table.counts user).val
      omega
    · rw [hfirstEntry]
      exact not_lt.mp hfirst
    · intro j hj hcount
      omega

end Palmy
