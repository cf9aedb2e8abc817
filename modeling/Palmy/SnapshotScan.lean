/-
The binary search against a plain scan from the newest snapshot down, and the
array it reads: no index at or beyond the count is ever looked at.
-/
import Palmy.PowerSearch
import Palmy.Proxy

namespace Palmy

open Solidity
open Checkpoint

namespace GovernancePowerDelegation

/-- The value of the last of the first `count` snapshots that is not later than
the block, or 0. -/
def plainScan (snapshotsUser : Uint256 → Snapshot) (blockNumber : Uint256) : ℕ → Uint256
  | 0 => 0
  | count + 1 =>
      let snapshot := snapshotsUser (Fin.ofNat (2 ^ 256) count)
      if uint256 snapshot.blockNumber ≤ blockNumber then uint256 snapshot.value
      else plainScan snapshotsUser blockNumber count

/-- The loop of `_searchByBlockNumber` over an array whose reads may fail. -/
def searchLoopReading (read : Uint256 → Result Snapshot) (blockNumber : Uint256) :
    ℕ → Uint256 → Uint256 → Result Uint256
  | 0, _, _ => .error .outOfGas
  | fuel + 1, lower, upper =>
      if lower < upper then do
        let width ← checkedSub upper lower
        let half ← checkedDiv width 2
        let center ← checkedSub upper half
        let snapshot ← read center
        if uint256 snapshot.blockNumber = blockNumber then
          return uint256 snapshot.value
        else if uint256 snapshot.blockNumber < blockNumber then
          searchLoopReading read blockNumber fuel center upper
        else do
          let upper ← checkedSub center 1
          searchLoopReading read blockNumber fuel lower upper
      else do
        let snapshot ← read lower
        return uint256 snapshot.value

/-- `_searchByBlockNumber` over an array whose reads may fail. -/
def searchReading (now : Block) (read : Uint256 → Result Snapshot) (snapshotsCount : Uint256)
    (balanceOf : Address → Uint256) (user : Address) (blockNumber : Uint256) :
    Result Uint256 := do
  require (blockNumber ≤ now.number) "INVALID_BLOCK_NUMBER"
  if snapshotsCount = 0 then
    return balanceOf user
  else do
    let newest ← read (snapshotsCount - 1)
    if uint256 newest.blockNumber ≤ blockNumber then
      return uint256 newest.value
    else do
      let oldest ← read 0
      if blockNumber < uint256 oldest.blockNumber then
        return 0
      else
        searchLoopReading read blockNumber snapshotsCount.val 0 (snapshotsCount - 1)

end GovernancePowerDelegation

/-- A read that panics at or beyond the count, as an array access would. -/
def SnapshotTable.readInRange (table : SnapshotTable) (user : Address) (i : Uint256) :
    Result Snapshot :=
  if i < table.counts user then .ok (table.snapshots user i) else .error (.panic 0x32)

open GovernancePowerDelegation

section Scan

variable {table : SnapshotTable} {user : Address}

/-- A scan is the lookup in the entries it covers, sorted or not. -/
theorem plainScan_eq_lookup (blockNumber : Uint256) (count : ℕ) :
    (plainScan (table.snapshots user) blockNumber count).val =
      lookup 0 ((List.range count).map (table.entry user)) blockNumber.val := by
  induction count with
  | zero => rfl
  | succ count ih =>
      rw [List.range_succ, List.map_append, List.map_singleton, plainScan]
      split
      · next hle =>
          have hentry : (table.entry user count).1 ≤ blockNumber.val := hle
          exact (lookup_concat_of_le 0 _ hentry).symm
      · next hlater =>
          have hentry : blockNumber.val < (table.entry user count).1 := not_le.mp hlater
          exact ih.trans (lookup_concat_of_lt 0 _ hentry).symm

end Scan

section Reads

variable {read₁ read₂ : Uint256 → Result Snapshot} {blockNumber : Uint256}

/-- The loop asks for nothing outside the interval it searches. -/
theorem searchLoopReading_congr {fuel : ℕ} {lower upper : Uint256} (hle : lower ≤ upper)
    (hagree : ∀ i, lower ≤ i → i ≤ upper → read₁ i = read₂ i) :
    searchLoopReading read₁ blockNumber fuel lower upper =
      searchLoopReading read₂ blockNumber fuel lower upper := by
  induction fuel generalizing lower upper with
  | zero => rfl
  | succ fuel ih =>
      rw [searchLoopReading, searchLoopReading]
      by_cases hlt : lower < upper
      · simp only [hlt, ↓reduceIte]
        apply bind_congr_ok
        intro width hwidth
        apply bind_congr_ok
        intro half hhalf
        apply bind_congr_ok
        intro center hcenter
        rw [checkedSub_eq_ok] at hwidth hcenter
        rw [checkedDiv_eq_ok] at hhalf
        have hhalfVal : half.val = width.val / 2 := hhalf.2
        have hltVal : lower.val < upper.val := hlt
        have hlower : lower.val < center.val := by omega
        have hupper : center ≤ upper := Fin.le_def.mpr (by omega)
        rw [hagree center (Fin.le_def.mpr hlower.le) hupper]
        apply bind_congr_ok
        intro snapshot _
        split
        · rfl
        split
        · exact ih hupper fun i hi => hagree i (Fin.le_def.mpr (hlower.le.trans hi))
        apply bind_congr_ok
        intro before hbefore
        have hone : (1 : Uint256).val = 1 := rfl
        rw [checkedSub_eq_ok] at hbefore
        have hbeforeUpper : before.val ≤ upper.val := by omega
        exact ih (Fin.le_def.mpr (by omega)) fun i hi hi' =>
          hagree i hi (Fin.le_def.mpr (hi'.trans hbeforeUpper))
      · simp only [hlt, ↓reduceIte]
        rw [hagree lower le_rfl hle]

theorem searchLoopReading_total (snapshotsUser : Uint256 → Snapshot) (fuel : ℕ)
    (lower upper : Uint256) :
    searchLoopReading (fun i => .ok (snapshotsUser i)) blockNumber fuel lower upper =
      searchLoop snapshotsUser blockNumber fuel lower upper := by
  induction fuel generalizing lower upper with
  | zero => rfl
  | succ fuel ih => simp only [searchLoopReading, searchLoop, ih, ok_bind]

/-- The loop ends, on any array. -/
theorem succeeds_searchLoop (snapshotsUser : Uint256 → Snapshot) {fuel : ℕ}
    {lower upper : Uint256} (hle : lower.val ≤ upper.val) (hfuel : upper.val - lower.val < fuel) :
    Succeeds (searchLoop snapshotsUser blockNumber fuel lower upper) := by
  induction fuel generalizing lower upper with
  | zero => omega
  | succ fuel ih =>
      by_cases hlt : lower < upper
      · obtain ⟨center, before, hcenter, hupper, hbefore, hloop⟩ :=
          searchLoop_succ snapshotsUser blockNumber fuel hlt
        rw [hloop]
        split
        · exact succeeds_ok _
        split
        · exact ih hupper (by omega)
        · exact ih (by omega) (by omega)
      · rw [searchLoop, if_neg hlt]
        exact succeeds_pure _

end Reads

section Search

variable {table : SnapshotTable} {user : Address} {now : Block} {blockNumber : Uint256}

theorem searchReading_total (table : SnapshotTable) (balanceOf : Address → Uint256) :
    searchReading now (fun i => .ok (table.snapshots user i)) (table.counts user) balanceOf
        user blockNumber =
      searchByBlockNumber now table balanceOf user blockNumber := by
  simp only [searchReading, searchByBlockNumber, ok_bind, searchLoopReading_total]

/-- The search of a non-empty array reads below its count only. -/
theorem searchReading_congr {read₁ read₂ : Uint256 → Result Snapshot} {snapshotsCount : Uint256}
    (balanceOf : Address → Uint256)
    (hagree : ∀ i, i < snapshotsCount → read₁ i = read₂ i) :
    searchReading now read₁ snapshotsCount balanceOf user blockNumber =
      searchReading now read₂ snapshotsCount balanceOf user blockNumber := by
  rw [searchReading, searchReading]
  by_cases hzero : snapshotsCount = 0
  · simp only [hzero, ↓reduceIte]
  have hnewest : snapshotsCount - 1 < snapshotsCount := by
    rw [Fin.lt_def, Fin.val_sub_one_of_ne_zero hzero]
    have : snapshotsCount.val ≠ 0 := fun h => hzero (Fin.ext h)
    omega
  have hloop : searchLoopReading read₁ blockNumber snapshotsCount.val 0 (snapshotsCount - 1) =
      searchLoopReading read₂ blockNumber snapshotsCount.val 0 (snapshotsCount - 1) := by
    apply searchLoopReading_congr (Fin.zero_le _)
    intro i _ hi
    exact hagree i (lt_of_le_of_lt hi hnewest)
  have holdest : (0 : Uint256) < snapshotsCount := Fin.pos_iff_ne_zero.mpr hzero
  simp only [hzero, ↓reduceIte, hagree _ hnewest, hagree _ holdest, hloop]

theorem searchReading_readInRange (table : SnapshotTable) (balanceOf : Address → Uint256) :
    searchReading now (table.readInRange user) (table.counts user) balanceOf user blockNumber =
      searchByBlockNumber now table balanceOf user blockNumber := by
  rw [← searchReading_total]
  apply searchReading_congr
  intro i hi
  exact if_pos hi

/-- A query that is not about the future is always answered. -/
theorem succeeds_searchByBlockNumber (table : SnapshotTable) (balanceOf : Address → Uint256)
    (user : Address) (hblock : blockNumber ≤ now.number) :
    Succeeds (searchByBlockNumber now table balanceOf user blockNumber) := by
  have hrequire : require (blockNumber ≤ now.number) "INVALID_BLOCK_NUMBER" = .ok () :=
    require_eq_ok.mpr hblock
  rw [searchByBlockNumber, hrequire, ok_bind]
  by_cases hzero : table.counts user = 0
  · simp only [hzero, ↓reduceIte, succeeds_pure]
  simp only [hzero, ↓reduceIte]
  split
  · exact succeeds_pure _
  split
  · exact succeeds_pure _
  apply succeeds_searchLoop
  · exact Nat.zero_le _
  · have hlast : (table.counts user - 1).val = (table.counts user).val - 1 :=
      Fin.val_sub_one_of_ne_zero hzero
    have hne : (table.counts user).val ≠ 0 := fun h => hzero (Fin.ext h)
    change (table.counts user - 1).val - 0 < (table.counts user).val
    omega

/-- On any non-empty snapshot array the search of a past or current block ends
without a revert and reads below the count only; on an array with increasing
block numbers it answers what a scan from the newest entry down answers. -/
theorem snapshot_search_is_plain_scan (hcount : table.counts user ≠ 0)
    (hblock : blockNumber ≤ now.number) (balanceOf : Address → Uint256) :
    Succeeds (searchByBlockNumber now table balanceOf user blockNumber) ∧
    searchReading now (table.readInRange user) (table.counts user) balanceOf user blockNumber =
      searchByBlockNumber now table balanceOf user blockNumber ∧
    ((∀ i j : Uint256, i < j → j < table.counts user →
        (table.snapshots user i).blockNumber < (table.snapshots user j).blockNumber) →
      searchByBlockNumber now table balanceOf user blockNumber =
        .ok (plainScan (table.snapshots user) blockNumber (table.counts user).val)) := by
  refine ⟨succeeds_searchByBlockNumber table balanceOf user hblock,
    searchReading_readInRange table balanceOf, ?_⟩
  intro hincreasing
  obtain ⟨value, hvalue, hspec⟩ := searchByBlockNumber_spec
    (SnapshotTable.sorted_history_iff.mpr hincreasing) balanceOf hblock
  rw [if_neg hcount] at hspec
  have heq : value = plainScan (table.snapshots user) blockNumber (table.counts user).val :=
    Fin.ext (hspec.trans (plainScan_eq_lookup blockNumber (table.counts user).val).symm)
  rw [hvalue, heq]

end Search

/-- Two snapshots, of the blocks 1 and 4. -/
def Sample.snapshots : SnapshotTable where
  snapshots _ i := if i = 0 then ⟨1, 70⟩ else ⟨4, 30⟩
  counts _ := 2

theorem Sample.snapshots_increasing (i j : Uint256) (hij : i < j)
    (hj : j < Sample.snapshots.counts Sample.alice) :
    (Sample.snapshots.snapshots Sample.alice i).blockNumber <
      (Sample.snapshots.snapshots Sample.alice j).blockNumber := by
  have hijVal : i.val < j.val := hij
  have hjVal : j.val < 2 := hj
  have hi : i = 0 := Fin.ext (show i.val = 0 by omega)
  have hj0 : j ≠ 0 := Fin.ne_of_gt (lt_of_le_of_lt (Fin.zero_le i) hij)
  simp only [Sample.snapshots, hi, hj0, ↓reduceIte]
  decide

theorem snapshot_search_is_plain_scan_sample :
    searchByBlockNumber (Sample.block 6) Sample.snapshots (fun _ => 0) Sample.alice 3 =
      .ok 70 := by
  rw [(snapshot_search_is_plain_scan (by decide) (by decide) _).2.2 Sample.snapshots_increasing]
  decide

end Palmy
