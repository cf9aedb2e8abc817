/-
The views of TokenVesting.sol, and how they enumerate the schedules: by index,
and by holder and index.
-/
import Palmy.VestingRegistry
import Palmy.VestingSolvency

namespace Palmy

open Solidity

namespace TokenVesting

variable {d : Deployment}

def getVestingSchedulesCountByBeneficiary (s : TokenVesting d) (beneficiary : Address) :
    Uint256 :=
  s.holdersVestingCount beneficiary

/-- The index is checked by a message first, and by the array again. -/
def getVestingIdAtIndex (index : Uint256) (s : TokenVesting d) : Result Bytes32 := do
  require (index.val < getVestingSchedulesCount d s) "TokenVesting: index out of bounds"
  match s.vestingSchedulesIds[index.val]? with
  | some vestingScheduleId => return vestingScheduleId
  | none => .error (.panic 0x32)

/-- A slot nobody wrote reads as an empty schedule. -/
def getVestingSchedule (vestingScheduleId : Bytes32) (s : TokenVesting d) : VestingSchedule :=
  s.vestingSchedules vestingScheduleId

def getVestingScheduleByAddressAndIndex (holder : Address) (index : Uint256)
    (s : TokenVesting d) : VestingSchedule :=
  getVestingSchedule (computeVestingScheduleIdForAddressAndIndex d holder index) s

def getVestingSchedulesTotalAmount (s : TokenVesting d) : Uint256 := s.vestingSchedulesTotalAmount

def getToken (s : TokenVesting d) : Address := s.token

/-- `holdersVestingCount[holder] - 1` underflows for a holder without schedules. -/
def getLastVestingScheduleForHolder (holder : Address) (s : TokenVesting d) :
    Result VestingSchedule := do
  let last ← checkedSub (s.holdersVestingCount holder) 1
  return s.vestingSchedules (computeVestingScheduleIdForAddressAndIndex d holder last)

section Views

variable {now : Uint256} {s s' : TokenVesting d} {id : Bytes32} {index : Uint256}

theorem getVestingIdAtIndex_eq_ok :
    getVestingIdAtIndex index s = .ok id ↔ s.vestingSchedulesIds[index.val]? = some id := by
  unfold getVestingIdAtIndex
  simp only [bind_eq_ok, require_eq_ok, exists_const]
  constructor
  · rintro ⟨hlt, h⟩
    change index.val < s.vestingSchedulesIds.length at hlt
    rw [List.getElem?_eq_getElem hlt] at h ⊢
    rw [pure_eq_ok] at h
    rw [h]
  · intro h
    obtain ⟨hlt, -⟩ := List.getElem?_eq_some_iff.mp h
    rw [h]
    exact ⟨hlt, rfl⟩

theorem succeeds_getVestingIdAtIndex_iff :
    Succeeds (getVestingIdAtIndex index s) ↔ index.val < getVestingSchedulesCount d s := by
  simp only [Succeeds, getVestingIdAtIndex_eq_ok]
  rw [← Option.isSome_iff_exists, isSome_getElem?]
  rfl

/-- No schedule is listed twice. -/
theorem Registry.index_unique (hregistry : Registry s) {other : Uint256}
    (h : getVestingIdAtIndex index s = .ok id) (hother : getVestingIdAtIndex other s = .ok id) :
    other = index := by
  rw [getVestingIdAtIndex_eq_ok] at h hother
  obtain ⟨hlt, hid⟩ := List.getElem?_eq_some_iff.mp h
  obtain ⟨hlt', hid'⟩ := List.getElem?_eq_some_iff.mp hother
  exact Fin.ext ((hregistry.nodup.getElem_inj_iff).mp (hid'.trans hid.symm))

/-- Every schedule is listed, at an index that fits a word: there are no more ids
than words. -/
theorem Registry.exists_index (hregistry : Registry s) :
    (getVestingSchedule id s).initialized = true ↔
      ∃ index, getVestingIdAtIndex index s = .ok id := by
  rw [getVestingSchedule, ← hregistry.mem_iff, List.mem_iff_getElem?]
  simp only [getVestingIdAtIndex_eq_ok]
  constructor
  · rintro ⟨i, h⟩
    obtain ⟨hlt, -⟩ := List.getElem?_eq_some_iff.mp h
    have hwords : s.vestingSchedulesIds.length ≤ 2 ^ 256 := by
      simpa using hregistry.nodup.length_le_card
    exact ⟨⟨i, Nat.lt_of_lt_of_le hlt hwords⟩, h⟩
  · rintro ⟨index, h⟩
    exact ⟨index.val, h⟩

/-- What the schedule behind an index owes, if there is one. -/
def outstandingAtIndex (index : Uint256) (s : TokenVesting d) : ℕ :=
  match getVestingIdAtIndex index s with
  | .ok vestingScheduleId => (getVestingSchedule vestingScheduleId s).outstanding
  | .error _ => 0

theorem Accounted.total_eq_sum_indices (hinv : Accounted now s) (hregistry : Registry s) :
    s.vestingSchedulesTotalAmount.val =
      ∑ index : Uint256 with index.val < getVestingSchedulesCount d s,
        outstandingAtIndex index s := by
  let key : Uint256 → Bytes32 := fun index => (s.vestingSchedulesIds[index.val]?).getD 0
  have hkey : ∀ index : Uint256, index.val < getVestingSchedulesCount d s →
      getVestingIdAtIndex index s = .ok (key index) := by
    intro index hlt
    change index.val < s.vestingSchedulesIds.length at hlt
    simp only [getVestingIdAtIndex_eq_ok, key, List.getElem?_eq_getElem hlt, Option.getD_some]
  have hinjective :
      Set.InjOn key {index | index.val < getVestingSchedulesCount d s} := by
    intro index hlt other hlt' heq
    have hindex := hkey index hlt
    rw [heq] at hindex
    exact hregistry.index_unique (hkey other hlt') hindex
  have hreached : ∀ id, (∀ index : Uint256, index.val < getVestingSchedulesCount d s →
      key index ≠ id) → (s.vestingSchedules id).outstanding = 0 := by
    intro id hnot
    apply VestingSchedule.outstanding_of_not_active
    intro hactive
    obtain ⟨index, hindex⟩ := hregistry.exists_index.mp hactive.1
    have hlt := succeeds_getVestingIdAtIndex_iff.mp ⟨id, hindex⟩
    exact hnot index hlt (Except.ok.inj ((hkey index hlt).symm.trans hindex))
  rw [hinv.total, Delegation.total_eq_sum_keys hinjective hreached]
  refine Finset.sum_congr rfl fun index hindex => ?_
  rw [outstandingAtIndex, hkey index (Finset.mem_filter.mp hindex).2]
  rfl

/-- The total over the holders and their indices. -/
theorem Accounted.total_eq_sum_holders (hinv : Accounted now s)
    (hcollision : Set.InjOn d.keccak256 s.hashed) :
    s.vestingSchedulesTotalAmount.val =
      ∑ slot : Address × Uint256 with slot.2 < getVestingSchedulesCountByBeneficiary s slot.1,
        (getVestingScheduleByAddressAndIndex slot.1 slot.2 s).outstanding := by
  rw [hinv.total]
  apply Delegation.total_eq_sum_keys
  · rintro ⟨holder, index⟩ hlt ⟨holder', index'⟩ hlt' heq
    have hsame := hcollision ⟨holder, index, hlt, rfl⟩ ⟨holder', index', hlt', rfl⟩ heq
    obtain ⟨hholder, hindex⟩ := Address.packed_append_inj hsame
    exact Prod.ext hholder hindex
  · intro id hnot
    apply VestingSchedule.outstanding_of_not_active
    intro hactive
    obtain ⟨holder, index, hlt, hid⟩ := (hinv.vesting id).registered hactive.1
    exact hnot (holder, index) hlt hid.symm

/-- The last schedule of a holder is its own, if it has one. -/
theorem Registry.last (hregistry : Registry s) (holder : Address) :
    (Succeeds (getLastVestingScheduleForHolder holder s) ↔
        getVestingSchedulesCountByBeneficiary s holder ≠ 0) ∧
      ∀ g, getLastVestingScheduleForHolder holder s = .ok g →
        g.initialized = true ∧ g.beneficiary = holder ∧
        ∃ last : Uint256, last.val + 1 = (getVestingSchedulesCountByBeneficiary s holder).val ∧
          g = getVestingScheduleByAddressAndIndex holder last s := by
  have hone : (1 : Uint256) ≤ s.holdersVestingCount holder ↔ s.holdersVestingCount holder ≠ 0 := by
    rw [Fin.le_def, ← Fin.val_ne_zero_iff]
    exact Nat.one_le_iff_ne_zero
  constructor
  · rw [getLastVestingScheduleForHolder, succeeds_bind]
    constructor
    · rintro ⟨last, hlast, -⟩
      exact hone.mp (checkedSub_eq_ok.mp hlast).1
    · intro hsome
      have hle := hone.mpr hsome
      exact ⟨s.holdersVestingCount holder - 1,
        checkedSub_eq_ok.mpr ⟨hle, Fin.sub_val_of_le hle⟩, succeeds_pure _⟩
  · intro g h
    simp only [getLastVestingScheduleForHolder, bind_eq_ok, pure_eq_ok, checkedSub_eq_ok] at h
    obtain ⟨last, ⟨hle, hlast⟩, rfl⟩ := h
    have hpos : 1 ≤ (s.holdersVestingCount holder).val := hle
    have hval : last.val + 1 = (s.holdersVestingCount holder).val := by
      rw [hlast]
      exact Nat.sub_add_cancel hpos
    obtain ⟨hexists, hbeneficiary⟩ := hregistry.used holder last (Fin.lt_def.mpr (by omega))
    exact ⟨hexists, hbeneficiary, last, hval, rfl⟩

end Views

end TokenVesting

open TokenVesting

section Runs

variable {d : Deployment} {v w : VestingState d}

theorem VestingChange.ids_prefix (hchange : VestingChange v w) :
    v.contract.vestingSchedulesIds <+: w.contract.vestingSchedulesIds := by
  cases hchange with
  | create => exact List.prefix_append _ _
  | _ => exact List.prefix_rfl

theorem ids_prefix_of_changes (hrun : Relation.ReflTransGen VestingChange v w) :
    v.contract.vestingSchedulesIds <+: w.contract.vestingSchedulesIds := by
  induction hrun with
  | refl => exact List.prefix_rfl
  | tail _ hchange ih => exact ih.trans hchange.ids_prefix

end Runs

/-- The views enumerate the schedules.  In every reachable state the indices below
the count are the ones that answer, exactly one of them leads to each schedule,
and so does exactly one pair of a holder and an index below its count; over the
indices as over the pairs what the schedules owe adds up to the total.  A holder
has a last schedule exactly when it has one, and that is the one at its highest
index.  Along every run an index keeps its id, and the schedule behind it its
terms. -/
theorem views_enumerate_the_schedules {d : Deployment} {v : VestingState d}
    (hdoc : d.Documented) (hreach : v.Reachable)
    (hfaithful : v.contract.token ≠ 0 → d.tokens.Faithful v.contract.token)
    (hcollision : Set.InjOn d.keccak256 v.contract.hashed) :
    (∀ index, Succeeds (getVestingIdAtIndex index v.contract) ↔
        index.val < getVestingSchedulesCount d v.contract) ∧
      (∀ id, (getVestingSchedule id v.contract).initialized = true ↔
        ∃! index, getVestingIdAtIndex index v.contract = .ok id) ∧
      (∀ id, (getVestingSchedule id v.contract).initialized = true ↔
        ∃! slot : Address × Uint256,
          slot.2 < getVestingSchedulesCountByBeneficiary v.contract slot.1 ∧
          id = computeVestingScheduleIdForAddressAndIndex d slot.1 slot.2) ∧
      (getVestingSchedulesTotalAmount v.contract).val =
        ∑ index : Uint256 with index.val < getVestingSchedulesCount d v.contract,
          outstandingAtIndex index v.contract ∧
      (getVestingSchedulesTotalAmount v.contract).val =
        ∑ slot : Address × Uint256 with
            slot.2 < getVestingSchedulesCountByBeneficiary v.contract slot.1,
          (getVestingScheduleByAddressAndIndex slot.1 slot.2 v.contract).outstanding ∧
      (∀ holder, (Succeeds (getLastVestingScheduleForHolder holder v.contract) ↔
          getVestingSchedulesCountByBeneficiary v.contract holder ≠ 0) ∧
        ∀ g, getLastVestingScheduleForHolder holder v.contract = .ok g →
          g.initialized = true ∧ g.beneficiary = holder ∧
          ∃ last : Uint256,
            last.val + 1 = (getVestingSchedulesCountByBeneficiary v.contract holder).val ∧
            g = getVestingScheduleByAddressAndIndex holder last v.contract) ∧
      ∀ w, Relation.ReflTransGen VestingStep v w → Set.InjOn d.keccak256 w.contract.hashed →
        ∀ index id, getVestingIdAtIndex index v.contract = .ok id →
          getVestingIdAtIndex index w.contract = .ok id ∧
          (getVestingSchedule id v.contract).Continues (getVestingSchedule id w.contract) := by
  have hinv := hreach.accounted hdoc hfaithful hcollision
  have hregistry := hreach.registry hdoc hcollision
  refine ⟨fun index => succeeds_getVestingIdAtIndex_iff, fun id => ?_, fun id => ?_,
    hinv.total_eq_sum_indices hregistry, hinv.total_eq_sum_holders hcollision, hregistry.last,
    ?_⟩
  · rw [hregistry.exists_index]
    constructor
    · rintro ⟨index, hindex⟩
      exact ⟨index, hindex, fun _ hother => hregistry.index_unique hindex hother⟩
    · exact ExistsUnique.exists
  · constructor
    · intro hexists
      obtain ⟨holder, index, hlt, hid⟩ := (hinv.vesting id).registered hexists
      refine ⟨(holder, index), ⟨hlt, hid⟩, ?_⟩
      rintro ⟨holder', index'⟩ ⟨hlt', hid'⟩
      have hsame := hcollision ⟨holder', index', hlt', rfl⟩ ⟨holder, index, hlt, rfl⟩
        (hid'.symm.trans hid)
      obtain ⟨hholder, hindex⟩ := Address.packed_append_inj hsame
      exact Prod.ext hholder hindex
    · rintro ⟨slot, ⟨hlt, hid⟩, -⟩
      rw [hid]
      exact (hregistry.used slot.1 slot.2 hlt).1
  · intro w hrun hinjective index id h
    have hchanges := VestingStep.changes_of_run hdoc hrun
    rw [getVestingIdAtIndex_eq_ok] at h ⊢
    obtain ⟨hlt, hid⟩ := List.getElem?_eq_some_iff.mp h
    have hexists := (hregistry.mem_iff id).mp (hid ▸ List.getElem_mem hlt)
    refine ⟨?_, continues_of_changes (hreach.vesting hdoc) hchanges hinjective hexists⟩
    obtain ⟨appended, happended⟩ := ids_prefix_of_changes hchanges
    rw [← happended, List.getElem?_append_left hlt]
    exact h

/-- Bob's grant is his last, at index zero. -/
theorem views_enumerate_the_schedules_sample :
    Succeeds (getLastVestingScheduleForHolder Sample.bob Sample.collected.contract) := by
  apply ((views_enumerate_the_schedules Sample.deployment_documented Sample.collected_reachable
    Sample.collected_faithful (Sample.injOn_hashed_of_one Sample.collected_counts)).2.2.2.2.2.1
    Sample.bob).1.mpr
  rw [getVestingSchedulesCountByBeneficiary, Sample.collected_counts, Function.update_self]
  decide

end Palmy
