/-
Checkpoint histories: lists of (moment, value) pairs read by "the last value
written at or before a moment".  Recording twice at one moment keeps only the
second value, so one entry stands for the end of each moment.
-/
import Mathlib.Data.Fintype.BigOperators

namespace Checkpoint

universe u v

variable {κ : Type u} {ν : Type v} [LinearOrder κ]

/-- Moments strictly increase along the history. -/
def Sorted (history : List (κ × ν)) : Prop :=
  history.Pairwise fun earlier later => earlier.1 < later.1

/-- The last value written at or before `moment`, or `default`. -/
def lookup (default : ν) (history : List (κ × ν)) (moment : κ) : ν :=
  ((history.filter fun entry => entry.1 ≤ moment).getLast?.map Prod.snd).getD default

/-- Write `value` at `moment`, over whatever that moment already holds. -/
def record (history : List (κ × ν)) (moment : κ) (value : ν) : List (κ × ν) :=
  (history.filter fun entry => entry.1 < moment) ++ [(moment, value)]

@[simp] theorem lookup_nil (default : ν) (moment : κ) :
    lookup default [] moment = default := rfl

/-- The default counts only where no entry is old enough. -/
theorem lookup_of_filter_nil (default : ν) {history : List (κ × ν)} {moment : κ}
    (hnil : history.filter (fun entry => entry.1 ≤ moment) = []) :
    lookup default history moment = default := by
  rw [lookup, hnil]
  rfl

theorem lookup_default_irrelevant (first second : ν) {history : List (κ × ν)} {moment : κ}
    (hne : history.filter (fun entry => entry.1 ≤ moment) ≠ []) :
    lookup first history moment = lookup second history moment := by
  rw [lookup, lookup, List.getLast?_eq_getLast_of_ne_nil hne]
  rfl

/-- A new record is invisible before its moment. -/
theorem filter_record_of_lt (history : List (κ × ν)) {moment query : κ}
    (value : ν) (hlt : query < moment) :
    (record history moment value).filter (fun entry => entry.1 ≤ query) =
      history.filter fun entry => entry.1 ≤ query := by
  have hkeep : (history.filter fun entry => entry.1 < moment).filter
      (fun entry => entry.1 ≤ query) = history.filter fun entry => entry.1 ≤ query := by
    rw [List.filter_filter]
    apply List.filter_congr
    intro entry _
    by_cases hle : entry.1 ≤ query
    · simp [hle, lt_of_le_of_lt hle hlt]
    · simp [hle]
  simp [record, hkeep, not_le.mpr hlt]

/-- From its moment on, a record made at the newest moment is the answer. -/
theorem lookup_record_of_le (default : ν) (history : List (κ × ν)) {moment query : κ}
    (value : ν) (hle : moment ≤ query) :
    lookup default (record history moment value) query = value := by
  simp [lookup, record, hle]

theorem sorted_record {history : List (κ × ν)} (hsorted : Sorted history)
    (moment : κ) (value : ν) : Sorted (record history moment value) := by
  rw [Sorted, record, List.pairwise_append]
  refine ⟨hsorted.filter _, List.pairwise_singleton _ _, ?_⟩
  intro entry hentry last hlast
  rw [List.mem_singleton] at hlast
  subst hlast
  simpa using (List.mem_filter.mp hentry).2

theorem forall_le_record {history : List (κ × ν)} {moment bound : κ} (value : ν)
    (hbound : ∀ entry ∈ history, entry.1 ≤ bound) (hle : moment ≤ bound) :
    ∀ entry ∈ record history moment value, entry.1 ≤ bound := by
  intro entry hentry
  rcases List.mem_append.mp hentry with hold | hnew
  · exact hbound entry (List.mem_filter.mp hold).1
  · rw [List.mem_singleton] at hnew
    rw [hnew]
    exact hle

@[simp] theorem record_ne_nil (history : List (κ × ν)) (moment : κ) (value : ν) :
    record history moment value ≠ [] := by
  simp [record]

/-- Recording twice at one moment is recording the second value. -/
theorem record_record (history : List (κ × ν)) (moment : κ) (first second : ν) :
    record (record history moment first) moment second =
      record history moment second := by
  simp [record, List.filter_filter]

/-- At a moment later than the whole history a record is appended. -/
theorem record_of_forall_lt {history : List (κ × ν)} {moment : κ} (value : ν)
    (hlt : ∀ entry ∈ history, entry.1 < moment) :
    record history moment value = history ++ [(moment, value)] := by
  rw [record, List.filter_eq_self.mpr]
  simpa using hlt

/-- At the moment of the last entry a record replaces that entry. -/
theorem record_concat_self {front : List (κ × ν)} {moment : κ} {old : ν} (value : ν)
    (hsorted : Sorted (front ++ [(moment, old)])) :
    record (front ++ [(moment, old)]) moment value = front ++ [(moment, value)] := by
  rw [Sorted, List.pairwise_append] at hsorted
  have hfront : ∀ entry ∈ front, entry.1 < moment := fun entry hentry =>
    hsorted.2.2 entry hentry (moment, old) (List.mem_singleton.mpr rfl)
  rw [record, List.filter_append, List.filter_eq_self.mpr (by simpa using hfront)]
  simp

theorem lookup_concat_of_le (default : ν) (front : List (κ × ν)) {last : κ × ν} {query : κ}
    (hle : last.1 ≤ query) : lookup default (front ++ [last]) query = last.2 := by
  simp [lookup, hle]

/-- An entry later than the query is not looked at. -/
theorem lookup_concat_of_lt (default : ν) (front : List (κ × ν)) {last : κ × ν} {query : κ}
    (hlt : query < last.1) : lookup default (front ++ [last]) query = lookup default front query := by
  simp [lookup, not_le.mpr hlt]

/-- Before the first entry a history answers with the default. -/
theorem lookup_of_forall_lt (default : ν) {history : List (κ × ν)} {query : κ}
    (hlt : ∀ entry ∈ history, query < entry.1) :
    lookup default history query = default := by
  apply lookup_of_filter_nil
  apply List.filter_eq_nil_iff.mpr
  simpa using hlt

/-- An entry no later than the query, with only later entries behind it, is
the answer. -/
theorem lookup_append_cons (default : ν) (front back : List (κ × ν)) {entry : κ × ν}
    {query : κ} (hentry : entry.1 ≤ query) (hback : ∀ e ∈ back, query < e.1) :
    lookup default (front ++ entry :: back) query = entry.2 := by
  have hnone : back.filter (fun e => e.1 ≤ query) = [] := by
    apply List.filter_eq_nil_iff.mpr
    simpa using hback
  simp [lookup, List.filter_append, hentry, hnone]

/-- Past the newest entry the answer no longer depends on the query. -/
theorem lookup_eq_of_forall_le (default : ν) {history : List (κ × ν)} {first second : κ}
    (hfirst : ∀ entry ∈ history, entry.1 ≤ first)
    (hsecond : ∀ entry ∈ history, entry.1 ≤ second) :
    lookup default history first = lookup default history second := by
  rw [lookup, lookup, List.filter_eq_self.mpr (by simpa using hfirst),
    List.filter_eq_self.mpr (by simpa using hsecond)]

/-- One entry a moment: a sorted history cannot be longer than time itself. -/
theorem Sorted.length_le {history : List (ℕ × ν)} (hsorted : Sorted history) {bound : ℕ}
    (hbound : ∀ entry ∈ history, entry.1 ≤ bound) : history.length ≤ bound + 1 := by
  have hnodup : (history.map Prod.fst).Nodup := by
    rw [List.Nodup, List.pairwise_map]
    exact hsorted.imp fun hlt => hlt.ne
  have hsubset : (history.map Prod.fst).toFinset ⊆ Finset.range (bound + 1) := by
    intro moment hmoment
    simp only [List.mem_toFinset, List.mem_map] at hmoment
    obtain ⟨entry, hentry, rfl⟩ := hmoment
    exact Finset.mem_range.mpr (Nat.lt_succ_of_le (hbound entry hentry))
  have hcard := Finset.card_le_card hsubset
  rwa [List.toFinset_card_of_nodup hnodup, Finset.card_range, List.length_map] at hcard

end Checkpoint
