/-
Linear accrual in whole slices.  A total accrues from `start` over `duration`;
only whole slices count, nothing counts before the cliff, and from the end on
everything does.
-/
import Mathlib.Data.Fintype.BigOperators

/-- The terms of one accrual. -/
structure Accrual where
  cliff : ℕ
  start : ℕ
  duration : ℕ
  slice : ℕ
  total : ℕ

namespace Accrual

/-- The time up to `t` that lies in whole slices. -/
def elapsed (p : Accrual) (t : ℕ) : ℕ := (t - p.start) / p.slice * p.slice

/-- The amount accrued at time `t`. -/
def accrued (p : Accrual) (t : ℕ) : ℕ :=
  if t < p.cliff then 0
  else if p.start + p.duration ≤ t then p.total
  else p.total * p.elapsed t / p.duration

variable {p : Accrual} {t t' : ℕ}

theorem accrued_of_lt_cliff (h : t < p.cliff) : p.accrued t = 0 := if_pos h

theorem accrued_of_end_le (hcliff : p.cliff ≤ t) (hend : p.start + p.duration ≤ t) :
    p.accrued t = p.total := by
  rw [accrued, if_neg (Nat.not_lt.mpr hcliff), if_pos hend]

theorem accrued_of_lt_end (hcliff : p.cliff ≤ t) (hend : t < p.start + p.duration) :
    p.accrued t = p.total * p.elapsed t / p.duration := by
  rw [accrued, if_neg (Nat.not_lt.mpr hcliff), if_neg (Nat.not_le.mpr hend)]

theorem elapsed_le (p : Accrual) (t : ℕ) : p.elapsed t ≤ t - p.start :=
  Nat.div_mul_le_self _ _

theorem elapsed_mono (p : Accrual) (h : t ≤ t') : p.elapsed t ≤ p.elapsed t' :=
  Nat.mul_le_mul_right _ (Nat.div_le_div_right (Nat.sub_le_sub_right h _))

/-- Before the end less than the whole duration has elapsed. -/
theorem elapsed_le_duration (hend : t < p.start + p.duration) : p.elapsed t ≤ p.duration := by
  have := p.elapsed_le t
  omega

theorem accrued_le_total (p : Accrual) (t : ℕ) : p.accrued t ≤ p.total := by
  unfold accrued
  split
  · exact Nat.zero_le _
  · split
    · exact Nat.le_refl _
    · next hend =>
        apply Nat.div_le_of_le_mul
        rw [Nat.mul_comm]
        exact Nat.mul_le_mul_right _ (elapsed_le_duration (Nat.not_le.mp hend))

/-- The total accrues when both the cliff and the end are passed, and no sooner. -/
theorem total_le_accrued_iff (htotal : 0 < p.total) (hduration : 0 < p.duration) :
    p.total ≤ p.accrued t ↔ p.cliff ≤ t ∧ p.start + p.duration ≤ t := by
  constructor
  · intro hall
    have hcliff : p.cliff ≤ t := by
      by_contra hearly
      rw [accrued_of_lt_cliff (Nat.not_le.mp hearly)] at hall
      omega
    refine ⟨hcliff, ?_⟩
    by_contra hend
    have helapsed : p.elapsed t < p.duration := by
      have := p.elapsed_le t
      omega
    -- short of the whole duration, the division leaves something out
    rw [accrued_of_lt_end hcliff (Nat.not_le.mp hend)] at hall
    have hshort : p.total * p.elapsed t / p.duration < p.total := by
      rw [Nat.div_lt_iff_lt_mul hduration]
      exact Nat.mul_lt_mul_of_pos_left helapsed htotal
    omega
  · rintro ⟨hcliff, hend⟩
    exact (accrued_of_end_le hcliff hend).ge

/-- What has accrued stays accrued. -/
theorem accrued_mono (p : Accrual) : Monotone p.accrued := by
  intro t t' hle
  by_cases hcliff : t < p.cliff
  · rw [accrued_of_lt_cliff hcliff]
    exact Nat.zero_le _
  have hcliff' : p.cliff ≤ t' := by omega
  by_cases hend' : p.start + p.duration ≤ t'
  · rw [accrued_of_end_le hcliff' hend']
    exact p.accrued_le_total t
  · rw [accrued_of_lt_end hcliff' (Nat.not_le.mp hend'),
      accrued_of_lt_end (Nat.not_lt.mp hcliff) (by omega)]
    exact Nat.div_le_div_right (Nat.mul_le_mul_left _ (p.elapsed_mono hle))

/-- Accrual in whole slices is never ahead of linear accrual. -/
theorem accrued_mul_le_linear (hcliff : p.cliff ≤ t) (hend : t < p.start + p.duration) :
    p.accrued t * p.duration ≤ p.total * (t - p.start) := by
  rw [accrued_of_lt_end hcliff hend]
  apply Nat.le_trans (Nat.div_mul_le_self _ _)
  exact Nat.mul_le_mul_left _ (p.elapsed_le t)

/-- It is behind by less than one slice and one unit: a slice is lost to the
slices, a unit to the division by the duration. -/
theorem linear_lt_accrued_mul (p : Accrual) (hslice : 0 < p.slice) (hcliff : p.cliff ≤ t)
    (hend : t < p.start + p.duration) (hduration : 0 < p.duration) :
    p.total * (t - p.start) < (p.accrued t + 1) * p.duration + p.total * p.slice := by
  have hlast : t - p.start ≤ p.elapsed t + p.slice :=
    Nat.le_of_lt (Nat.lt_div_mul_add hslice)
  have hunit : p.total * p.elapsed t < (p.accrued t + 1) * p.duration := by
    rw [accrued_of_lt_end hcliff hend, Nat.mul_comm (_ + 1)]
    exact Nat.lt_mul_div_succ _ hduration
  calc p.total * (t - p.start)
      ≤ p.total * (p.elapsed t + p.slice) := Nat.mul_le_mul_left _ hlast
    _ = p.total * p.elapsed t + p.total * p.slice := Nat.mul_add _ _ _
    _ < (p.accrued t + 1) * p.duration + p.total * p.slice := Nat.add_lt_add_right hunit _

/-- When the cliff and the end fall on slices, the total accrues slice by slice:
of `n` slices the first `c` count together, and each later one as it ends. -/
theorem accrued_of_whole_slices {c n : ℕ} (hslice : 0 < p.slice) (hsome : 0 < n)
    (hcliff : p.cliff = p.start + c * p.slice) (hduration : p.duration = n * p.slice) (t : ℕ) :
    p.accrued t = if (t - p.start) / p.slice < c then 0
      else p.total * min ((t - p.start) / p.slice) n / n := by
  have hcliffSlice : (t - p.start) / p.slice < c ↔ t - p.start < c * p.slice :=
    Nat.div_lt_iff_lt_mul hslice
  have hendSlice : n ≤ (t - p.start) / p.slice ↔ n * p.slice ≤ t - p.start :=
    Nat.le_div_iff_mul_le hslice
  have hlength : 0 < n * p.slice := Nat.mul_pos hsome hslice
  by_cases hearly : t < p.cliff
  · rw [accrued_of_lt_cliff hearly]
    split
    · rfl
    · next hslices =>
        -- before a cliff at the start no slice has ended
        have hnone : (t - p.start) / p.slice = 0 := by
          rw [hcliffSlice] at hslices
          rw [show t - p.start = 0 by omega, Nat.zero_div]
        rw [hnone, Nat.zero_min, Nat.mul_zero, Nat.zero_div]
  have hpassed : ¬ (t - p.start) / p.slice < c := by
    rw [hcliffSlice]
    omega
  rw [if_neg hpassed]
  by_cases hend : p.start + p.duration ≤ t
  · have hall : n ≤ (t - p.start) / p.slice := hendSlice.mpr (by omega)
    rw [accrued_of_end_le (Nat.not_lt.mp hearly) hend, Nat.min_eq_right hall,
      Nat.mul_div_cancel _ hsome]
  · have hsomeLeft : (t - p.start) / p.slice ≤ n := by
      have hnot := mt hendSlice.mp (by omega)
      omega
    rw [accrued_of_lt_end (Nat.not_lt.mp hearly) (Nat.not_le.mp hend), elapsed, hduration,
      Nat.min_eq_left hsomeLeft, ← Nat.mul_assoc, Nat.mul_div_mul_right _ _ hslice]

end Accrual
