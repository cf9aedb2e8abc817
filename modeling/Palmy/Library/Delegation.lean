/-
Weights held by accounts, and the power an account has when every account
hands its whole weight to one delegatee.  A unit moved between two accounts is
a unit of power moved between their delegatees, and so is a change of
delegatee; everything else here follows from these two facts.
-/
import Mathlib.Algebra.Order.BigOperators.Group.Finset
import Mathlib.Data.Fintype.BigOperators

namespace Delegation

variable {α M : Type*} [DecidableEq α]

section Moves

variable [AddCommMonoid M]

/-- `n` units leave `a` and arrive at `b`.  The two may be the same account. -/
def Moved (w w' : α → M) (a b : α) (n : M) : Prop :=
  ∀ x, w' x + (if a = x then n else 0) = w x + (if b = x then n else 0)

/-- The power of `u`: what the accounts delegating to `u` hold. -/
def power [Fintype α] (w : α → M) (del : α → α) (u : α) : M :=
  ∑ d with del d = u, w d

variable [Fintype α]

/-- A power profile splits one sum over all accounts. -/
theorem sum_power (w : α → M) (del : α → α) :
    ∑ u, power w del u = ∑ d, w d :=
  Finset.sum_fiberwise Finset.univ del w

theorem power_of_forall_iff (w : α → M) (del : α → α) (u : α)
    (hdel : ∀ d, del d = u ↔ d = u) : power w del u = w u := by
  simp [power, Finset.sum_filter, hdel]

/-- Summing one marked account over a fibre asks only whether the account lies
in the fibre. -/
private theorem sum_fibre_ite (del : α → α) (a u : α) (n : M) :
    (∑ d with del d = u, if a = d then n else 0) =
      if del a = u then n else 0 := by
  rw [Finset.sum_ite_eq]
  simp

/-- Moving weight between accounts moves power between their delegatees. -/
theorem Moved.power {w w' : α → M} {a b : α} {n : M} (hmove : Moved w w' a b n)
    (del : α → α) :
    Moved (power w del) (power w' del) (del a) (del b) n := by
  intro u
  calc Delegation.power w' del u + (if del a = u then n else 0)
      = ∑ d with del d = u, (w' d + if a = d then n else 0) := by
        rw [Finset.sum_add_distrib, sum_fibre_ite]
        rfl
    _ = ∑ d with del d = u, (w d + if b = d then n else 0) :=
        Finset.sum_congr rfl fun d _ => hmove d
    _ = Delegation.power w del u + (if del b = u then n else 0) := by
        rw [Finset.sum_add_distrib, sum_fibre_ite]
        rfl

/-- A power read off one account and the rest. -/
private theorem power_split (w : α → M) (del : α → α) (a u : α) :
    power w del u =
      (∑ d ∈ Finset.univ.erase a with del d = u, w d) +
        (if del a = u then w a else 0) := by
  rw [power, Finset.sum_filter, Finset.sum_filter,
    ← Finset.sum_erase_add _ _ (Finset.mem_univ a)]

/-- Naming a new delegatee moves the whole weight of the delegator. -/
theorem moved_power_update (w : α → M) (del : α → α) (a b : α) :
    Moved (power w del) (power w (Function.update del a b)) (del a) b (w a) := by
  intro u
  have hrest : (∑ d ∈ Finset.univ.erase a with Function.update del a b d = u, w d) =
      ∑ d ∈ Finset.univ.erase a with del d = u, w d := by
    apply Finset.sum_congr _ fun _ _ => rfl
    apply Finset.filter_congr
    intro d hd
    rw [Function.update_of_ne (Finset.ne_of_mem_erase hd)]
  rw [power_split w del a, power_split w (Function.update del a b) a, hrest,
    Function.update_self]
  exact add_right_comm _ _ _

theorem total_add_single {w w' : α → M} {b : α} {n : M}
    (hadd : ∀ x, w' x = w x + (if b = x then n else 0)) :
    ∑ x, w' x = ∑ x, w x + n := by
  rw [Finset.sum_congr rfl fun x _ => hadd x, Finset.sum_add_distrib, Finset.sum_ite_eq,
    if_pos (Finset.mem_univ b)]

/-- Rewriting one entry changes a total by the difference of the two weights. -/
theorem total_update {β : Type*} (w : β → M) (f : α → β) (a : α) (b : β) :
    ∑ x, w (Function.update f a b x) + w (f a) = ∑ x, w (f x) + w b := by
  have hrest : ∑ x ∈ Finset.univ.erase a, w (Function.update f a b x) =
      ∑ x ∈ Finset.univ.erase a, w (f x) := by
    apply Finset.sum_congr rfl
    intro x hx
    rw [Function.update_of_ne (Finset.ne_of_mem_erase hx)]
  rw [← Finset.sum_erase_add _ _ (Finset.mem_univ a), hrest, Function.update_self,
    ← Finset.sum_erase_add Finset.univ (fun x => w (f x)) (Finset.mem_univ a)]
  exact add_right_comm _ _ _

omit [DecidableEq α] in
/-- A total over everything is one over keys that reach all that weighs. -/
theorem total_eq_sum_keys {κ : Type*} [Fintype κ] {p : κ → Prop} [DecidablePred p]
    {key : κ → α} {w : α → M} (hinjective : Set.InjOn key {k | p k})
    (hreached : ∀ x, (∀ k, p k → key k ≠ x) → w x = 0) :
    ∑ x, w x = ∑ k with p k, w (key k) := by
  refine (Finset.sum_of_injOn key ?_ (fun _ _ => Finset.mem_coe.mpr (Finset.mem_univ _))
    (fun x _ hnot => ?_) fun _ _ => rfl).symm
  · intro k hk k' hk' heq
    rw [Finset.mem_coe, Finset.mem_filter] at hk hk'
    exact hinjective hk.2 hk'.2 heq
  · apply hreached
    intro k hk heq
    apply hnot
    refine ⟨k, ?_, heq⟩
    rw [Finset.mem_coe, Finset.mem_filter]
    exact ⟨Finset.mem_univ k, hk⟩

end Moves

/-- A move determines where it leads. -/
theorem Moved.unique [AddCancelCommMonoid M] {w first second : α → M} {a b : α} {n : M}
    (hfirst : Moved w first a b n) (hsecond : Moved w second a b n) : second = first := by
  funext x
  exact add_right_cancel ((hsecond x).trans (hfirst x).symm)

/-- Two moves between the same accounts add up. -/
theorem Moved.add [AddCommMonoid M] {w w₁ w₂ : α → M} {a b : α} {m n : M}
    (hfirst : Moved w w₁ a b m) (hsecond : Moved w₁ w₂ a b n) : Moved w w₂ a b (m + n) := by
  intro x
  have hsplit : ∀ y, (if y = x then m + n else 0) =
      (if y = x then m else 0) + (if y = x then n else 0) := by
    intro y
    split
    · rfl
    · exact (add_zero 0).symm
  calc w₂ x + (if a = x then m + n else 0)
      = w₂ x + (if a = x then n else 0) + (if a = x then m else 0) := by
        rw [hsplit, ← add_assoc, add_right_comm]
    _ = w₁ x + (if a = x then m else 0) + (if b = x then n else 0) := by
        rw [hsecond x, add_right_comm]
    _ = w x + (if b = x then m + n else 0) := by
        rw [hfirst x, hsplit, add_assoc]

theorem Moved.comm [AddCancelCommMonoid M] {w w₁ w₁₂ w₂ w₂₁ : α → M} {a b c d : α} {m n : M}
    (h₁ : Moved w w₁ a b m) (h₁₂ : Moved w₁ w₁₂ c d n) (h₂ : Moved w w₂ c d n)
    (h₂₁ : Moved w₂ w₂₁ a b m) : w₁₂ = w₂₁ := by
  funext x
  have hfirst : w₁₂ x + (if c = x then n else 0) + (if a = x then m else 0) =
      w x + (if b = x then m else 0) + (if d = x then n else 0) := by
    rw [h₁₂ x, add_right_comm, h₁ x]
  have hsecond : w₂₁ x + (if a = x then m else 0) + (if c = x then n else 0) =
      w x + (if d = x then n else 0) + (if b = x then m else 0) := by
    rw [h₂₁ x, add_right_comm, h₂ x]
  rw [add_right_comm] at hsecond
  rw [add_right_comm (w x)] at hsecond
  exact add_right_cancel (add_right_cancel (hfirst.trans hsecond.symm))

/-- Moves conserve the total. -/
theorem Moved.total [Fintype α] [AddCancelCommMonoid M] {w w' : α → M} {a b : α}
    {n : M} (hmove : Moved w w' a b n) : ∑ x, w' x = ∑ x, w x := by
  have hsum : ∑ x, (w' x + if a = x then n else 0) =
      ∑ x, (w x + if b = x then n else 0) :=
    Finset.sum_congr rfl fun x _ => hmove x
  simp only [Finset.sum_add_distrib, Finset.sum_ite_eq, Finset.mem_univ,
    ↓reduceIte] at hsum
  exact add_right_cancel hsum

section Order

/-- Whose power a unit moved from `src` to `dst` changes.  `nobody` has none. -/
def ends (nobody src dst : α) : Set α :=
  { u | src ≠ dst ∧ u ≠ nobody ∧ (u = src ∨ u = dst) }

/-- An operation as a profile of delegatees sees it. -/
inductive Operation (α : Type*) where
  | pay (src dst : α)
  | choose (delegator delegatee : α)
  | skip

namespace Operation

/-- The profile after an operation. -/
def profile (del : α → α) : Operation α → α → α
  | choose delegator delegatee => Function.update del delegator delegatee
  | _ => del

/-- Whose power an operation changes under a profile. -/
def touched (nobody : α) (del : α → α) : Operation α → Set α
  | pay src dst => ends nobody (del src) (del dst)
  | choose delegator delegatee => ends nobody (del delegator) delegatee
  | skip => ∅

/-- Not two choices of one delegator. -/
def Independent : Operation α → Operation α → Prop
  | choose delegator _, choose delegator' _ => delegator ≠ delegator'
  | _, _ => True

omit [DecidableEq α] in
theorem independent_of {first second : Operation α}
    (h : ∀ a b c d, first = choose a b → second = choose c d → a ≠ c) :
    Independent first second := by
  cases first with
  | choose delegator delegatee =>
      cases second with
      | choose delegator' delegatee' => exact h _ _ _ _ rfl rfl
      | _ => trivial
  | _ => trivial

theorem profile_comm {first second : Operation α} (h : Independent first second)
    (del : α → α) :
    second.profile (first.profile del) = first.profile (second.profile del) := by
  cases first with
  | choose delegator delegatee =>
      cases second with
      | choose delegator' delegatee' =>
          have hne : delegator ≠ delegator' := h
          simp only [profile]
          exact Function.update_comm hne delegatee delegatee' del
      | _ => rfl
  | _ => cases second <;> rfl

/-- A payment before or after the choice of a delegatee touches the same users. -/
theorem touched_pay_choose (nobody src dst delegator delegatee : α) (del : α → α) :
    ends nobody (del src) (del dst) ∪ ends nobody (del delegator) delegatee =
      ends nobody (del delegator) delegatee ∪
        ends nobody (Function.update del delegator delegatee src)
          (Function.update del delegator delegatee dst) := by
  ext u
  by_cases hsrc : src = delegator <;> by_cases hdst : dst = delegator
  · subst hsrc hdst
    simp [ends]
  · subst hsrc
    simp only [ends, Function.update_self, Function.update_of_ne hdst, Set.mem_union,
      Set.mem_ofPred_eq]
    grind
  · subst hdst
    simp only [ends, Function.update_self, Function.update_of_ne hsrc, Set.mem_union,
      Set.mem_ofPred_eq]
    grind
  · simp only [Function.update_of_ne hsrc, Function.update_of_ne hdst, Set.union_comm]

theorem touched_comm {first second : Operation α} (h : Independent first second) (nobody : α)
    (del : α → α) :
    first.touched nobody del ∪ second.touched nobody (first.profile del) =
      second.touched nobody del ∪ first.touched nobody (second.profile del) := by
  cases first with
  | skip => exact (Set.empty_union _).trans (Set.union_empty _).symm
  | pay src dst =>
      cases second with
      | skip => exact (Set.union_empty _).trans (Set.empty_union _).symm
      | pay src' dst' => exact Set.union_comm _ _
      | choose delegator delegatee => exact touched_pay_choose nobody src dst _ _ del
  | choose delegator delegatee =>
      cases second with
      | skip => exact (Set.union_empty _).trans (Set.empty_union _).symm
      | pay src dst => exact (touched_pay_choose nobody src dst _ _ del).symm
      | choose delegator' delegatee' =>
          have hne : delegator' ≠ delegator := Ne.symm h
          simp only [touched, profile, Function.update_of_ne hne, Function.update_of_ne h]
          exact Set.union_comm _ _

end Operation

end Order

section Bounds

variable [Fintype α]

omit [DecidableEq α] in
theorem le_total (w : α → ℕ) (a : α) : w a ≤ ∑ x, w x :=
  Finset.single_le_sum (f := w) (fun _ _ => Nat.zero_le _) (Finset.mem_univ a)

/-- A delegatee has at least what any one of its delegators holds. -/
theorem le_power (w : α → ℕ) (del : α → α) (a : α) :
    w a ≤ power w del (del a) :=
  Finset.single_le_sum (f := w) (fun _ _ => Nat.zero_le _)
    (Finset.mem_filter.mpr ⟨Finset.mem_univ a, rfl⟩)

theorem power_le_total (w : α → ℕ) (del : α → α) (u : α) :
    power w del u ≤ ∑ d, w d :=
  Finset.sum_le_sum_of_subset (Finset.filter_subset _ _)

end Bounds

end Delegation
