/-
What the two transfer hooks write into the snapshots.  V1 records balances and
V2 records delegated powers, but both record, for the two accounts a movement
touches, the amount they end up with.
-/
import Palmy.CallEffects
import Palmy.Library.Tracking
import Palmy.PowerAnnouncements
import Palmy.SnapshotHistory

namespace Palmy

open Solidity
open Checkpoint
open Tracking
open Delegation (ends)
open GovernancePowerDelegation

/-- The checkpoints of a user for one delegation type. -/
def Token.history (s : Token) (t : DelegationType) (user : Address) : List (ℕ × ℕ) :=
  (s.snapshotTable t).history user

/-- Powers `w` become `w'` when `n` units leave `src` for `dst`.  Account zero
has no power, so a mint only credits. -/
structure Shift (src dst : Address) (n : ℕ) (w w' : Address → ℕ) : Prop where
  debit : src ≠ dst → src ≠ 0 → w' src + n = w src
  credit : src ≠ dst → dst ≠ 0 → w' dst = w dst + n
  rest : ∀ u, src = dst ∨ u = 0 ∨ (u ≠ src ∧ u ≠ dst) → w' u = w u

/-- A move in which account zero has no part is a shift. -/
theorem Shift.of_moved {src dst : Address} {n : ℕ} {w w' : Address → ℕ}
    (hmoved : Delegation.Moved w w' src dst n) (hsrc : src = 0 → n = 0) (hdst : dst ≠ 0) :
    Shift src dst n w w' where
  debit hne _ := by
    have hsrc := hmoved src
    rwa [if_pos rfl, if_neg (Ne.symm hne), Nat.add_zero] at hsrc
  credit hne _ := by
    have hdst := hmoved dst
    rwa [if_pos rfl, if_neg hne, Nat.add_zero] at hdst
  rest u hu := by
    have hat := hmoved u
    rcases hu with rfl | rfl | ⟨hneSrc, hneDst⟩
    · exact Nat.add_right_cancel hat
    · rw [if_neg hdst] at hat
      by_cases hzero : src = 0
      · rw [if_pos hzero, hsrc hzero] at hat
        exact hat
      · rwa [if_neg hzero] at hat
    · rwa [if_neg hneSrc.symm, if_neg hneDst.symm] at hat

/-- Crediting one account out of nothing is a shift from account zero. -/
theorem Shift.of_add_single {dst : Address} {n : ℕ} {w w' : Address → ℕ}
    (hadd : ∀ x, w' x = w x + (if dst = x then n else 0)) (hdst : dst ≠ 0) :
    Shift 0 dst n w w' where
  debit _ hne := absurd rfl hne
  credit _ _ := by rw [hadd, if_pos rfl]
  rest u hu := by
    have hne : dst ≠ u := by
      rcases hu with hzero | rfl | ⟨-, hne⟩
      · exact absurd hzero.symm hdst
      · exact hdst
      · exact hne.symm
    rw [hadd, if_neg hne, Nat.add_zero]

theorem Shift.kept {src dst : Address} {n : ℕ} {w w' : Address → ℕ}
    (hshift : Shift src dst n w w') {u : Address} (hu : u ∉ ends 0 src dst) : w' u = w u := by
  apply hshift.rest
  by_cases hsame : src = dst
  · exact Or.inl hsame
  by_cases hzero : u = 0
  · exact Or.inr (Or.inl hzero)
  · refine Or.inr (Or.inr ⟨fun hsrc => hu ?_, fun hdst => hu ?_⟩)
    · exact ⟨hsame, hzero, Or.inl hsrc⟩
    · exact ⟨hsame, hzero, Or.inr hdst⟩

/-- One user's power of one type was recorded at a block. -/
structure Recorded (block : ℕ) (t : DelegationType) (user : Address) (value : ℕ)
    (s s' : Token) : Prop where
  self : s'.history t user = record (s.history t user) block value
  rest : ∀ u ≠ user, s'.history t u = s.history t u
  previous : ∀ u ≠ user, previousPower u t s' = previousPower u t s
  others : ∀ t' ≠ t, s'.snapshotTable t' = s.snapshotTable t'
  sorted : (s'.snapshotTable t).SortedUpTo block

section Write

variable {env : Env} {now : ℕ} {t : DelegationType} {s s' : Token} {user : Address}

/-- A snapshot write into the table of one type records one power. -/
theorem recorded_of_writeSnapshot {newValue : Uint128}
    (hwrite : (s.snapshotTable t).writeSnapshot env.block user newValue =
      .ok (s'.snapshotTable t))
    (hbalances : s'.balances = s.balances)
    (hothers : ∀ t' ≠ t, s'.snapshotTable t' = s.snapshotTable t')
    (hsorted : (s.snapshotTable t).SortedUpTo now) (hnow : now ≤ env.block.number.val) :
    Recorded env.block.number.val t user newValue.val s s' where
  self := writeSnapshot_history_self hwrite hsorted hnow
  rest _ hne := writeSnapshot_history_of_ne hwrite hne
  previous u hne := by
    obtain ⟨hsnapshots, hcounts⟩ := writeSnapshot_of_ne hwrite hne
    simp only [previousPower, hsnapshots, hcounts, hbalances]
  others := hothers
  sorted := writeSnapshot_sortedUpTo hwrite hsorted hnow

/-- V1 writes the new balance into the voting snapshots. -/
theorem PlmyToken.recorded_writeNarrowed {oldValue newValue : Uint256}
    (h : writeNarrowed env user oldValue newValue s = .ok s')
    (hsorted : (s.snapshotTable .votingPower).SortedUpTo now)
    (hnow : now ≤ env.block.number.val) :
    Recorded env.block.number.val .votingPower user (uint128 newValue).val s s' ∧
      s'.narrowed = s.narrowed ++ [oldValue, newValue] := by
  simp only [writeNarrowed, writeSnapshot, bind_eq_ok, pure_eq_ok] at h
  obtain ⟨table, hwrite, rfl⟩ := h
  refine ⟨recorded_of_writeSnapshot hwrite rfl ?_ hsorted hnow, rfl⟩
  intro t' hne
  cases t' with
  | votingPower => exact absurd rfl hne
  | propositionPower => rfl

/-- Changing a power of V2 writes one snapshot and announces one power. -/
theorem GovernancePowerDelegation.changePower_cases {change : Uint256 → Result Uint256}
    (h : changePower env user change t s = .ok s') :
    ∃ changed, change (previousPower user t s) = .ok changed ∧
      (s.snapshotTable t).writeSnapshot env.block user (uint128 changed) =
        .ok (s'.snapshotTable t) ∧
      (∀ t' ≠ t, s'.snapshotTable t' = s.snapshotTable t') ∧
      s'.narrowed = s.narrowed ++ [previousPower user t s, changed] ∧
      s'.log = s.log ++ [.delegatedPowerChanged user changed t] := by
  simp only [changePower, bind_eq_ok, pure_eq_ok] at h
  obtain ⟨changed, hchange, table, hwrite, rfl⟩ := h
  refine ⟨changed, hchange, ?_, ?_, ?_, ?_⟩
  · cases t <;> exact hwrite
  · intro t' hne
    cases t <;> cases t' <;> first | rfl | exact absurd rfl hne
  · cases t <;> rfl
  · cases t <;> rfl

theorem GovernancePowerDelegation.snapshotTable_changePower {change : Uint256 → Result Uint256}
    (h : changePower env user change t s = .ok s') {t' : DelegationType} (hne : t' ≠ t) :
    s'.snapshotTable t' = s.snapshotTable t' := by
  obtain ⟨_, -, -, hothers, -, -⟩ := changePower_cases h
  exact hothers t' hne

/-- V2 writes the changed power into the snapshots of its type. -/
theorem GovernancePowerDelegation.recorded_changePower {change : Uint256 → Result Uint256}
    (h : changePower env user change t s = .ok s')
    (hsorted : (s.snapshotTable t).SortedUpTo now) (hnow : now ≤ env.block.number.val) :
    ∃ changed, change (previousPower user t s) = .ok changed ∧
      Recorded env.block.number.val t user (uint128 changed).val s s' ∧
      s'.narrowed = s.narrowed ++ [previousPower user t s, changed] := by
  obtain ⟨changed, hchange, hwrite, hothers, hnarrowed, -⟩ := changePower_cases h
  exact ⟨changed, hchange, recorded_of_writeSnapshot hwrite (onlySnapshots_changePower h).balances
    hothers hsorted hnow, hnarrowed⟩

end Write

/-- The powers of some users, and of no others, were recorded at a block. -/
structure WrittenFor (block : ℕ) (t : DelegationType) (users : Set Address)
    (w' : Address → ℕ) (s s' : Token) : Prop where
  recorded : ∀ u ∈ users, s'.history t u = record (s.history t u) block (w' u)
  kept : ∀ u ∉ users, s'.history t u = s.history t u

theorem WrittenFor.congr {block : ℕ} {t : DelegationType} {users : Set Address}
    {w' : Address → ℕ} {before after s s' : Token}
    (h : WrittenFor block t users w' before after)
    (hbefore : before.snapshotTable t = s.snapshotTable t)
    (hafter : s'.snapshotTable t = after.snapshotTable t) : WrittenFor block t users w' s s' := by
  have hhistory : ∀ u, s'.history t u = after.history t u := fun u => by
    rw [Token.history, hafter, Token.history]
  have hhistory₀ : ∀ u, before.history t u = s.history t u := fun u => by
    rw [Token.history, hbefore, Token.history]
  constructor
  · intro u hu
    rw [hhistory, h.recorded u hu, hhistory₀]
  · intro u hu
    rw [hhistory, h.kept u hu, hhistory₀]

/-- The snapshots of one type followed a shift of power. -/
structure PowerMoved (block : ℕ) (t : DelegationType) (src dst : Address)
    (w w' : Address → ℕ) (s s' : Token) : Prop where
  tracked : ∀ u, Tracked block (s.history t u) (s'.history t u) (w u) (w' u)
  untouched : ∀ u ≠ 0, s'.history t u = [] → src = dst ∨ (u ≠ src ∧ u ≠ dst)
  zero : s'.history t 0 = s.history t 0
  others : ∀ t' ≠ t, s'.snapshotTable t' = s.snapshotTable t'
  fits : ∀ x ∈ s'.narrowed, x ∈ s.narrowed ∨ x.val < 2 ^ 128

section Moved

variable {block : ℕ} {t : DelegationType} {src dst : Address} {n : ℕ} {w w' : Address → ℕ}
  {s s₁ s' : Token}

/-- Recording both ends of a shift follows it. -/
theorem PowerMoved.of_written (hshift : Shift src dst n w w')
    (hwritten : WrittenFor block t (ends 0 src dst) w' s s')
    (hothers : ∀ t' ≠ t, s'.snapshotTable t' = s.snapshotTable t')
    (hfits : ∀ x ∈ s'.narrowed, x ∈ s.narrowed ∨ x.val < 2 ^ 128) :
    PowerMoved block t src dst w w' s s' where
  tracked u := by
    by_cases hu : u ∈ ends 0 src dst
    · exact .recorded (hwritten.recorded u hu)
    · exact .kept (hwritten.kept u hu) (hshift.kept hu)
  untouched u hzero hnil := by
    have hu : u ∉ ends 0 src dst := by
      intro hu
      rw [hwritten.recorded u hu] at hnil
      exact record_ne_nil _ _ _ hnil
    by_cases hsame : src = dst
    · exact Or.inl hsame
    · exact Or.inr ⟨fun hsrc => hu ⟨hsame, hzero, Or.inl hsrc⟩,
        fun hdst => hu ⟨hsame, hzero, Or.inr hdst⟩⟩
  zero := hwritten.kept 0 fun hzero => hzero.2.1 rfl
  others := hothers
  fits := hfits

theorem WrittenFor.of_self (heq : src = dst) (w' : Address → ℕ) (s : Token) :
    WrittenFor block t (ends 0 src dst) w' s s where
  recorded _ hu := absurd heq hu.1
  kept _ _ := rfl

theorem PowerMoved.of_self (hshift : Shift src dst n w w') (heq : src = dst) (s : Token) :
    PowerMoved block t src dst w w' s s :=
  .of_written hshift (.of_self heq w' s) (fun _ _ => rfl) fun _ hx => Or.inl hx

end Moved

/-- One half of a movement: skipped for account zero, else recorded with values
that survive the conversion to `uint128`. -/
def RecordedIfSet (block : ℕ) (t : DelegationType) (user : Address) (value : ℕ)
    (s s' : Token) : Prop :=
  (user ≠ 0 ∧ Recorded block t user value s s' ∧
    ∀ x ∈ s'.narrowed, x ∈ s.narrowed ∨ x.val < 2 ^ 128) ∨ (user = 0 ∧ s' = s)

namespace RecordedIfSet

variable {block : ℕ} {t : DelegationType} {user : Address} {value : ℕ} {s s' : Token}
  (h : RecordedIfSet block t user value s s')
include h

theorem fits : ∀ x ∈ s'.narrowed, x ∈ s.narrowed ∨ x.val < 2 ^ 128 := by
  rcases h with ⟨-, -, hfits⟩ | ⟨-, rfl⟩
  · exact hfits
  · exact fun x hx => Or.inl hx

theorem others : ∀ t' ≠ t, s'.snapshotTable t' = s.snapshotTable t' := by
  rcases h with ⟨-, hrecorded, -⟩ | ⟨-, rfl⟩
  · exact hrecorded.others
  · exact fun _ _ => rfl

theorem history_of_ne {u : Address} (hne : u ≠ user) : s'.history t u = s.history t u := by
  rcases h with ⟨-, hrecorded, -⟩ | ⟨-, rfl⟩
  · exact hrecorded.rest u hne
  · rfl

theorem history_zero : s'.history t 0 = s.history t 0 := by
  rcases h with ⟨hne, hrecorded, -⟩ | ⟨-, rfl⟩
  · exact hrecorded.rest 0 hne.symm
  · rfl

theorem history_self (hne : user ≠ 0) :
    s'.history t user = record (s.history t user) block value := by
  rcases h with ⟨-, hrecorded, -⟩ | ⟨hzero, -⟩
  · exact hrecorded.self
  · exact absurd hzero hne

end RecordedIfSet

section Halves

variable {block : ℕ} {t : DelegationType} {src dst : Address} {n : ℕ} {w w' : Address → ℕ}
  {s s₁ s' : Token} (hne : src ≠ dst) (hfirst : RecordedIfSet block t src (w' src) s s₁)
  (hsecond : RecordedIfSet block t dst (w' dst) s₁ s')
include hne hfirst hsecond

/-- Both halves together, for two different accounts. -/
theorem WrittenFor.of_halves : WrittenFor block t (ends 0 src dst) w' s s' where
  recorded u hu := by
    obtain ⟨-, hzero, hend⟩ := hu
    by_cases hdst : u = dst
    · subst hdst
      rw [hsecond.history_self hzero, hfirst.history_of_ne (Ne.symm hne)]
    · have hsrc : u = src := hend.resolve_right hdst
      subst hsrc
      rw [hsecond.history_of_ne hdst, hfirst.history_self hzero]
  kept u hu := by
    by_cases hzero : u = 0
    · subst hzero
      exact hsecond.history_zero.trans hfirst.history_zero
    · have hsrc : u ≠ src := fun hsrc => hu ⟨hne, hzero, Or.inl hsrc⟩
      have hdst : u ≠ dst := fun hdst => hu ⟨hne, hzero, Or.inr hdst⟩
      exact (hsecond.history_of_ne hdst).trans (hfirst.history_of_ne hsrc)

omit hne in
theorem RecordedIfSet.others_trans : ∀ t' ≠ t, s'.snapshotTable t' = s.snapshotTable t' :=
  fun t' ht => (hsecond.others t' ht).trans (hfirst.others t' ht)

omit hne in
theorem RecordedIfSet.fits_trans : ∀ x ∈ s'.narrowed, x ∈ s.narrowed ∨ x.val < 2 ^ 128 := by
  intro x hx
  rcases hsecond.fits x hx with hx₁ | hfits
  · exact hfirst.fits x hx₁
  · exact Or.inr hfits

theorem PowerMoved.of_halves (hshift : Shift src dst n w w') :
    PowerMoved block t src dst w w' s s' :=
  .of_written hshift (.of_halves hne hfirst hsecond) (hfirst.others_trans hsecond)
    (hfirst.fits_trans hsecond)

end Halves

theorem uint128_val_of_lt {x : Uint256} (hlt : x.val < 2 ^ 128) : (uint128 x).val = x.val :=
  Nat.mod_eq_of_lt hlt

/-- A half of a movement whose conversions keep the value. -/
theorem RecordedIfSet.of_recorded {block : ℕ} {t : DelegationType} {user : Address}
    {value : ℕ} {s s' : Token} {before after : Uint256} (hne : user ≠ 0)
    (hrecorded : Recorded block t user (uint128 after).val s s')
    (hnarrowed : s'.narrowed = s.narrowed ++ [before, after])
    (hbefore : before.val < 2 ^ 128) (hafter : after.val = value) (hvalue : value < 2 ^ 128) :
    RecordedIfSet block t user value s s' := by
  rw [uint128_val_of_lt (by rwa [hafter]), hafter] at hrecorded
  refine Or.inl ⟨hne, hrecorded, ?_⟩
  intro x hx
  rw [hnarrowed, List.mem_append, List.mem_cons, List.mem_singleton] at hx
  rcases hx with hold | rfl | rfl
  · exact Or.inl hold
  · exact Or.inr hbefore
  · exact Or.inr (by rwa [hafter])

section Hooks

variable {env : Env} {now : ℕ} {src dst : Address} {amount : Uint256} {w w' : Address → ℕ}
  {s s' : Token}

/-- The snapshots V1 takes follow the balances. -/
theorem PlmyToken.powerMoved_beforeTokenTransfer
    (h : beforeTokenTransfer env src dst amount s = .ok s')
    (hsorted : (s.snapshotTable .votingPower).SortedUpTo now)
    (hnow : now ≤ env.block.number.val)
    (hshift : Shift src dst amount.val w w') (hbalances : ∀ u, s.holdings u = w u)
    (hbefore : ∀ u, w u < 2 ^ 128) (hafter : ∀ u, w' u < 2 ^ 128) :
    PowerMoved env.block.number.val .votingPower src dst w w' s s' := by
  unfold beforeTokenTransfer at h
  by_cases heq : src = dst
  · simp only [heq, ↓reduceIte, pure_eq_ok] at h
    rw [← h]
    exact .of_self hshift heq s
  simp only [heq, ↓reduceIte, bind_eq_ok, pure_eq_ok, ite_pure_eq_ok, SafeMath.sub_eq_ok,
    SafeMath.add_eq_ok] at h
  obtain ⟨s₁, hfirst, s₂, hsecond, _, _, rfl⟩ := h
  have hhalf₁ : RecordedIfSet env.block.number.val .votingPower src (w' src) s s₁ ∧
      s₁.balances = s.balances ∧
      (s₁.snapshotTable .votingPower).SortedUpTo env.block.number.val := by
    rcases hfirst with ⟨hne, debited, ⟨hle, hdebited⟩, hwrite⟩ | ⟨hzero, rfl⟩
    · obtain ⟨hrecorded, hnarrowed⟩ := recorded_writeNarrowed hwrite hsorted hnow
      have hval : (s.balances src).val = w src := hbalances src
      have hdebit := hshift.debit heq hne
      refine ⟨.of_recorded hne hrecorded hnarrowed ?_ ?_ (hafter src),
        (onlySnapshots_writeNarrowed hwrite).balances, hrecorded.sorted⟩
      · rw [hval]
        exact hbefore src
      · omega
    · exact ⟨Or.inr ⟨not_not.mp hzero, rfl⟩, rfl, hsorted.mono hnow⟩
  obtain ⟨hrecord₁, hkept, hsorted₁⟩ := hhalf₁
  refine .of_halves heq hrecord₁ ?_ hshift
  rcases hsecond with ⟨hne, credited, hcredited, hwrite⟩ | ⟨hzero, rfl⟩
  · obtain ⟨hrecorded, hnarrowed⟩ := recorded_writeNarrowed hwrite hsorted₁ le_rfl
    have hval : (s₁.balances dst).val = w dst := by
      rw [hkept]
      exact hbalances dst
    have hcredit := hshift.credit heq hne
    refine .of_recorded hne hrecorded hnarrowed ?_ ?_ (hafter dst)
    · rw [hval]
      exact hbefore dst
    · omega
  · exact Or.inr ⟨not_not.mp hzero, rfl⟩

/-- One half of a move of V2: skipped for account zero, else the power of the
user is set to a value. -/
def PowerHalf (env : Env) (t : DelegationType) (user : Address) (value : ℕ) (s s' : Token) :
    Prop :=
  (user ≠ 0 ∧ ∃ changed : Uint256, changed.val = value ∧
    changePower env user (fun _ => .ok changed) t s = .ok s') ∨ (user = 0 ∧ s' = s)

namespace GovernancePowerDelegation

variable {t : DelegationType} {user : Address} {change : Uint256 → Result Uint256}

/-- Changing a power is setting it to the changed value. -/
theorem changePower_set (h : changePower env user change t s = .ok s') :
    ∃ changed, change (previousPower user t s) = .ok changed ∧
      changePower env user (fun _ => .ok changed) t s = .ok s' := by
  obtain ⟨changed, hchange, hrest⟩ := bind_eq_ok.mp h
  exact ⟨changed, hchange, hrest⟩

theorem previousPower_changePower_of_ne (h : changePower env user change t s = .ok s')
    {u : Address} (hne : u ≠ user) : previousPower u t s' = previousPower u t s := by
  obtain ⟨changed, -, hwrite, -, -, -⟩ := changePower_cases h
  obtain ⟨hsnapshots, hcounts⟩ := writeSnapshot_of_ne hwrite hne
  simp only [previousPower, hsnapshots, hcounts, (onlySnapshots_changePower h).balances]

/-- A move between two accounts sets the two powers the shift ends with. -/
theorem halves_moveDelegatesByType (h : moveDelegatesByType env src dst amount t s = .ok s')
    (hne : src ≠ dst) (hshift : Shift src dst amount.val w w')
    (hprevious : ∀ u, (previousPower u t s).val = w u) :
    ∃ s₁, PowerHalf env t src (w' src) s s₁ ∧ PowerHalf env t dst (w' dst) s₁ s' ∧
      previousPower dst t s₁ = previousPower dst t s := by
  simp only [moveDelegatesByType, hne, ↓reduceIte, bind_eq_ok, ite_pure_eq_ok] at h
  obtain ⟨s₁, hfirst, hsecond⟩ := h
  have hdebit : PowerHalf env t src (w' src) s s₁ ∧
      previousPower dst t s₁ = previousPower dst t s := by
    rcases hfirst with ⟨hsrc, hchange⟩ | ⟨hzero, rfl⟩
    · obtain ⟨debited, hsub, hset⟩ := changePower_set hchange
      obtain ⟨hle, hdebited⟩ := SafeMath.sub_eq_ok.mp hsub
      have hval := hprevious src
      have hdebit := hshift.debit hne hsrc
      exact ⟨Or.inl ⟨hsrc, debited, by omega, hset⟩,
        previousPower_changePower_of_ne hchange (Ne.symm hne)⟩
    · exact ⟨Or.inr ⟨not_not.mp hzero, rfl⟩, rfl⟩
  obtain ⟨hhalf, hkept⟩ := hdebit
  refine ⟨s₁, hhalf, ?_, hkept⟩
  rcases hsecond with ⟨hdst, hchange⟩ | ⟨hzero, rfl⟩
  · obtain ⟨credited, hadd, hset⟩ := changePower_set hchange
    rw [hkept] at hadd
    have hcredited := SafeMath.add_eq_ok.mp hadd
    have hval := hprevious dst
    have hcredit := hshift.credit hne hdst
    exact Or.inl ⟨hdst, credited, by omega, hset⟩
  · exact Or.inr ⟨not_not.mp hzero, rfl⟩

end GovernancePowerDelegation

namespace PowerHalf

variable {t : DelegationType} {user : Address} {value : ℕ} {w₁ : Address → ℕ}

/-- A half is recorded, if the values fit. -/
theorem recorded (h : PowerHalf env t user value s s')
    (hsorted : (s.snapshotTable t).SortedUpTo now) (hnow : now ≤ env.block.number.val)
    (hbefore : (previousPower user t s).val < 2 ^ 128) (hafter : value < 2 ^ 128) :
    RecordedIfSet env.block.number.val t user value s s' ∧
      (s'.snapshotTable t).SortedUpTo env.block.number.val := by
  rcases h with ⟨hne, changed, hvalue, hset⟩ | ⟨hzero, rfl⟩
  · obtain ⟨_, hchanged, hrecorded, hnarrowed⟩ := recorded_changePower hset hsorted hnow
    cases hchanged
    exact ⟨.of_recorded hne hrecorded hnarrowed hbefore hvalue hafter, hrecorded.sorted⟩
  · exact ⟨Or.inr ⟨hzero, rfl⟩, hsorted.mono hnow⟩

/-- A half announces the power it sets. -/
theorem announced (h : PowerHalf env t user (w₁ user) s s') (hrest : ∀ u ≠ user, w₁ u = w u)
    (hzero : w₁ 0 = w 0) : Announced t w w₁ s s' := by
  rcases h with ⟨-, changed, hvalue, hset⟩ | ⟨huser, rfl⟩
  · obtain ⟨_, hchanged, -, -, -, hlog⟩ := changePower_cases hset
    cases hchanged
    exact ⟨_, hlog, .single hvalue hrest, fun t' hne => silent_of_other hne.symm user changed⟩
  · have hsame : w₁ = w := by
      funext u
      by_cases hu : u = 0
      · rw [hu, hzero]
      · exact hrest u (huser ▸ hu)
    rw [hsame]
    exact announced_of_sameLog rfl w

end PowerHalf

/-- What a move of V2 does to the powers of its type: both ends are recorded and
announced, and nobody else. -/
structure PowerWritten (block : ℕ) (t : DelegationType) (src dst : Address)
    (w w' : Address → ℕ) (s s' : Token) : Prop where
  written : WrittenFor block t (ends 0 src dst) w' s s'
  others : ∀ t' ≠ t, s'.snapshotTable t' = s.snapshotTable t'
  fits : ∀ x ∈ s'.narrowed, x ∈ s.narrowed ∨ x.val < 2 ^ 128
  announced : Announced t w w' s s'

theorem PowerWritten.moved {block : ℕ} {t : DelegationType} {n : ℕ}
    (h : PowerWritten block t src dst w w' s s') (hshift : Shift src dst n w w') :
    PowerMoved block t src dst w w' s s' :=
  .of_written hshift h.written h.others h.fits

/-- The snapshots V2 takes and the events it emits follow the powers, if the
snapshots did so before. -/
theorem GovernancePowerDelegation.powerWritten_moveDelegatesByType {t : DelegationType}
    (h : moveDelegatesByType env src dst amount t s = .ok s')
    (hsorted : (s.snapshotTable t).SortedUpTo now) (hnow : now ≤ env.block.number.val)
    (hshift : Shift src dst amount.val w w')
    (hprevious : ∀ u, (previousPower u t s).val = w u)
    (hbefore : ∀ u, w u < 2 ^ 128) (hafter : ∀ u, w' u < 2 ^ 128) :
    PowerWritten env.block.number.val t src dst w w' s s' := by
  by_cases heq : src = dst
  · have hsame : w' = w := funext fun u => hshift.rest u (Or.inl heq)
    simp only [moveDelegatesByType, heq, ↓reduceIte, pure_eq_ok] at h
    rw [← h, hsame]
    exact ⟨.of_self heq w s, fun _ _ => rfl, fun _ hx => Or.inl hx, announced_of_sameLog rfl w⟩
  obtain ⟨s₁, hfirst, hsecond, hkept⟩ := halves_moveDelegatesByType h heq hshift hprevious
  have hfits : ∀ u, (previousPower u t s).val < 2 ^ 128 := fun u => (hprevious u).symm ▸ hbefore u
  obtain ⟨hrecorded₁, hsorted₁⟩ := hfirst.recorded hsorted hnow (hfits src) (hafter src)
  obtain ⟨hrecorded₂, -⟩ := hsecond.recorded hsorted₁ le_rfl (hkept ▸ hfits dst) (hafter dst)
  refine ⟨.of_halves heq hrecorded₁ hrecorded₂, hrecorded₁.others_trans hrecorded₂,
    hrecorded₁.fits_trans hrecorded₂, ?_⟩
  -- between the halves only the power of `src` is new
  have hzero : w' 0 = w 0 := hshift.rest 0 (Or.inr (Or.inl rfl))
  have hmiddle : Function.update w src (w' src) 0 = w 0 := by
    by_cases h0 : src = 0
    · rw [h0, Function.update_self, hzero]
    · exact Function.update_of_ne (Ne.symm h0) _ _
  have hdebited : Announced t w (Function.update w src (w' src)) s s₁ := by
    have hset : PowerHalf env t src (Function.update w src (w' src) src) s s₁ := by
      rwa [Function.update_self]
    exact hset.announced (fun u hu => Function.update_of_ne hu _ _) hmiddle
  apply hdebited.trans (hsecond.announced _ (hzero.trans hmiddle.symm))
  intro u hdst
  by_cases hsrc : u = src
  · rw [hsrc, Function.update_self]
  · rw [Function.update_of_ne hsrc]
    exact hshift.kept fun hu => hu.2.2.elim hsrc hdst

end Hooks

end Palmy
