/-
The accounts of the vesting contract: what it owes in all is the sum of what
its schedules owe, and it holds at least that much.
-/
import Palmy.VestingChanges

namespace Palmy

open Solidity

namespace TokenVesting

variable {d : Deployment}

/-- The byte strings whose hashes are ids in use. -/
def hashed (s : TokenVesting d) : Set Bytes :=
  {bytes | ∃ holder index, index < s.holdersVestingCount holder ∧
    bytes = holder.packed ++ wordBytes index}

/-- A bound token stays. -/
def TokenFixed (s : TokenVesting d) : Prop :=
  s.token ≠ 0 → ¬ Succeeds (d.initializable.initializer s.initialized)

/-- What holds of the schedule stored at `id` at time `now`: no more is released
than has vested, its terms were checked, and its id was handed out. -/
structure Vesting (d : Deployment) (now : Uint256) (counts : Address → Uint256) (id : Bytes32)
    (g : VestingSchedule) : Prop where
  released_le : g.released.val ≤ g.amountTotal.val
  released_le_vested : g.Active → g.released.val ≤ g.vestedAt now
  sound : g.initialized = true → g.Sound
  registered : g.initialized = true → ∃ holder index, index < counts holder ∧
    id = computeVestingScheduleIdForAddressAndIndex d holder index

/-- Every schedule vests. -/
def AllVesting (now : Uint256) (s : TokenVesting d) : Prop :=
  ∀ id, Vesting d now s.holdersVestingCount id (s.vestingSchedules id)

/-- The books balance at time `now`. -/
structure Accounted (now : Uint256) (s : TokenVesting d) : Prop where
  total : s.vestingSchedulesTotalAmount.val = ∑ id, (s.vestingSchedules id).outstanding
  vesting : ∀ id, Vesting d now s.holdersVestingCount id (s.vestingSchedules id)
  funded : s.token ≠ 0 →
    s.vestingSchedulesTotalAmount.val ≤ d.tokens.holdings s.token s.ledger d.self
  unbound : s.token = 0 → ∀ id, (s.vestingSchedules id).initialized = false
  idle : Succeeds (d.guard.enter s.status)

theorem tokenFixed_genesis (owner : Address) (ledger : d.tokens.Ledger) :
    TokenFixed (genesis d owner ledger) := fun hne => absurd rfl hne

theorem allVesting_genesis (now : Uint256) (owner : Address) (ledger : d.tokens.Ledger) :
    AllVesting now (genesis d owner ledger) := fun _ =>
  { released_le := Nat.le_refl _
    released_le_vested := fun _ => Nat.zero_le _
    sound := fun h => absurd h Bool.false_ne_true
    registered := fun h => absurd h Bool.false_ne_true }

theorem accounted_genesis (hdoc : d.Documented) (now : Uint256) (owner : Address)
    (ledger : d.tokens.Ledger) : Accounted now (genesis d owner ledger) where
  total := by
    rw [Finset.sum_eq_zero]
    · rfl
    · intro id _
      exact VestingSchedule.outstanding_of_not_active fun h => Bool.false_ne_true h.1
  vesting := allVesting_genesis now owner ledger
  funded h := absurd rfl h
  unbound _ _ := rfl
  idle := hdoc.guard.succeeds_idle

section Changes

variable {now : Uint256} {s : TokenVesting d} {id : Bytes32} {g : VestingSchedule}

theorem Vesting.mono {t : Uint256} {counts : Address → Uint256}
    (h : Vesting d now counts id g) (hle : now ≤ t) : Vesting d t counts id g :=
  { h with released_le_vested := fun hactive =>
      Nat.le_trans (h.released_le_vested hactive) (g.vestedAt_mono hle) }

/-- What is released has vested, and at any later time the formula gives the
rest. -/
theorem Vesting.due {t : Uint256} {counts : Address → Uint256} (h : Vesting d now counts id g)
    (hdoc : d.safeMath.Documented) (hactive : g.Active) (hfits : g.Fits) (hle : now ≤ t) :
    g.released.val ≤ g.vestedAt t ∧
      ∃ due, computeReleasableAmountInternal d t g = .ok due ∧
        g.released.val + due.val = g.vestedAt t := by
  have hreleased := (h.mono hle).released_le_vested hactive
  obtain ⟨due, hdue, hval⟩ := computeReleasableAmountInternal_eq hdoc hactive (h.sound hactive.1)
    hfits hreleased
  exact ⟨hreleased, due, hdue, by omega⟩

theorem Vesting.of_counts_le {counts counts' : Address → Uint256}
    (h : Vesting d now counts id g) (hle : ∀ holder, counts holder ≤ counts' holder) :
    Vesting d now counts' id g := by
  refine { h with registered := fun hinitialized => ?_ }
  obtain ⟨holder, index, hlt, hid⟩ := h.registered hinitialized
  exact ⟨holder, index, Nat.lt_of_lt_of_le hlt (hle holder), hid⟩

theorem Accounted.mono {t : Uint256} (hinv : Accounted now s) (hle : now ≤ t) :
    Accounted t s :=
  { hinv with vesting := fun id => (hinv.vesting id).mono hle }

theorem Accounted.token_ne_zero (hinv : Accounted now s)
    (hactive : (s.vestingSchedules id).Active) : s.token ≠ 0 := by
  intro hzero
  exact Bool.false_ne_true ((hinv.unbound hzero id).symm.trans hactive.1)

/-- What one schedule owes is part of what is owed in all. -/
theorem Accounted.outstanding_le_total (hinv : Accounted now s) (id : Bytes32) :
    (s.vestingSchedules id).outstanding ≤ s.vestingSchedulesTotalAmount.val := by
  rw [hinv.total]
  exact Finset.single_le_sum (f := fun id => (s.vestingSchedules id).outstanding)
    (fun _ _ => Nat.zero_le _) (Finset.mem_univ id)

/-- Rewriting one schedule changes what is owed in all by the difference. -/
theorem Accounted.total_update (hinv : Accounted now s) (id : Bytes32) (g : VestingSchedule) :
    ∑ j, (Function.update s.vestingSchedules id g j).outstanding +
        (s.vestingSchedules id).outstanding =
      s.vestingSchedulesTotalAmount.val + g.outstanding := by
  rw [hinv.total]
  exact Delegation.total_update VestingSchedule.outstanding s.vestingSchedules id g

theorem vesting_update {counts : Address → Uint256}
    (hall : ∀ j, Vesting d now counts j (s.vestingSchedules j)) (hg : Vesting d now counts id g) :
    ∀ j, Vesting d now counts j (Function.update s.vestingSchedules id g j) :=
  (Function.forall_update_iff s.vestingSchedules _).mpr ⟨hg, fun j _ => hall j⟩

theorem le_update_count {beneficiary : Address} {count : Uint256}
    (hcount : count.val = (s.holdersVestingCount beneficiary).val + 1) (holder : Address) :
    s.holdersVestingCount holder ≤
      Function.update s.holdersVestingCount beneficiary count holder := by
  have hgrown : s.holdersVestingCount beneficiary ≤ count := Fin.le_def.mpr (by omega)
  exact le_update_self_iff.mpr hgrown holder

section Create

variable {beneficiary : Address} {count : Uint256}

/-- Ids in use stay in use when a holder gets another one. -/
theorem hashed_subset_of_count {s' : TokenVesting d}
    (hcount : count.val = (s.holdersVestingCount beneficiary).val + 1)
    (hcounts : s'.holdersVestingCount =
      Function.update s.holdersVestingCount beneficiary count) : s.hashed ⊆ s'.hashed := by
  rintro bytes ⟨holder, index, hlt, hbytes⟩
  have hgrown := le_update_count hcount holder
  exact ⟨holder, index, Nat.lt_of_lt_of_le hlt (hcounts ▸ hgrown), hbytes⟩

theorem lt_update_count (hcount : count.val = (s.holdersVestingCount beneficiary).val + 1) :
    s.holdersVestingCount beneficiary <
      Function.update s.holdersVestingCount beneficiary count beneficiary := by
  rw [Function.update_self, Fin.lt_def]
  omega

/-- The next id of a holder is not taken, unless two ids collide. -/
theorem next_unused (hall : AllVesting now s) {s' : TokenVesting d}
    (hcount : count.val = (s.holdersVestingCount beneficiary).val + 1)
    (hcounts : s'.holdersVestingCount =
      Function.update s.holdersVestingCount beneficiary count)
    (hcollision : Set.InjOn d.keccak256 s'.hashed) :
    ¬ (s.vestingSchedules
      (computeNextVestingScheduleIdForHolder d s beneficiary)).initialized = true := by
  intro htaken
  obtain ⟨holder, index, hlt, hid⟩ := (hall _).registered htaken
  have hnext : beneficiary.packed ++ wordBytes (s.holdersVestingCount beneficiary) ∈
      s'.hashed := ⟨beneficiary, _, hcounts ▸ lt_update_count hcount, rfl⟩
  have hsame := hcollision hnext (hashed_subset_of_count hcount hcounts
    ⟨holder, index, hlt, rfl⟩) hid
  obtain ⟨rfl, rfl⟩ := Address.packed_append_inj hsame
  exact lt_irrefl _ hlt

/-- A new schedule vests, and the others go on. -/
theorem vesting_create (hall : AllVesting now s) (hnew : g.New)
    (hcount : count.val = (s.holdersVestingCount g.beneficiary).val + 1) :
    ∀ id, Vesting d now (Function.update s.holdersVestingCount g.beneficiary count) id
      (Function.update s.vestingSchedules
        (computeNextVestingScheduleIdForHolder d s g.beneficiary) g id) := by
  have hnothing : ∀ limit : ℕ, g.released.val ≤ limit := fun limit =>
    hnew.released.symm ▸ Nat.zero_le limit
  apply vesting_update fun id => (hall id).of_counts_le (le_update_count hcount)
  exact
    { released_le := hnothing _
      released_le_vested := fun _ => hnothing _
      sound := fun _ => hnew.toSound
      registered := fun _ => ⟨g.beneficiary, s.holdersVestingCount g.beneficiary,
        lt_update_count hcount, rfl⟩ }

end Create

theorem vesting_pay (hall : AllVesting now s) (hactive : (s.vestingSchedules id).Active)
    {amount released : Uint256}
    (hreleased : released.val = (s.vestingSchedules id).released.val + amount.val)
    (hvested : amount.val = 0 ∨ released.val ≤ (s.vestingSchedules id).vestedAt now) :
    ∀ j, Vesting d now s.holdersVestingCount j (Function.update s.vestingSchedules id
      { s.vestingSchedules id with released := released } j) := by
  have hbefore := hall id
  have hdue : released.val ≤ (s.vestingSchedules id).vestedAt now := by
    have := hbefore.released_le_vested hactive
    omega
  apply vesting_update hall
  exact
    { released_le := Nat.le_trans hdue (VestingSchedule.vestedAt_le _ _)
      released_le_vested := fun _ => hdue
      sound := fun h => (hbefore.sound h).of_terms rfl rfl
      registered := hbefore.registered }

theorem vesting_close (hall : AllVesting now s) :
    ∀ j, Vesting d now s.holdersVestingCount j (Function.update s.vestingSchedules id
      { s.vestingSchedules id with revoked := true } j) := by
  have hbefore := hall id
  apply vesting_update hall
  exact
    { released_le := hbefore.released_le
      released_le_vested := fun h => absurd h.2.symm Bool.false_ne_true
      sound := fun h => (hbefore.sound h).of_terms rfl rfl
      registered := hbefore.registered }

/-- Before a token is bound there is nothing to pay for. -/
theorem Accounted.bind (hinv : Accounted now s) (hfixed : s.TokenFixed) {token : Address}
    {initialized : d.initializable.Slot}
    (hfirst : d.initializable.initializer s.initialized = .ok initialized) (htoken : token ≠ 0) :
    Accounted now { s with initialized := initialized, token := token } := by
  have hunbound : s.token = 0 := by
    by_contra hne
    exact hfixed hne ⟨initialized, hfirst⟩
  have hzero : ∑ id, (s.vestingSchedules id).outstanding = 0 := by
    apply Finset.sum_eq_zero
    intro id _
    apply VestingSchedule.outstanding_of_not_active
    intro hactive
    exact hinv.token_ne_zero hactive hunbound
  refine { hinv with funded := fun _ => ?_, unbound := fun h => absurd h htoken }
  change s.vestingSchedulesTotalAmount.val ≤ _
  rw [hinv.total, hzero]
  exact Nat.zero_le _

theorem Accounted.create (hinv : Accounted now s) (hnew : g.New)
    {balance total count : Uint256} {ids : List Bytes32} {log : List VestingEvent}
    (hbalance : d.tokens.balanceOf s.token d.self s.ledger = .ok balance)
    (hroom : s.vestingSchedulesTotalAmount.val + g.amountTotal.val ≤ balance.val)
    (htotal : total.val = s.vestingSchedulesTotalAmount.val + g.amountTotal.val)
    (hcount : count.val = (s.holdersVestingCount g.beneficiary).val + 1)
    (hcollision : Set.InjOn d.keccak256 (hashed { s with
      holdersVestingCount := Function.update s.holdersVestingCount g.beneficiary count })) :
    Accounted now { s with
      vestingSchedules := Function.update s.vestingSchedules
        (computeNextVestingScheduleIdForHolder d s g.beneficiary) g
      vestingSchedulesTotalAmount := total
      vestingSchedulesIds := ids
      holdersVestingCount := Function.update s.holdersVestingCount g.beneficiary count
      log := log } := by
  have hunused := next_unused hinv.vesting hcount rfl hcollision
  have hsum := hinv.total_update (computeNextVestingScheduleIdForHolder d s g.beneficiary) g
  rw [VestingSchedule.outstanding_of_not_active fun hactive => hunused hactive.1,
    VestingSchedule.outstanding_of_active hnew.active, hnew.released] at hsum
  exact
    { total := by
        change total.val = ∑ j, (Function.update s.vestingSchedules _ g j).outstanding
        omega
      vesting := vesting_create hinv.vesting hnew hcount
      funded := fun _ => by
        change total.val ≤ d.tokens.holdings s.token s.ledger d.self
        rw [OpenZeppelin.Tokens.holdings_of_balanceOf hbalance]
        omega
      unbound := fun hzero =>
        absurd hzero (OpenZeppelin.Tokens.token_ne_zero_of_balanceOf hbalance)
      idle := hinv.idle }

theorem Accounted.pay (hinv : Accounted now s) (hdoc : d.Documented)
    (hfaithful : d.tokens.Faithful s.token) {amount released total : Uint256}
    {entered : d.guard.Slot} {ledger : d.tokens.Ledger} {log : List VestingEvent}
    (henter : d.guard.enter s.status = .ok entered)
    (hactive : (s.vestingSchedules id).Active)
    (hreleased : released.val = (s.vestingSchedules id).released.val + amount.val)
    (hvested : amount.val = 0 ∨ released.val ≤ (s.vestingSchedules id).vestedAt now)
    (hle : amount.val ≤ s.vestingSchedulesTotalAmount.val)
    (htotal : total.val = s.vestingSchedulesTotalAmount.val - amount.val)
    (hpaid : d.tokens.safeTransfer s.token d.self (s.vestingSchedules id).beneficiary amount
      s.ledger = .ok ledger) :
    Accounted now { s with
      status := d.guard.leave entered
      vestingSchedules := Function.update s.vestingSchedules id
        { s.vestingSchedules id with released := released }
      vestingSchedulesTotalAmount := total
      ledger := ledger
      log := log } := by
  have hvesting := vesting_pay hinv.vesting hactive hreleased hvested
  have hamount : released.val ≤ (s.vestingSchedules id).amountTotal.val := by
    have hpaid := (hvesting id).released_le
    rwa [Function.update_self] at hpaid
  have hsum := hinv.total_update id { s.vestingSchedules id with released := released }
  rw [VestingSchedule.outstanding_of_active hactive,
    VestingSchedule.outstanding_of_active (g := { s.vestingSchedules id with released := released })
      hactive] at hsum
  have htoken := hinv.token_ne_zero hactive
  exact
    { total := by
        change total.val = ∑ j, (Function.update s.vestingSchedules id _ j).outstanding
        change _ = _ + ((s.vestingSchedules id).amountTotal.val - released.val) at hsum
        have := (hinv.vesting id).released_le
        omega
      vesting := hvesting
      funded := fun _ => by
        have hkept := hfaithful.holdings_sender_le hpaid
        have hfunded := hinv.funded htoken
        change total.val ≤ d.tokens.holdings s.token ledger d.self
        omega
      unbound := fun hzero => absurd hzero htoken
      idle := hdoc.guard.succeeds_left _ _ henter }

theorem Accounted.close (hinv : Accounted now s) {total : Uint256} {log : List VestingEvent}
    (hactive : (s.vestingSchedules id).Active)
    (hle : (s.vestingSchedules id).outstanding ≤ s.vestingSchedulesTotalAmount.val)
    (htotal : total.val =
      s.vestingSchedulesTotalAmount.val - (s.vestingSchedules id).outstanding) :
    Accounted now { s with
      vestingSchedules := Function.update s.vestingSchedules id
        { s.vestingSchedules id with revoked := true }
      vestingSchedulesTotalAmount := total
      log := log } := by
  have hclosed : ¬ { s.vestingSchedules id with revoked := true }.Active :=
    fun h => Bool.false_ne_true h.2.symm
  have hsum := hinv.total_update id { s.vestingSchedules id with revoked := true }
  rw [VestingSchedule.outstanding_of_not_active hclosed] at hsum
  have htoken := hinv.token_ne_zero hactive
  exact
    { total := by
        change total.val = ∑ j, (Function.update s.vestingSchedules id _ j).outstanding
        omega
      vesting := vesting_close hinv.vesting
      funded := fun _ => by
        have hfunded := hinv.funded htoken
        change total.val ≤ d.tokens.holdings s.token s.ledger d.self
        omega
      unbound := fun hzero => absurd hzero htoken
      idle := hinv.idle }

theorem Accounted.withdraw (hinv : Accounted now s) (hdoc : d.Documented)
    (hfaithful : d.tokens.Faithful s.token) {recipient : Address} {amount balance : Uint256}
    {entered : d.guard.Slot} {ledger : d.tokens.Ledger}
    (henter : d.guard.enter s.status = .ok entered)
    (hbalance : d.tokens.balanceOf s.token d.self s.ledger = .ok balance)
    (hroom : s.vestingSchedulesTotalAmount.val + amount.val ≤ balance.val)
    (hpaid : d.tokens.safeTransfer s.token d.self recipient amount s.ledger = .ok ledger) :
    Accounted now { s with status := d.guard.leave entered, ledger := ledger } := by
  refine { hinv with funded := fun _ => ?_, idle := hdoc.guard.succeeds_left _ _ henter }
  have hkept := hfaithful.holdings_sender_le hpaid
  rw [OpenZeppelin.Tokens.holdings_of_balanceOf hbalance] at hkept
  change s.vestingSchedulesTotalAmount.val ≤ d.tokens.holdings s.token ledger d.self
  omega

end Changes

end TokenVesting

end Palmy
