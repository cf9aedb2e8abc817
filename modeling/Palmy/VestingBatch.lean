/-
Everybody collects.  Releases of whatever schedules never get in each other's
way: a batch of them goes through exactly when no schedule is asked for more
than it owes by then, and what it leaves behind does not depend on its order.
-/
import Palmy.VestingCollection

namespace Palmy

open Solidity

/-- One release as somebody asks for it. -/
structure ReleaseRequest where
  msgSender : Address
  vestingScheduleId : Bytes32
  amount : Uint256

namespace ReleaseRequest

/-- All that a batch asks of one schedule. -/
def asked (id : Bytes32) (requests : List ReleaseRequest) : ℕ :=
  (requests.map fun r => if r.vestingScheduleId = id then r.amount.val else 0).sum

/-- All that a batch pays to one account. -/
def paid (schedules : Bytes32 → VestingSchedule) (account : Address)
    (requests : List ReleaseRequest) : ℕ :=
  (requests.map fun r =>
    if (schedules r.vestingScheduleId).beneficiary = account then r.amount.val else 0).sum

/-- All that a batch pays. -/
def askedInAll (requests : List ReleaseRequest) : ℕ := (requests.map fun r => r.amount.val).sum

def events (requests : List ReleaseRequest) : List VestingEvent :=
  requests.map fun r => .released r.vestingScheduleId r.amount

theorem asked_cons (id : Bytes32) (r : ReleaseRequest) (requests : List ReleaseRequest) :
    asked id (r :: requests) =
      (if r.vestingScheduleId = id then r.amount.val else 0) + asked id requests := rfl

theorem asked_perm {first second : List ReleaseRequest} (h : first.Perm second) (id : Bytes32) :
    asked id first = asked id second := (h.map _).sum_eq

theorem paid_perm {first second : List ReleaseRequest} (h : first.Perm second)
    (schedules : Bytes32 → VestingSchedule) (account : Address) :
    paid schedules account first = paid schedules account second := (h.map _).sum_eq

theorem askedInAll_perm {first second : List ReleaseRequest} (h : first.Perm second) :
    askedInAll first = askedInAll second := (h.map _).sum_eq

/-- Who gets paid depends on the beneficiaries only. -/
theorem paid_congr {first second : Bytes32 → VestingSchedule}
    (h : ∀ id, (second id).beneficiary = (first id).beneficiary) (account : Address)
    (requests : List ReleaseRequest) :
    paid second account requests = paid first account requests := by
  simp only [paid, h]

end ReleaseRequest

namespace TokenVesting

open ReleaseRequest

variable {d : Deployment} {t : Uint256} {s s₁ s' : TokenVesting d} {m : Message} {id : Bytes32}
  {amount : Uint256}

/-- The releases of a batch, one after the other at one time. -/
def releaseAll (d : Deployment) (t : Uint256) :
    List ReleaseRequest → TokenVesting d → Result (TokenVesting d)
  | [], s => return s
  | r :: requests, s => do
      let s ← release d ⟨r.msgSender, t⟩ r.vestingScheduleId r.amount s
      releaseAll d t requests s

/-- The sender may release from the schedule. -/
structure Entitled (s : TokenVesting d) (r : ReleaseRequest) : Prop where
  active : (s.vestingSchedules r.vestingScheduleId).Active
  caller : r.msgSender = (s.vestingSchedules r.vestingScheduleId).beneficiary ∨
    r.msgSender = d.ownable.owner s.owner

/-- Nothing happened but payments: `asks` of each schedule, `pays` to each account,
`sum` in all, and `logged` of them. -/
structure Settled (s s' : TokenVesting d) (asks : Bytes32 → ℕ) (pays : Address → ℕ)
    (sum : ℕ) (logged : List VestingEvent) : Prop where
  token : s'.token = s.token
  owner : s'.owner = s.owner
  initialized : s'.initialized = s.initialized
  idle : Succeeds (d.guard.enter s.status) → Succeeds (d.guard.enter s'.status)
  ids : s'.vestingSchedulesIds = s.vestingSchedulesIds
  counts : s'.holdersVestingCount = s.holdersVestingCount
  schedule : ∀ id, ∃ released : Uint256,
    s'.vestingSchedules id = { s.vestingSchedules id with released := released } ∧
    released.val = (s.vestingSchedules id).released.val + asks id
  total : s'.vestingSchedulesTotalAmount.val + sum = s.vestingSchedulesTotalAmount.val
  moved : ∀ account, d.tokens.holdings s'.token s'.ledger account +
      (if d.self = account then sum else 0) =
    d.tokens.holdings s.token s.ledger account + pays account
  log : s'.log = s.log ++ logged

namespace Settled

variable {a a' : Bytes32 → ℕ} {p p' : Address → ℕ} {n n' : ℕ} {e e' : List VestingEvent}

theorem refl (s : TokenVesting d) : Settled s s (fun _ => 0) (fun _ => 0) 0 [] where
  token := rfl
  owner := rfl
  initialized := rfl
  idle h := h
  ids := rfl
  counts := rfl
  schedule _ := ⟨_, rfl, rfl⟩
  total := rfl
  moved account := by rw [ite_self]
  log := (List.append_nil _).symm

theorem trans (hfirst : Settled s s₁ a p n e) (hsecond : Settled s₁ s' a' p' n' e') :
    Settled s s' (fun id => a id + a' id) (fun account => p account + p' account)
      (n + n') (e ++ e') where
  token := hsecond.token.trans hfirst.token
  owner := hsecond.owner.trans hfirst.owner
  initialized := hsecond.initialized.trans hfirst.initialized
  idle h := hsecond.idle (hfirst.idle h)
  ids := hsecond.ids.trans hfirst.ids
  counts := hsecond.counts.trans hfirst.counts
  schedule id := by
    obtain ⟨before, hbefore, hval₁⟩ := hfirst.schedule id
    obtain ⟨after, hafter, hval₂⟩ := hsecond.schedule id
    refine ⟨after, by rw [hafter, hbefore], ?_⟩
    rw [hval₂, hbefore, ← Nat.add_assoc, ← hval₁]
  total := by
    rw [← hfirst.total, ← hsecond.total]
    omega
  moved account := by
    have hbefore := hfirst.moved account
    have hafter := hsecond.moved account
    split_ifs at hbefore hafter ⊢ <;> omega
  log := by rw [hsecond.log, hfirst.log, List.append_assoc]

theorem kept (h : Settled s s' a p n e) (id : Bytes32) :
    (s'.vestingSchedules id).beneficiary = (s.vestingSchedules id).beneficiary ∧
      ((s.vestingSchedules id).Active → (s'.vestingSchedules id).Active) ∧
      ((s.vestingSchedules id).Fits → (s'.vestingSchedules id).Fits) ∧
      (s'.vestingSchedules id).vestedAt t = (s.vestingSchedules id).vestedAt t ∧
      (s'.vestingSchedules id).released.val = (s.vestingSchedules id).released.val + a id := by
  obtain ⟨released, hschedule, hval⟩ := h.schedule id
  rw [hschedule]
  exact ⟨rfl, fun hactive => hactive, fun hfits => ⟨hfits.finish, hfits.product⟩, rfl, hval⟩

theorem entitled (h : Settled s s' a p n e) {r : ReleaseRequest} (hentitled : Entitled s r) :
    Entitled s' r := by
  obtain ⟨hbeneficiary, hactive, -⟩ := h.kept (t := 0) r.vestingScheduleId
  refine ⟨hactive hentitled.active, ?_⟩
  rw [hbeneficiary, h.owner]
  exact hentitled.caller

theorem hashed (h : Settled s s' a p n e) : s'.hashed = s.hashed := by
  unfold TokenVesting.hashed
  rw [h.counts]

/-- What is settled the same way ends the same way. -/
theorem unique (hfirst : Settled s s₁ a p n e) (hsecond : Settled s s' a p n e') :
    s'.vestingSchedules = s₁.vestingSchedules ∧
      s'.vestingSchedulesTotalAmount = s₁.vestingSchedulesTotalAmount ∧
      ∀ account, d.tokens.holdings s'.token s'.ledger account =
        d.tokens.holdings s₁.token s₁.ledger account := by
  refine ⟨?_, ?_, fun account => ?_⟩
  · funext id
    obtain ⟨released, hschedule, hval⟩ := hfirst.schedule id
    obtain ⟨released', hschedule', hval'⟩ := hsecond.schedule id
    rw [hschedule, hschedule', Fin.ext (hval'.trans hval.symm)]
  · have htotal := hfirst.total
    have htotal' := hsecond.total
    exact Fin.ext (by omega)
  · have hmoved := hfirst.moved account
    have hmoved' := hsecond.moved account
    omega

end Settled

theorem settled_of_release (hdoc : d.Documented) (hfaithful : d.tokens.Faithful s.token)
    (h : release d m id amount s = .ok s') :
    Settled s s' (fun other => if id = other then amount.val else 0)
      (fun account => if (s.vestingSchedules id).beneficiary = account then amount.val else 0)
      amount.val [.released id amount] := by
  obtain ⟨_, _, released, total, ledger, henter, -, -, -, -, hreleased, hle, htotal, hpaid,
    rfl⟩ := (release_eq_ok hdoc.safeMath).mp h
  have hidle := hdoc.guard.succeeds_left _ _ henter
  refine ⟨rfl, rfl, rfl, fun _ => hidle, rfl, rfl, fun other => ?_, ?_,
    (hfaithful.transfer_moves _ _ _ _ _ hpaid).2, rfl⟩
  · by_cases heq : id = other
    · subst heq
      refine ⟨released, Function.update_self _ _ _, ?_⟩
      rw [if_pos rfl]
      exact hreleased
    · refine ⟨_, Function.update_of_ne (Ne.symm heq) _ _, ?_⟩
      rw [if_neg heq]
      rfl
  · change total.val + _ = _
    omega

/-- A batch pays what it asks for. -/
theorem settled_of_releaseAll (hdoc : d.Documented) {requests : List ReleaseRequest}
    (hfaithful : d.tokens.Faithful s.token) (h : releaseAll d t requests s = .ok s') :
    Settled s s' (fun id => asked id requests)
      (fun account => paid s.vestingSchedules account requests) (askedInAll requests)
      (events requests) := by
  induction requests generalizing s with
  | nil =>
      rw [releaseAll, pure_eq_ok] at h
      rw [← h]
      exact .refl s
  | cons r requests ih =>
      obtain ⟨s₁, hrelease, hrest⟩ := bind_eq_ok.mp h
      have hfirst := settled_of_release hdoc hfaithful hrelease
      have hsecond := ih (hfirst.token ▸ hfaithful) hrest
      have hpaid : ∀ account, paid s₁.vestingSchedules account requests =
          paid s.vestingSchedules account requests := fun account =>
        paid_congr (fun id => (hfirst.kept (t := t) id).1) account requests
      simp only [hpaid] at hsecond
      exact hfirst.trans hsecond

end TokenVesting

open TokenVesting ReleaseRequest

section Batches

variable {d : Deployment} {v : VestingState d} {t : Uint256}

/-- A batch goes through exactly when no schedule is asked for more than it owes. -/
theorem succeeds_releaseAll_iff (hdoc : d.Documented) (hreach : v.Reachable)
    (hstandard : d.tokens.Standard v.contract.token)
    (hcollision : Set.InjOn d.keccak256 v.contract.hashed) (htime : v.now ≤ t)
    {requests : List ReleaseRequest} (hentitled : ∀ r ∈ requests, Entitled v.contract r)
    (hfits : ∀ r ∈ requests, (v.contract.vestingSchedules r.vestingScheduleId).Fits) :
    Succeeds (releaseAll d t requests v.contract) ↔
      ∀ id, asked id requests ≤ (v.contract.vestingSchedules id).vestedAt t -
        (v.contract.vestingSchedules id).released.val := by
  induction requests generalizing v with
  | nil => exact iff_of_true (succeeds_pure _) fun _ => Nat.zero_le _
  | cons r requests ih =>
      obtain ⟨hfirst, hothers⟩ := List.forall_mem_cons.mp hentitled
      obtain ⟨hfirstFits, hothersFit⟩ := List.forall_mem_cons.mp hfits
      have hinv := hreach.accounted hdoc (fun _ => hstandard.toFaithful) hcollision
      have hreleaseIff : Succeeds (release d ⟨r.msgSender, t⟩ r.vestingScheduleId r.amount
          v.contract) ↔
          r.amount.val ≤ (v.contract.vestingSchedules r.vestingScheduleId).vestedAt t -
            (v.contract.vestingSchedules r.vestingScheduleId).released.val :=
        hinv.succeeds_release_iff hdoc (hstandard.pays _) hfirst.active hfirstFits htime
          hfirst.caller
      have hrestIff : ∀ s₁, release d ⟨r.msgSender, t⟩ r.vestingScheduleId r.amount v.contract =
          .ok s₁ → (Succeeds (releaseAll d t requests s₁) ↔
            ∀ id, asked id requests ≤ (s₁.vestingSchedules id).vestedAt t -
              (s₁.vestingSchedules id).released.val) := by
        intro s₁ h
        have hsettled := settled_of_release hdoc hstandard.toFaithful h
        have hreach₁ : (⟨t, s₁⟩ : VestingState d).Reachable :=
          hreach.run (.single (.of_ok (.release r.vestingScheduleId r.amount) htime h))
        exact ih hreach₁ (hsettled.token ▸ hstandard) (hsettled.hashed ▸ hcollision) le_rfl
          (fun r' hr' => hsettled.entitled (hothers r' hr'))
          fun r' hr' => (hsettled.kept (t := t) _).2.2.1 (hothersFit r' hr')
      rw [releaseAll, succeeds_bind]
      constructor
      · rintro ⟨s₁, h, hrest⟩ id
        have hle := (hrestIff s₁ h).mp hrest id
        obtain ⟨-, -, -, hvested, hreleased⟩ :=
          (settled_of_release hdoc hstandard.toFaithful h).kept (t := t) id
        rw [hvested, hreleased] at hle
        rw [asked_cons]
        by_cases heq : r.vestingScheduleId = id
        · subst heq
          rw [if_pos rfl] at hle ⊢
          have hamount := hreleaseIff.mp ⟨s₁, h⟩
          omega
        · rw [if_neg heq] at hle ⊢
          omega
      · intro hall
        have hfirstAsked := hall r.vestingScheduleId
        rw [asked_cons, if_pos rfl] at hfirstAsked
        obtain ⟨s₁, h⟩ := hreleaseIff.mpr (by omega)
        refine ⟨s₁, h, (hrestIff s₁ h).mpr fun id => ?_⟩
        obtain ⟨-, -, -, hvested, hreleased⟩ :=
          (settled_of_release hdoc hstandard.toFaithful h).kept (t := t) id
        have hle := hall id
        rw [asked_cons] at hle
        rw [hvested, hreleased]
        by_cases heq : r.vestingScheduleId = id
        · rw [if_pos heq] at hle ⊢
          omega
        · rw [if_neg heq] at hle ⊢
          omega

end Batches

/-- Everybody can collect, and nobody has to be first.  In every reachable state
and at every later time, a batch of releases by those entitled to them, from
whatever schedules that fit and with any repetitions, goes through exactly when
none of the schedules is asked for more than has vested and is not released.  It
then pays and logs what it asks for and changes nothing else, and any other order
of the same releases goes through as well and ends in the same schedules and
balances. -/
theorem everybody_can_collect {d : Deployment} {v : VestingState d} {t : Uint256}
    {requests : List ReleaseRequest} (hdoc : d.Documented) (hreach : v.Reachable)
    (hstandard : d.tokens.Standard v.contract.token)
    (hcollision : Set.InjOn d.keccak256 v.contract.hashed) (htime : v.now ≤ t)
    (hentitled : ∀ r ∈ requests, Entitled v.contract r)
    (hfits : ∀ r ∈ requests, (v.contract.vestingSchedules r.vestingScheduleId).Fits) :
    (Succeeds (releaseAll d t requests v.contract) ↔
      ∀ id, asked id requests ≤ (v.contract.vestingSchedules id).vestedAt t -
        (v.contract.vestingSchedules id).released.val) ∧
      ∀ s', releaseAll d t requests v.contract = .ok s' →
        Settled v.contract s' (fun id => asked id requests)
          (fun account => paid v.contract.vestingSchedules account requests) (askedInAll requests)
          (events requests) ∧
        ∀ reordered, requests.Perm reordered → ∃ s'',
          releaseAll d t reordered v.contract = .ok s'' ∧
            s''.vestingSchedules = s'.vestingSchedules ∧
            s''.vestingSchedulesTotalAmount = s'.vestingSchedulesTotalAmount ∧
            ∀ account, d.tokens.holdings s''.token s''.ledger account =
              d.tokens.holdings s'.token s'.ledger account := by
  have hiff := succeeds_releaseAll_iff hdoc hreach hstandard hcollision htime hentitled hfits
  refine ⟨hiff, fun s' h => ?_⟩
  have hsettled := settled_of_releaseAll hdoc hstandard.toFaithful h
  refine ⟨hsettled, fun reordered hperm => ?_⟩
  have hreordered : Succeeds (releaseAll d t reordered v.contract) := by
    apply (succeeds_releaseAll_iff hdoc hreach hstandard hcollision htime
      (fun r hr => hentitled r (hperm.mem_iff.mpr hr))
      fun r hr => hfits r (hperm.mem_iff.mpr hr)).mpr
    intro id
    rw [← asked_perm hperm]
    exact hiff.mp ⟨s', h⟩ id
  obtain ⟨s'', h''⟩ := hreordered
  have hagain := settled_of_releaseAll hdoc hstandard.toFaithful h''
  simp only [← asked_perm hperm, ← paid_perm hperm, ← askedInAll_perm hperm] at hagain
  exact ⟨s'', h'', hsettled.unique hagain⟩

/-- Bob takes the rest of his grant in two pieces. -/
theorem everybody_can_collect_sample :
    Succeeds (releaseAll Sample.deployment 110
      [⟨Sample.bob, Sample.grantId, 500⟩, ⟨Sample.alice, Sample.grantId, 300⟩]
      Sample.collected.contract) := by
  have hgrant := Sample.collected_grant
  have hrequest : ∀ r ∈ [ReleaseRequest.mk Sample.bob Sample.grantId 500,
      ⟨Sample.alice, Sample.grantId, 300⟩], Entitled Sample.collected.contract r ∧
        (Sample.collected.contract.vestingSchedules r.vestingScheduleId).Fits := by
    intro r hr
    simp only [List.mem_cons, List.not_mem_nil, or_false] at hr
    rcases hr with rfl | rfl
    all_goals
      refine ⟨⟨?_, ?_⟩, ?_⟩ <;> rw [hgrant]
    · decide
    · exact Or.inl rfl
    · exact ⟨by decide, by decide⟩
    · decide
    · exact Or.inr rfl
    · exact ⟨by decide, by decide⟩
  apply (everybody_can_collect (t := 110) Sample.deployment_documented Sample.collected_reachable
    (Sample.collected_standard (by decide)) (Sample.injOn_hashed_of_one Sample.collected_counts)
    (by decide) (fun r hr => (hrequest r hr).1) fun r hr => (hrequest r hr).2).1.mpr
  intro id
  by_cases heq : Sample.grantId = id
  · subst heq
    rw [hgrant]
    decide
  · simp [asked, heq]

end Palmy
