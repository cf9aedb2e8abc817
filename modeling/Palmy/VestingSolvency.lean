/-
Every run of the vesting contract keeps its accounts balanced: what it owes in
all is the sum over its schedules, and the token balance covers it.
-/
import Palmy.VestedToken
import Palmy.VestingAccounts

namespace Palmy

open Solidity
open TokenVesting

section Runs

variable {d : Deployment} {v v' : VestingState d}

theorem VestingChange.tokenFixed (hdoc : d.Documented) (hchange : VestingChange v v')
    (hfixed : v.contract.TokenFixed) : v'.contract.TokenFixed := by
  cases hchange with
  | bind hfirst htoken => exact fun _ => hdoc.initializable.once _ _ hfirst
  | _ => exact hfixed

theorem VestingChange.token_eq (hchange : VestingChange v v') (hfixed : v.contract.TokenFixed)
    (hbound : v.contract.token ≠ 0) : v'.contract.token = v.contract.token := by
  cases hchange with
  | bind hfirst htoken => exact absurd ⟨_, hfirst⟩ (hfixed hbound)
  | _ => rfl

theorem VestingChange.hashed_subset (hchange : VestingChange v v') :
    v.contract.hashed ⊆ v'.contract.hashed := by
  cases hchange with
  | create hnew hbalance hroom htotal hcount => exact hashed_subset_of_count hcount rfl
  | _ => exact subset_rfl

/-- One change keeps the accounts balanced. -/
theorem VestingChange.accounted (hdoc : d.Documented) (hchange : VestingChange v v')
    (hfaithful : v.contract.token ≠ 0 → d.tokens.Faithful v.contract.token)
    (hcollision : Set.InjOn d.keccak256 v'.contract.hashed) (hfixed : v.contract.TokenFixed)
    (hinv : Accounted v.now v.contract) : Accounted v'.now v'.contract := by
  cases hchange with
  | wait htime => exact hinv.mono htime
  | deposit hkept =>
      exact { hinv with funded := fun hbound => Nat.le_trans (hinv.funded hbound) hkept }
  | bind hfirst htoken => exact hinv.bind hfixed hfirst htoken
  | create hnew hbalance hroom htotal hcount =>
      exact hinv.create hnew hbalance hroom htotal hcount hcollision
  | pay henter hactive hreleased hvested hle htotal hpaid =>
      exact hinv.pay hdoc (hfaithful (hinv.token_ne_zero hactive)) henter hactive hreleased hvested
        hle htotal hpaid
  | close hactive hrevocable hle htotal => exact hinv.close hactive hle htotal
  | withdraw henter hbalance hroom hpaid =>
      have hbound := OpenZeppelin.Tokens.token_ne_zero_of_balanceOf hbalance
      exact hinv.withdraw hdoc (hfaithful hbound) henter hbalance hroom hpaid
  | own => exact { hinv with }

theorem tokenFixed_of_changes (hdoc : d.Documented) (hfixed : v.contract.TokenFixed)
    (hrun : Relation.ReflTransGen VestingChange v v') : v'.contract.TokenFixed := by
  induction hrun with
  | refl => exact hfixed
  | tail _ hchange ih => exact hchange.tokenFixed hdoc ih

theorem token_eq_of_changes (hdoc : d.Documented) (hfixed : v.contract.TokenFixed)
    (hbound : v.contract.token ≠ 0) (hrun : Relation.ReflTransGen VestingChange v v') :
    v'.contract.token = v.contract.token := by
  induction hrun with
  | refl => rfl
  | tail hrun hchange ih =>
      have hbefore := tokenFixed_of_changes hdoc hfixed hrun
      exact (hchange.token_eq hbefore (ih.symm ▸ hbound)).trans ih

/-- Any number of changes keeps the accounts balanced.  The token bound at the
end is the one every transfer went through, and no two ids in use at the end
collided before. -/
theorem accounted_of_changes (hdoc : d.Documented) (hfixed : v.contract.TokenFixed)
    (hinv : Accounted v.now v.contract) (hrun : Relation.ReflTransGen VestingChange v v')
    (hfaithful : v'.contract.token ≠ 0 → d.tokens.Faithful v'.contract.token)
    (hcollision : Set.InjOn d.keccak256 v'.contract.hashed) :
    Accounted v'.now v'.contract := by
  induction hrun with
  | refl => exact hinv
  | tail hrun hchange ih =>
      have hbefore := tokenFixed_of_changes hdoc hfixed hrun
      have hfaithfulBefore : ∀ hbound, d.tokens.Faithful _ := fun hbound => by
        have htoken := hchange.token_eq hbefore hbound
        exact htoken ▸ hfaithful (htoken ▸ hbound)
      exact hchange.accounted hdoc hfaithfulBefore hcollision hbefore
        (ih hfaithfulBefore (hcollision.mono hchange.hashed_subset))

theorem VestingState.Reachable.tokenFixed (hdoc : d.Documented) (hreach : v.Reachable) :
    v.contract.TokenFixed := by
  obtain ⟨now, owner, ledger, hrun⟩ := hreach
  exact tokenFixed_of_changes hdoc (tokenFixed_genesis owner ledger)
    (VestingStep.changes_of_run hdoc hrun)

/-- The accounts balance in every reachable state. -/
theorem VestingState.Reachable.accounted (hdoc : d.Documented) (hreach : v.Reachable)
    (hfaithful : v.contract.token ≠ 0 → d.tokens.Faithful v.contract.token)
    (hcollision : Set.InjOn d.keccak256 v.contract.hashed) : Accounted v.now v.contract := by
  obtain ⟨now, owner, ledger, hrun⟩ := hreach
  exact accounted_of_changes hdoc (tokenFixed_genesis owner ledger)
    (accounted_genesis hdoc now owner ledger) (VestingStep.changes_of_run hdoc hrun) hfaithful
    hcollision

/-- Accounting and solvency of the vesting contract in every reachable state.
The running total is what the active schedules still owe, no schedule is
overdrawn, and the token balance covers the total, so `getWithdrawableAmount`
answers with the difference; before a token is bound nothing is owed. -/
theorem vesting_is_accounted_and_solvent (hdoc : d.Documented) (hreach : v.Reachable)
    (hfaithful : v.contract.token ≠ 0 → d.tokens.Faithful v.contract.token)
    (hcollision : Set.InjOn d.keccak256 v.contract.hashed) :
    v.contract.vestingSchedulesTotalAmount.val =
        ∑ id with (v.contract.vestingSchedules id).Active,
          ((v.contract.vestingSchedules id).amountTotal.val -
            (v.contract.vestingSchedules id).released.val) ∧
      (∀ id, (v.contract.vestingSchedules id).released ≤
        (v.contract.vestingSchedules id).amountTotal) ∧
      (v.contract.token = 0 → v.contract.vestingSchedulesTotalAmount = 0) ∧
      (v.contract.token ≠ 0 → ∃ balance withdrawable,
        d.tokens.balanceOf v.contract.token d.self v.contract.ledger = .ok balance ∧
          v.contract.vestingSchedulesTotalAmount ≤ balance ∧
          getWithdrawableAmount d v.contract = .ok withdrawable ∧
          withdrawable.val = balance.val - v.contract.vestingSchedulesTotalAmount.val) := by
  have hinv := hreach.accounted hdoc hfaithful hcollision
  refine ⟨?_, fun id => (hinv.vesting id).released_le, ?_, ?_⟩
  · rw [hinv.total, Finset.sum_filter]
    rfl
  · intro hunbound
    have hnothing : ∑ id, (v.contract.vestingSchedules id).outstanding = 0 :=
      Finset.sum_eq_zero fun id _ => VestingSchedule.outstanding_of_not_active
        fun hactive => hinv.token_ne_zero hactive hunbound
    exact Fin.ext (hinv.total.trans hnothing)
  · intro hbound
    obtain ⟨balance, hbalance, hholdings⟩ :=
      (hfaithful hbound).balanceOf_eq d.self v.contract.ledger
    have hcovered : v.contract.vestingSchedulesTotalAmount.val ≤ balance.val :=
      hholdings ▸ hinv.funded hbound
    obtain ⟨withdrawable, hok, hsum⟩ := getWithdrawableAmount_of_le hdoc.safeMath
      (hfaithful hbound) (hinv.funded hbound)
    exact ⟨balance, withdrawable, hbalance, hcovered, hok, by omega⟩

end Runs

namespace Sample

-- A vesting contract that PLMY was minted to: Alice owns it, grants Bob a
-- thousand units over a hundred seconds, and Bob collects two hundred after
-- half the time.

def vestingAddress : Address := Address.ofNat 0x7e57

def onlyOwner (msgSender owner : Address) : Result Unit :=
  require (msgSender = owner) "Ownable: caller is not the owner"

def transferOwnership (msgSender newOwner owner : Address) : Result Address := do
  onlyOwner msgSender owner
  require (newOwner ≠ 0) "Ownable: new owner is the zero address"
  return newOwner

def renounceOwnership (msgSender owner : Address) : Result Address := do
  onlyOwner msgSender owner
  return 0

/-- A flag that is set once, with the message of the second attempt. -/
def raise (message : String) (raised : Bool) : Result Bool :=
  if raised then .error (.reason message) else .ok true

def deployment : Deployment where
  keccak256 bytes :=
    if bytes = bob.packed ++ wordBytes 0 then
      0xdb5744304a87735913b211329045745f03f670a8eee459ee4f9bf62960d02bb7
    else 0
  self := vestingAddress
  self_ne_zero := by decide
  safeMath := ⟨checkedAdd, checkedSub, checkedMul, checkedDiv⟩
  ownable := ⟨Address, id, id, onlyOwner, transferOwnership, renounceOwnership⟩
  guard := ⟨Bool, false, raise "ReentrancyGuard: reentrant call", fun _ => false⟩
  initializable := ⟨Bool, false, raise "Initializable: contract is already initialized"⟩
  tokens := ERC20.deployedAt chain.self (by decide)

theorem onlyOwner_eq_ok (msgSender owner : Address) {u : Unit} :
    onlyOwner msgSender owner = .ok u ↔ msgSender = owner := require_eq_ok

theorem transferOwnership_eq_ok {msgSender newOwner owner owner' : Address} :
    transferOwnership msgSender newOwner owner = .ok owner' ↔
      msgSender = owner ∧ newOwner ≠ 0 ∧ newOwner = owner' := by
  simp only [transferOwnership, bind_eq_ok, onlyOwner_eq_ok, require_eq_ok, exists_const,
    pure_eq_ok]

theorem renounceOwnership_eq_ok {msgSender owner owner' : Address} :
    renounceOwnership msgSender owner = .ok owner' ↔ msgSender = owner ∧ 0 = owner' := by
  simp only [renounceOwnership, bind_eq_ok, onlyOwner_eq_ok, exists_const, pure_eq_ok]

theorem not_succeeds_raise {message : String} {raised after : Bool}
    (h : raise message raised = .ok after) : ¬ Succeeds (raise message after) := by
  cases raised <;> cases h
  exact not_succeeds_error _

theorem deployment_documented : deployment.Documented where
  safeMath := ⟨fun _ _ _ => checkedAdd_eq_ok, fun _ _ _ => checkedSub_eq_ok,
    fun _ _ _ => checkedMul_eq_ok, fun _ _ _ => checkedDiv_eq_ok⟩
  ownable := ⟨fun _ => rfl, fun msgSender owner _ => onlyOwner_eq_ok msgSender owner,
    fun _ _ _ _ h => (transferOwnership_eq_ok.mp h).imp_right (And.imp_right Eq.symm),
    fun _ _ _ h => (renounceOwnership_eq_ok.mp h).imp_right Eq.symm⟩
  guard := ⟨succeeds_ok true, fun _ _ h => not_succeeds_raise h, fun _ _ _ => succeeds_ok true⟩
  initializable := ⟨succeeds_ok true, fun _ _ h => not_succeeds_raise h⟩

/-- The token right after it was minted to the vesting contract. -/
def minted : {s : Token // SupplyInvariant s} :=
  ⟨(Proxy.run chain [⟨env alice 1, .call (.initializeV1 vestingAddress bob 0)⟩]).token,
    Proxy.run_supplyInvariant chain _⟩

/-- A call of the sample contract, and the state after it. -/
def send (v : VestingState deployment) (m : Message) (call : TokenVesting.Call) :
    VestingState deployment :=
  ⟨m.timestamp, commit v.contract (TokenVesting.execute deployment m v.contract call)⟩

def grantId : Bytes32 := computeVestingScheduleIdForAddressAndIndex deployment bob 0

def deployed : VestingState deployment := ⟨0, genesis deployment alice minted⟩

def granted : VestingState deployment :=
  send (send deployed ⟨alice, 0⟩ (.initialzie chain.self)) ⟨alice, 10⟩
    (.createVestingSchedule bob 10 0 100 1 true 1000)

def collected : VestingState deployment := send granted ⟨bob, 60⟩ (.release grantId 200)

theorem granted_reachable : granted.Reachable :=
  ⟨0, alice, minted, .tail (.tail .refl (.call _ _ (by decide))) (.call _ _ (by decide))⟩

theorem collected_reachable : collected.Reachable :=
  granted_reachable.run (.single (.call _ _ (by decide)))

theorem collected_token : collected.contract.token = chain.self := by rfl

theorem collected_counts : collected.contract.holdersVestingCount =
    Function.update (fun _ => 0) bob 1 := by rfl

/-- Bob's grant with two hundred units collected. -/
theorem collected_grant : collected.contract.vestingSchedules grantId =
    ⟨true, bob, 10, 10, 100, 1, true, 1000, 200, false⟩ := by
  decide +kernel

theorem collected_standard : collected.contract.token ≠ 0 →
    deployment.tokens.Standard collected.contract.token := by
  intro _
  rw [collected_token]
  exact ERC20.standard_deployedAt (by decide)

theorem collected_faithful : collected.contract.token ≠ 0 →
    deployment.tokens.Faithful collected.contract.token :=
  fun hbound => (collected_standard hbound).toFaithful

/-- One id is in use, so no two collide. -/
theorem injOn_hashed_of_one {s : TokenVesting deployment} {beneficiary : Address}
    (hcounts : s.holdersVestingCount = Function.update (fun _ => 0) beneficiary 1) :
    Set.InjOn deployment.keccak256 s.hashed := by
  have hsingle : ∀ bytes ∈ s.hashed, bytes = beneficiary.packed ++ wordBytes 0 := by
    rintro bytes ⟨holder, index, hlt, hbytes⟩
    rw [hcounts] at hlt
    by_cases heq : holder = beneficiary
    · rw [heq, Function.update_self] at hlt
      have hfirst : index = 0 := Fin.ext (Nat.lt_one_iff.mp hlt)
      rw [hbytes, heq, hfirst]
    · rw [Function.update_of_ne heq] at hlt
      exact absurd hlt (Nat.not_lt_zero index.val)
  intro x hx y hy _
  rw [hsingle x hx, hsingle y hy]

end Sample

/-- After Bob's collection eight hundred units are owed and covered. -/
theorem vesting_is_accounted_and_solvent_sample :
    Sample.collected.contract.vestingSchedulesTotalAmount = 800 ∧
      Sample.collected.contract.vestingSchedulesTotalAmount.val =
        ∑ id with (Sample.collected.contract.vestingSchedules id).Active,
          ((Sample.collected.contract.vestingSchedules id).amountTotal.val -
            (Sample.collected.contract.vestingSchedules id).released.val) :=
  ⟨by rfl, (vesting_is_accounted_and_solvent Sample.deployment_documented
    Sample.collected_reachable Sample.collected_faithful
    (Sample.injOn_hashed_of_one Sample.collected_counts)).1⟩

end Palmy
