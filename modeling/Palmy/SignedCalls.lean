/-
Signed calls.  Permits and signed delegations share one nonce counter and one
domain; a message takes effect at most once, and only as what was signed.
-/
import Palmy.CallEffects
import Palmy.Supply

namespace Palmy

open Solidity
open Token
open GovernancePowerDelegation

/-- What a signature is given for, in all three entry points. -/
inductive Request where
  | permit (owner spender : Address) (value deadline : Uint256)
  | delegateByType (delegatee : Address) (t : DelegationType) (nonce expiry : Uint256)
  | delegate (delegatee : Address) (nonce expiry : Uint256)
deriving DecidableEq

/-- The words hashed for a request.  A permit does not carry its nonce: the code
reads the next nonce of the owner into the digest. -/
def Request.words (chain : Chain) (nonce : Uint256) : Request → List Uint256
  | .permit owner spender value deadline =>
      permitWords chain owner spender value nonce deadline
  | .delegateByType delegatee t nonce expiry =>
      PlmyTokenV2.delegateByTypeWords chain delegatee t nonce expiry
  | .delegate delegatee nonce expiry => PlmyTokenV2.delegateWords chain delegatee nonce expiry

/-- A request with the account its signature recovers to, the nonce it was made
over, and the domain it was hashed with. -/
structure SignedRequest where
  request : Request
  signer : Address
  nonce : Uint256
  domainSeparator : Bytes32

namespace SignedRequest

variable (chain : Chain)

def words (signed : SignedRequest) : List Uint256 := signed.request.words chain signed.nonce

def digest (signed : SignedRequest) : Bytes32 :=
  typedDataDigest chain signed.domainSeparator (signed.words chain)

/-- The two strings hashed on the way to the digest. -/
def hashed (signed : SignedRequest) : List Bytes :=
  [abiEncode (signed.words chain),
    typedDataBytes signed.domainSeparator (chain.keccak256 (abiEncode (signed.words chain)))]

/-- A permit is signed by its owner, a delegation names the nonce it is made over. -/
def Sound (signed : SignedRequest) : Prop :=
  match signed.request with
  | .permit owner _ _ _ => owner = signed.signer
  | .delegateByType _ _ nonce _ => nonce = signed.nonce
  | .delegate _ nonce _ => nonce = signed.nonce

end SignedRequest

/-- The signed request in a call, as the token reads it in state `s`. -/
def Call.signed (chain : Chain) (s : Token) : Call → Option SignedRequest
  | .permit owner spender value deadline v r sig => some {
      request := .permit owner spender value deadline
      signer := chain.ecrecover (permitDigest chain owner spender value deadline s) v r sig
      nonce := s.nonces owner
      domainSeparator := s.domainSeparator }
  | .delegateByTypeBySig delegatee t nonce expiry v r sig => some {
      request := .delegateByType delegatee t nonce expiry
      signer := chain.ecrecover (typedDataDigest chain s.domainSeparator
        (PlmyTokenV2.delegateByTypeWords chain delegatee t nonce expiry)) v r sig
      nonce := nonce
      domainSeparator := s.domainSeparator }
  | .delegateBySig delegatee nonce expiry v r sig => some {
      request := .delegate delegatee nonce expiry
      signer := chain.ecrecover (typedDataDigest chain s.domainSeparator
        (PlmyTokenV2.delegateWords chain delegatee nonce expiry)) v r sig
      nonce := nonce
      domainSeparator := s.domainSeparator }
  | _ => none

namespace Proxy

variable (chain : Chain)

/-- The signed request a transaction gets accepted, if any. -/
def acceptedBy (p : Proxy) (tx : Tx) : Option SignedRequest :=
  match tx.action, execute chain p tx with
  | .call call, .ok _ => call.signed chain p.token
  | _, _ => none

def acceptedFrom (p : Proxy) : List Tx → List SignedRequest
  | [] => []
  | tx :: txs => (acceptedBy chain p tx).toList ++ acceptedFrom (step chain p tx) txs

/-- The signed requests accepted along a run, in order. -/
def accepted (txs : List Tx) : List SignedRequest := acceptedFrom chain genesis txs

theorem acceptedFrom_concat (p : Proxy) (txs : List Tx) (tx : Tx) :
    acceptedFrom chain p (txs ++ [tx]) =
      acceptedFrom chain p txs ++
        (acceptedBy chain (Timeline.run (step chain) p txs) tx).toList := by
  induction txs generalizing p with
  | nil => simp [acceptedFrom]
  | cons head txs ih =>
      rw [List.cons_append, acceptedFrom, ih, acceptedFrom, List.append_assoc]
      rfl

theorem accepted_concat (txs : List Tx) (tx : Tx) :
    accepted chain (txs ++ [tx]) =
      accepted chain txs ++ (acceptedBy chain (run chain txs) tx).toList :=
  acceptedFrom_concat chain genesis txs tx

/-- Every string that was hashed for an accepted request of the run. -/
def hashed (txs : List Tx) : Set Bytes :=
  { bytes | ∃ signed ∈ accepted chain txs, bytes ∈ signed.hashed chain }

end Proxy

/-- What an accepted signed request does to the nonces. -/
structure Spends (signed : SignedRequest) (s s' : Token) : Prop where
  signer_ne_zero : signed.signer ≠ 0
  sound : signed.Sound
  nonce : signed.nonce = s.nonces signed.signer
  spent : ∃ next : Uint256, next.val = (s.nonces signed.signer).val + 1 ∧
    s'.nonces = Function.update s.nonces signed.signer next

/-- A signed call spends the nonce it was made over, any other call spends none. -/
def NonceStep (chain : Chain) (call : Call) (s s' : Token) : Prop :=
  match call.signed chain s with
  | some signed => Spends signed s s'
  | none => s'.nonces = s.nonces

section Nonces

variable {chain : Chain} {env : Env} {s s' : Token}

theorem spends_permit {owner spender : Address} {value deadline : Uint256} {v : UInt8}
    {r sig : Bytes32} (h : permit chain env owner spender value deadline v r sig s = .ok s') :
    NonceStep chain (.permit owner spender value deadline v r sig) s s' := by
  simp only [permit, bind_eq_ok, require_eq_ok, exists_const, SafeMath.add_eq_ok] at h
  obtain ⟨howner, -, hsigner, nextNonce, hnext, happrove⟩ := h
  have hrest := ERC20.approveInternal_rest happrove
  refine ⟨?_, hsigner, ?_, nextNonce, ?_, ?_⟩
  · rw [← hsigner]
    exact howner
  · rw [← hsigner]
  · rw [← hsigner]
    exact hnext
  · rw [hrest, ← hsigner]

theorem nonces_delegateByTypeInternal {delegator delegatee : Address} {t : DelegationType}
    (h : delegateByTypeInternal env delegator delegatee t s = .ok s') : s'.nonces = s.nonces := by
  obtain ⟨-, s₂, hmove, rfl⟩ := delegateByTypeInternal_cases h
  refine (onlySnapshots_moveDelegatesByType hmove).nonces.trans ?_
  cases t <;> rfl

/-- The checks of a signed delegation, and the nonce it spends. -/
theorem spendNonce_cases {signatory : Address} {nonce expiry : Uint256}
    (h : PlmyTokenV2.spendNonce env signatory nonce expiry s = .ok s') :
    signatory ≠ 0 ∧ nonce = s.nonces signatory ∧
      ∃ next : Uint256, next.val = (s.nonces signatory).val + 1 ∧
        s'.nonces = Function.update s.nonces signatory next := by
  simp only [PlmyTokenV2.spendNonce, bind_eq_ok, require_eq_ok, pure_eq_ok, exists_const,
    checkedAdd_eq_ok] at h
  obtain ⟨hsignatory, next, hnext, hnonce, -, rfl⟩ := h
  exact ⟨hsignatory, hnonce, next, hnext, rfl⟩

theorem spends_delegateByTypeBySig {delegatee : Address} {t : DelegationType}
    {nonce expiry : Uint256} {v : UInt8} {r sig : Bytes32}
    (h : PlmyTokenV2.delegateByTypeBySig chain env delegatee t nonce expiry v r sig s = .ok s') :
    NonceStep chain (.delegateByTypeBySig delegatee t nonce expiry v r sig) s s' := by
  simp only [PlmyTokenV2.delegateByTypeBySig, bind_eq_ok] at h
  obtain ⟨s₁, hspend, hdelegate⟩ := h
  obtain ⟨hsignatory, hnonce, next, hnext, hnonces⟩ := spendNonce_cases hspend
  exact ⟨hsignatory, rfl, hnonce, next, hnext,
    (nonces_delegateByTypeInternal hdelegate).trans hnonces⟩

theorem spends_delegateBySig {delegatee : Address} {nonce expiry : Uint256} {v : UInt8}
    {r sig : Bytes32}
    (h : PlmyTokenV2.delegateBySig chain env delegatee nonce expiry v r sig s = .ok s') :
    NonceStep chain (.delegateBySig delegatee nonce expiry v r sig) s s' := by
  simp only [PlmyTokenV2.delegateBySig, bind_eq_ok] at h
  obtain ⟨s₁, hspend, s₂, hvoting, hproposition⟩ := h
  obtain ⟨hsignatory, hnonce, next, hnext, hnonces⟩ := spendNonce_cases hspend
  exact ⟨hsignatory, rfl, hnonce, next, hnext,
    (nonces_delegateByTypeInternal hproposition).trans
      ((nonces_delegateByTypeInternal hvoting).trans hnonces)⟩

section Transfers

variable {beforeTokenTransfer : ERC20.BeforeTokenTransfer} {src dst : Address}
  {amount : Uint256}
  (hframe : ERC20.TakesSnapshotsOnly beforeTokenTransfer)
include hframe

theorem nonces_transferInternal
    (h : ERC20.transferInternal beforeTokenTransfer src dst amount s = .ok s') :
    s'.nonces = s.nonces := by
  obtain ⟨-, -, s₁, hbefore, -, hrest, -⟩ := ERC20.transferInternal_cases h
  rw [hrest]
  exact (hframe hbefore).nonces

theorem nonces_transferFrom
    (h : ERC20.transferFrom beforeTokenTransfer env src dst amount s = .ok s') :
    s'.nonces = s.nonces := by
  simp only [ERC20.transferFrom, bind_eq_ok] at h
  obtain ⟨s₁, htransfer, remaining, -, happrove⟩ := h
  have hkept := nonces_transferInternal hframe htransfer
  rw [ERC20.approveInternal_rest happrove]
  exact hkept

theorem nonces_mintedIfSet {account : Address}
    (h : MintedIfSet beforeTokenTransfer account amount s s') : s'.nonces = s.nonces := by
  rcases h with hmint | ⟨-, rfl⟩
  · obtain ⟨s₁, hbefore, hrest, -⟩ := hmint.hook
    rw [hrest]
    exact (hframe hbefore).nonces
  · rfl

end Transfers

theorem nonces_approveInternal {owner spender : Address} {amount : Uint256}
    (h : ERC20.approveInternal owner spender amount s = .ok s') : s'.nonces = s.nonces := by
  rw [ERC20.approveInternal_rest h]

theorem ERC20.nonceStep_execute {beforeTokenTransfer : ERC20.BeforeTokenTransfer}
    (hframe : ERC20.TakesSnapshotsOnly beforeTokenTransfer) {call : Call}
    (h : execute beforeTokenTransfer chain env s call = .ok s') : NonceStep chain call s s' := by
  cases call with
  | transfer recipient amount => exact nonces_transferInternal hframe h
  | approve spender amount => exact nonces_approveInternal h
  | transferFrom sender recipient amount => exact nonces_transferFrom hframe h
  | increaseAllowance spender addedValue =>
      obtain ⟨raised, -, happrove⟩ := bind_eq_ok.mp h
      exact nonces_approveInternal happrove
  | decreaseAllowance spender subtractedValue =>
      obtain ⟨lowered, -, happrove⟩ := bind_eq_ok.mp h
      exact nonces_approveInternal happrove
  | permit owner spender value deadline v r sig => exact spends_permit h
  | _ => cases h

theorem PlmyToken.nonceStep_execute {call : Call} (h : execute chain env s call = .ok s') :
    NonceStep chain call s s' := by
  by_cases hcall : call.isErc20
  · rw [execute_of_isErc20 chain env s hcall] at h
    exact ERC20.nonceStep_execute (takesSnapshotsOnly env) h
  cases call with
  | initializeV1 vestingAddress vaultAddress palmyGovernance =>
      obtain ⟨-, s₁, hvesting, hvault⟩ := initializeToken_cases h
      have hkept : s₁.nonces = (configured chain palmyGovernance s).nonces :=
        nonces_mintedIfSet (takesSnapshotsOnly env) hvesting
      exact (nonces_mintedIfSet (takesSnapshotsOnly env) hvault).trans hkept
  | initializeV2 | delegateByType | delegate | delegateByTypeBySig | delegateBySig => cases h
  | _ => exact absurd rfl hcall

theorem PlmyTokenV2.nonceStep_execute {call : Call} (h : execute chain env s call = .ok s') :
    NonceStep chain call s s' := by
  by_cases hcall : call.isErc20
  · rw [execute_of_isErc20 chain env s hcall] at h
    exact ERC20.nonceStep_execute (takesSnapshotsOnly env) h
  cases call with
  | initializeV1 => cases h
  | initializeV2 =>
      simp only [execute, initializeToken, initializer, bind_eq_ok, require_eq_ok, pure_eq_ok,
        exists_const] at h
      obtain ⟨-, rfl⟩ := h
      rfl
  | delegateByType delegatee t => exact nonces_delegateByTypeInternal h
  | delegate delegatee =>
      obtain ⟨s₁, hvoting, hproposition⟩ := bind_eq_ok.mp h
      exact (nonces_delegateByTypeInternal hproposition).trans
        (nonces_delegateByTypeInternal hvoting)
  | delegateByTypeBySig delegatee t nonce expiry v r sig => exact spends_delegateByTypeBySig h
  | delegateBySig delegatee nonce expiry v r sig => exact spends_delegateBySig h
  | _ => exact absurd rfl hcall

theorem Implementation.nonceStep_execute {implementation : Implementation} {call : Call}
    (h : implementation.execute chain env s call = .ok s') : NonceStep chain call s s' := by
  cases implementation with
  | plmyToken => exact PlmyToken.nonceStep_execute h
  | plmyTokenV2 => exact PlmyTokenV2.nonceStep_execute h

end Nonces

/-- What was signed for happened, and nothing else to balances, allowances and
delegatees: a permit sets one allowance of the account that signed it, a
delegation the signer's delegatee of one type, or of both. -/
def SignedRequest.Performed (signed : SignedRequest) (s s' : Token) : Prop :=
  s'.balances = s.balances ∧
    match signed.request with
    | .permit owner spender value _ =>
        owner = signed.signer ∧ (∀ t, s'.delegates t = s.delegates t) ∧
          s'.allowances = Function.update s.allowances owner
            (Function.update (s.allowances owner) spender value)
    | .delegateByType delegatee t _ _ =>
        s'.allowances = s.allowances ∧
          s'.delegates t = Function.update (s.delegates t) signed.signer delegatee ∧
          ∀ t' ≠ t, s'.delegates t' = s.delegates t'
    | .delegate delegatee _ _ =>
        s'.allowances = s.allowances ∧
          ∀ t, s'.delegates t = Function.update (s.delegates t) signed.signer delegatee

section Performed

variable {chain : Chain} {env : Env} {s s' : Token} {call : Call} {signed : SignedRequest}

theorem performed_permit {owner spender : Address} {value deadline : Uint256} {v : UInt8}
    {r sig : Bytes32} (h : permit chain env owner spender value deadline v r sig s = .ok s')
    (hsigned : (Call.permit owner spender value deadline v r sig).signed chain s = some signed) :
    signed.Performed s s' := by
  simp only [permit, bind_eq_ok, require_eq_ok, exists_const, ERC20.approveInternal,
    pure_eq_ok] at h
  obtain ⟨-, -, hsigner, _, -, -, -, rfl⟩ := h
  cases hsigned
  exact ⟨rfl, hsigner, fun t => by cases t <;> rfl, rfl⟩

/-- A signed call does what was signed, whichever implementation answers. -/
theorem ERC20.performed_execute {beforeTokenTransfer : ERC20.BeforeTokenTransfer}
    (h : execute beforeTokenTransfer chain env s call = .ok s')
    (hsigned : call.signed chain s = some signed) : signed.Performed s s' := by
  cases call with
  | permit => exact performed_permit h hsigned
  | delegateByTypeBySig | delegateBySig => cases h
  | _ => cases hsigned

theorem PlmyToken.performed_execute (h : execute chain env s call = .ok s')
    (hsigned : call.signed chain s = some signed) : signed.Performed s s' := by
  by_cases hcall : call.isErc20
  · rw [execute_of_isErc20 chain env s hcall] at h
    exact ERC20.performed_execute h hsigned
  cases call with
  | delegateByTypeBySig | delegateBySig => cases h
  | permit => exact absurd rfl hcall
  | _ => cases hsigned

theorem PlmyTokenV2.performed_execute (h : execute chain env s call = .ok s')
    (hsigned : call.signed chain s = some signed) : signed.Performed s s' := by
  by_cases hcall : call.isErc20
  · rw [execute_of_isErc20 chain env s hcall] at h
    exact ERC20.performed_execute h hsigned
  cases call with
  | delegateByTypeBySig delegatee t nonce expiry v r sig =>
      cases hsigned
      simp only [execute, delegateByTypeBySig, bind_eq_ok] at h
      obtain ⟨s₁, hspend, hdelegate⟩ := h
      have hledger := sameLedger_delegateByTypeInternal hdelegate
      have hdelegates := delegates_delegateByTypeInternal hdelegate
      rw [spendNonce_rest hspend] at hledger hdelegates
      exact ⟨hledger.balances, hledger.allowances, hdelegates⟩
  | delegateBySig delegatee nonce expiry v r sig =>
      cases hsigned
      simp only [execute, delegateBySig, bind_eq_ok] at h
      obtain ⟨s₁, hspend, s₂, hvoting, hproposition⟩ := h
      have hledger := (sameLedger_delegateByTypeInternal hvoting).trans
        (sameLedger_delegateByTypeInternal hproposition)
      obtain ⟨hvote, hvoteOnly⟩ := delegates_delegateByTypeInternal hvoting
      obtain ⟨hpropose, hproposeOnly⟩ := delegates_delegateByTypeInternal hproposition
      rw [hvoteOnly .propositionPower (by decide)] at hpropose
      rw [← hproposeOnly .votingPower (by decide)] at hvote
      rw [spendNonce_rest hspend] at hledger hvote hpropose
      exact ⟨hledger.balances, hledger.allowances, fun t => by
        cases t
        · exact hvote
        · exact hpropose⟩
  | permit => exact absurd rfl hcall
  | _ => cases hsigned

theorem Proxy.performed_of_accepted {p : Proxy} {tx : Tx}
    (h : acceptedBy chain p tx = some signed) :
    signed.Performed p.token (step chain p tx).token := by
  obtain ⟨env, action⟩ := tx
  unfold acceptedBy at h
  split at h
  · next call p' haction houtcome =>
      cases haction
      rw [step, houtcome, commit_ok]
      simp only [execute, bind_eq_ok, pure_eq_ok] at houtcome
      obtain ⟨token, hcall, rfl⟩ := houtcome
      cases himplementation : p.implementation with
      | plmyToken =>
          rw [himplementation] at hcall
          exact PlmyToken.performed_execute hcall h
      | plmyTokenV2 =>
          rw [himplementation] at hcall
          exact PlmyTokenV2.performed_execute hcall h
  · cases h

end Performed

section Digests

theorem typedDataBytes_inj {d d' h h' : Bytes32}
    (heq : typedDataBytes d h = typedDataBytes d' h') : d = d' ∧ h = h' := by
  have htail : wordBytes d ++ wordBytes h = wordBytes d' ++ wordBytes h' :=
    List.append_cancel_left heq
  obtain ⟨hdomain, hstruct⟩ := List.append_inj htail (by simp)
  exact ⟨wordBytes_injective hdomain, wordBytes_injective hstruct⟩

theorem toWord_injective : Function.Injective DelegationType.toWord := by
  intro t t' heq
  cases t <;> cases t' <;> first | rfl | exact absurd heq (by decide)

theorem Request.length_words (chain : Chain) (nonce : Uint256) (request : Request) :
    (request.words chain nonce).length =
      match request with
      | .permit .. => 6
      | .delegateByType .. => 5
      | .delegate .. => 4 := by
  cases request <;> rfl

/-- Sound requests with the same words are the same request over the same nonce:
the three structs have six, five and four words. -/
theorem SignedRequest.eq_of_words {chain : Chain} {a b : SignedRequest} (ha : a.Sound)
    (hb : b.Sound) (hwords : a.words chain = b.words chain) :
    a.request = b.request ∧ a.nonce = b.nonce := by
  obtain ⟨request, signer, nonce, domain⟩ := a
  obtain ⟨request', signer', nonce', domain'⟩ := b
  simp only [Sound] at ha hb
  simp only [words] at hwords ⊢
  have hlength := congrArg List.length hwords
  rw [Request.length_words, Request.length_words] at hlength
  cases request with
  | permit owner spender value deadline =>
      cases request' with
      | permit owner' spender' value' deadline' =>
          simp only [Request.words, permitWords, List.cons.injEq, true_and, and_true,
            Address.toWord_injective.eq_iff] at hwords
          obtain ⟨rfl, rfl, rfl, rfl, rfl⟩ := hwords
          exact ⟨rfl, rfl⟩
      | delegateByType | delegate => simp at hlength
  | delegateByType delegatee t nonce expiry =>
      cases request' with
      | delegateByType delegatee' t' nonce' expiry' =>
          simp only [Request.words, PlmyTokenV2.delegateByTypeWords, List.cons.injEq, true_and,
            and_true, Address.toWord_injective.eq_iff, toWord_injective.eq_iff] at hwords
          obtain ⟨rfl, rfl, rfl, rfl⟩ := hwords
          exact ⟨rfl, ha.symm.trans hb⟩
      | permit | delegate => simp at hlength
  | delegate delegatee nonce expiry =>
      cases request' with
      | delegate delegatee' nonce' expiry' =>
          simp only [Request.words, PlmyTokenV2.delegateWords, List.cons.injEq, true_and,
            and_true, Address.toWord_injective.eq_iff] at hwords
          obtain ⟨rfl, rfl, rfl⟩ := hwords
          exact ⟨rfl, ha.symm.trans hb⟩
      | permit | delegateByType => simp at hlength

/-- Without collisions among the hashed strings, a digest fixes the request. -/
theorem SignedRequest.eq_of_digest {chain : Chain} {inputs : Set Bytes}
    (hcollisionFree : Set.InjOn chain.keccak256 inputs) {a b : SignedRequest} (ha : a.Sound)
    (hb : b.Sound) (hashedA : ∀ bytes ∈ a.hashed chain, bytes ∈ inputs)
    (hashedB : ∀ bytes ∈ b.hashed chain, bytes ∈ inputs)
    (hdigest : a.digest chain = b.digest chain) :
    a.request = b.request ∧ a.nonce = b.nonce := by
  have htyped := hcollisionFree (hashedA _ (List.mem_cons_of_mem _ List.mem_cons_self))
    (hashedB _ (List.mem_cons_of_mem _ List.mem_cons_self)) hdigest
  obtain ⟨-, hstruct⟩ := typedDataBytes_inj htyped
  have hencoded := hcollisionFree (hashedA _ List.mem_cons_self)
    (hashedB _ List.mem_cons_self) hstruct
  exact eq_of_words ha hb (abiEncode_injective hencoded)

end Digests

namespace Proxy

variable (chain : Chain)

/-- One transaction: an accepted request is spent, and nothing else is. -/
theorem step_nonces (p : Proxy) (tx : Tx) :
    match acceptedBy chain p tx with
    | some signed => Spends signed p.token (step chain p tx).token
    | none => (step chain p tx).token.nonces = p.token.nonces := by
  obtain ⟨env, action⟩ := tx
  cases action with
  | upgradeTo implementation => rfl
  | call call =>
      cases houtcome : execute chain p ⟨env, .call call⟩ with
      | error e =>
          simp only [acceptedBy, houtcome, step, commit_error]
      | ok p' =>
          simp only [acceptedBy, houtcome, step, commit_ok]
          simp only [execute, bind_eq_ok, pure_eq_ok] at houtcome
          obtain ⟨token, hcall, rfl⟩ := houtcome
          exact Implementation.nonceStep_execute hcall

/-- Accepted requests are sound and over nonces already spent. -/
theorem accepted_spent (txs : List Tx) :
    ∀ signed ∈ accepted chain txs, signed.Sound ∧
      signed.nonce.val < ((run chain txs).token.nonces signed.signer).val := by
  induction txs using List.reverseRecOn with
  | nil => exact fun _ hnone => absurd hnone List.not_mem_nil
  | append_singleton txs tx ih =>
      have hstep := step_nonces chain (run chain txs) tx
      rw [← run_concat] at hstep
      intro signed hsigned
      rw [accepted_concat] at hsigned
      cases haccepted : acceptedBy chain (run chain txs) tx with
      | none =>
          rw [haccepted] at hstep hsigned
          rw [Option.toList_none, List.append_nil] at hsigned
          rw [hstep]
          exact ih signed hsigned
      | some new =>
          rw [haccepted] at hstep hsigned
          obtain ⟨next, hnext, hnonces⟩ := hstep.spent
          rw [hnonces]
          rcases List.mem_append.mp hsigned with hold | hnew
          · obtain ⟨hsound, hlt⟩ := ih signed hold
            refine ⟨hsound, ?_⟩
            by_cases heq : signed.signer = new.signer
            · rw [heq] at hlt ⊢
              rw [Function.update_self]
              omega
            · rw [Function.update_of_ne heq]
              exact hlt
          · rw [Option.toList_some, List.mem_singleton] at hnew
            subst hnew
            refine ⟨hstep.sound, ?_⟩
            rw [Function.update_self, hnext, hstep.nonce]
            omega

theorem hashed_concat (txs : List Tx) (tx : Tx) :
    hashed chain txs ⊆ hashed chain (txs ++ [tx]) := by
  rintro bytes ⟨signed, hsigned, hbytes⟩
  refine ⟨signed, ?_, hbytes⟩
  rw [accepted_concat]
  exact List.mem_append_left _ hsigned

theorem accepted_nodup (txs : List Tx)
    (hcollisionFree : Set.InjOn chain.keccak256 (hashed chain txs)) :
    ((accepted chain txs).map fun signed => (signed.signer, signed.digest chain)).Nodup := by
  induction txs using List.reverseRecOn with
  | nil => exact List.nodup_nil
  | append_singleton txs tx ih =>
      have hold := ih (hcollisionFree.mono (hashed_concat chain txs tx))
      have hstep := step_nonces chain (run chain txs) tx
      cases haccepted : acceptedBy chain (run chain txs) tx with
      | none =>
          rw [accepted_concat, haccepted, Option.toList_none, List.append_nil]
          exact hold
      | some new =>
          rw [haccepted] at hstep
          have hlist : accepted chain (txs ++ [tx]) = accepted chain txs ++ [new] := by
            rw [accepted_concat, haccepted, Option.toList_some]
          rw [hlist, List.map_append, List.map_singleton, List.nodup_append]
          refine ⟨hold, List.nodup_singleton _, ?_⟩
          intro pair hpair newPair hnew heq
          rw [List.mem_singleton] at hnew
          obtain ⟨signed, hsigned, rfl⟩ := List.mem_map.mp hpair
          rw [hnew, Prod.mk.injEq] at heq
          obtain ⟨hsound, hlt⟩ := accepted_spent chain txs signed hsigned
          have hmem : ∀ a ∈ accepted chain (txs ++ [tx]), ∀ bytes ∈ a.hashed chain,
              bytes ∈ hashed chain (txs ++ [tx]) := fun a ha bytes hbytes => ⟨a, ha, hbytes⟩
          rw [hlist] at hmem
          obtain ⟨-, hnonce⟩ := SignedRequest.eq_of_digest hcollisionFree hsound hstep.sound
            (hmem signed (List.mem_append_left _ hsigned))
            (hmem new (List.mem_append_right _ (List.mem_singleton.mpr rfl))) heq.2
          -- the old request was over a smaller nonce than its signer has now
          rw [hnonce, hstep.nonce, heq.1] at hlt
          exact absurd hlt (lt_irrefl _)

/-- Nonces count accepted requests. -/
theorem nonces_eq_count (txs : List Tx) (account : Address) :
    ((run chain txs).token.nonces account).val =
      (accepted chain txs).countP fun signed => signed.signer = account := by
  induction txs using List.reverseRecOn with
  | nil => rfl
  | append_singleton txs tx ih =>
      have hstep := step_nonces chain (run chain txs) tx
      rw [← run_concat] at hstep
      rw [accepted_concat, List.countP_append]
      cases haccepted : acceptedBy chain (run chain txs) tx with
      | none =>
          rw [haccepted] at hstep
          rw [hstep, ih]
          rfl
      | some new =>
          rw [haccepted] at hstep
          obtain ⟨next, hnext, hnonces⟩ := hstep.spent
          rw [hnonces, Option.toList_some, List.countP_singleton]
          by_cases heq : new.signer = account
          · subst heq
            rw [Function.update_self, hnext, ih]
            simp
          · rw [Function.update_of_ne (Ne.symm heq), ih]
            simp [heq]

theorem step_of_signer_zero (p : Proxy) {env : Env} {call : Call} {signed : SignedRequest}
    (hsigned : call.signed chain p.token = some signed) (hzero : signed.signer = 0) :
    step chain p ⟨env, .call call⟩ = p := by
  have hstep := step_nonces chain p ⟨env, .call call⟩
  cases houtcome : execute chain p ⟨env, .call call⟩ with
  | error e => rw [step, houtcome, commit_error]
  | ok p' =>
      simp only [acceptedBy, houtcome, hsigned] at hstep
      exact absurd hzero hstep.signer_ne_zero

/-- A signed message takes effect at most once and only as what was signed.  On any
run, if no two of the strings hashed for accepted requests collide: no signer and
digest are accepted twice; one digest means one request over one nonce; nonces
count what was accepted; a signature that recovers to nobody does nothing; and an
accepted request is performed. -/
theorem signed_messages_take_effect_once (txs : List Tx)
    (hcollisionFree : Set.InjOn chain.keccak256 (hashed chain txs)) :
    ((accepted chain txs).map fun signed => (signed.signer, signed.digest chain)).Nodup ∧
      (∀ a ∈ accepted chain txs, ∀ b ∈ accepted chain txs,
        a.digest chain = b.digest chain → a.request = b.request ∧ a.nonce = b.nonce) ∧
      (∀ before after, txs = before ++ after → ∀ account,
        ((run chain before).token.nonces account).val =
          (accepted chain before).countP fun signed => signed.signer = account) ∧
      (∀ before after, txs = before ++ after → ∀ env call signed,
        call.signed chain (run chain before).token = some signed → signed.signer = 0 →
        step chain (run chain before) ⟨env, .call call⟩ = run chain before) ∧
      ∀ before tx after, txs = before ++ tx :: after → ∀ signed,
        acceptedBy chain (run chain before) tx = some signed →
        signed.Performed (run chain before).token (step chain (run chain before) tx).token := by
  refine ⟨accepted_nodup chain txs hcollisionFree, ?_, ?_, ?_, ?_⟩
  · intro a ha b hb hdigest
    exact SignedRequest.eq_of_digest hcollisionFree (accepted_spent chain txs a ha).1
      (accepted_spent chain txs b hb).1 (fun bytes hbytes => ⟨a, ha, hbytes⟩)
      (fun bytes hbytes => ⟨b, hb, hbytes⟩) hdigest
  · intro before _ _ account
    exact nonces_eq_count chain before account
  · intro before _ _ env call signed hsigned hzero
    exact step_of_signer_zero chain (run chain before) hsigned hzero
  · intro before tx _ _ signed haccepted
    exact performed_of_accepted haccepted

end Proxy

namespace Sample

-- A run with two signatures of one account: a permit under V1 and, after the
-- upgrade, a delegation.  The chain knows `keccak256` and `ecrecover` on what the
-- run hashes and recovers.

def signer : Address := Address.ofNat 0x7e5f4552091a69125d5dfcb7b8c2659029395bdf

def keccakTable : List (Bytes × Bytes32) :=
  let domainTypehash : Bytes32 :=
    0x8b73c3c69bb8fe3d512ecc4cf759cc79239f7b179b0ffacaa9a75d522b39400f
  let permitTypehash : Bytes32 :=
    0x6e71edae12b1b97f4d1f60370fef10105fa2faae0126114a169c64845d6126c9
  let delegateTypehash : Bytes32 :=
    0x9a9a49b990ba9bb39f8048c490a40ab25c18f55d208d5fbcf958261a9b48716d
  let nameHash : Bytes32 :=
    0x6de23977ffcbc6592e936f4201e686d789e057c343ed002ce7a7a3c62f33ad46
  let revisionHash : Bytes32 :=
    0xc89efdaa54c0f20c7adf612882df0950f5a951637e0307cdcb4c672f298b8bc6
  let domainSeparator : Bytes32 :=
    0x73aa9732548b842bb7313a9bb85f4dda9af5a3cab878a3306612dc2bbd3837b0
  let permitHash : Bytes32 :=
    0x83cb604e213baac0f7cb3a4261dae27cbaad88f80e3adcb98851fca599122c5d
  let delegateHash : Bytes32 :=
    0x4a7b8aee561e3cfd22bfb2091dc0016950100227337aa383e30a2e6de2c25bdc
  [(stringBytes
      "EIP712Domain(string name,string version,uint256 chainId,address verifyingContract)",
      domainTypehash),
    (stringBytes
      "Permit(address owner,address spender,uint256 value,uint256 nonce,uint256 deadline)",
      permitTypehash),
    (stringBytes "Delegate(address delegatee,uint256 nonce,uint256 expiry)",
      delegateTypehash),
    (stringBytes "Plmy Token", nameHash),
    (stringBytes "1", revisionHash),
    (abiEncode [domainTypehash, nameHash, revisionHash, 1, chain.self.toWord],
      domainSeparator),
    (abiEncode [permitTypehash, signer.toWord, bob.toWord, 5, 0, 100], permitHash),
    (typedDataBytes domainSeparator permitHash,
      0x387514f7ad0306ec0374bd46cbffbe1b00cb01a272fd0d48e762d63869c1a076),
    (abiEncode [delegateTypehash, bob.toWord, 1, 100], delegateHash),
    (typedDataBytes domainSeparator delegateHash,
      0x7d860300c0fd866a16915170d90d1fccd1ec6a3c43c4bcdc6ea10a758b8f9122)]

def permitCall : Call := .permit signer bob 5 100 28
  0x57f186f6fa5f4aeee3e8b44ad775301b66d7fedc4ab8c827cb13838664727f10
  0x2aa45d4dc13fc790c8aeb39737b74ba3d1c9215f63aae0fa8ef9fb316044e4a4

def delegateCall : Call := .delegateBySig bob 1 100 27
  0xa6e08d0766274337f3b139a8d6fc3f614dde9ef72e03fc5245f7dfcb1c0ab41e
  0x5d205871c4aa597b9febe58d7caaa70dbc2c225820426d090f722482dcafccec

def signedChain : Chain where
  keccak256 bytes := (keccakTable.lookup bytes).getD 0
  ecrecover digest v r s :=
    if (digest, v, r, s) =
        (0x387514f7ad0306ec0374bd46cbffbe1b00cb01a272fd0d48e762d63869c1a076, 28,
          0x57f186f6fa5f4aeee3e8b44ad775301b66d7fedc4ab8c827cb13838664727f10,
          0x2aa45d4dc13fc790c8aeb39737b74ba3d1c9215f63aae0fa8ef9fb316044e4a4) then signer
    else if (digest, v, r, s) =
        (0x7d860300c0fd866a16915170d90d1fccd1ec6a3c43c4bcdc6ea10a758b8f9122, 27,
          0xa6e08d0766274337f3b139a8d6fc3f614dde9ef72e03fc5245f7dfcb1c0ab41e,
          0x5d205871c4aa597b9febe58d7caaa70dbc2c225820426d090f722482dcafccec) then signer
    else 0
  chainid := chain.chainid
  self := chain.self

def signedTxs : List Tx :=
  [⟨env alice 1, .call (.initializeV1 alice bob 0)⟩,
    ⟨env bob 2, .call permitCall⟩,
    ⟨env bob 2, .call permitCall⟩,
    ⟨env alice 3, .upgradeTo .plmyTokenV2⟩,
    ⟨env bob 4, .call delegateCall⟩]

theorem signedTxs_collisionFree :
    Set.InjOn signedChain.keccak256 (Proxy.hashed signedChain signedTxs) := by
  have hdistinct : ∀ a ∈ Proxy.accepted signedChain signedTxs,
      ∀ b ∈ Proxy.accepted signedChain signedTxs,
      ∀ x ∈ a.hashed signedChain, ∀ y ∈ b.hashed signedChain,
      signedChain.keccak256 x = signedChain.keccak256 y → x = y := by
    decide +kernel
  rintro x ⟨a, ha, hx⟩ y ⟨b, hb, hy⟩ heq
  exact hdistinct a ha b hb x hx y hy heq

end Sample

/-- The permit and the delegation of the sample run were accepted once each, though
the permit was sent twice. -/
theorem Proxy.signed_messages_take_effect_once_sample :
    ((run Sample.signedChain Sample.signedTxs).token.nonces Sample.signer).val =
        (accepted Sample.signedChain Sample.signedTxs).countP
          (fun signed => signed.signer = Sample.signer) ∧
      (accepted Sample.signedChain Sample.signedTxs).length = 2 :=
  ⟨(signed_messages_take_effect_once Sample.signedChain Sample.signedTxs
    Sample.signedTxs_collisionFree).2.2.1 Sample.signedTxs [] (List.append_nil _).symm
    Sample.signer, by decide +kernel⟩

end Palmy
