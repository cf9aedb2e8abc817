/-
Who governs the deployed proxy.  It is initialised once, and from then on its
two slots are in the hands of its admin alone, who in turn cannot use what
stands behind the proxy.
-/
import Palmy.AdminUpgradeabilityProxy
import Palmy.Library.EventReplay

namespace Palmy

open Solidity

variable {ε δ σ : Type} {c : Contracts ε δ σ}

/-- The two functions that `ifAdmin` does not guard. -/
def Calldata.isInitialize : Calldata δ → Bool
  | .initializeProxy .. | .initializeProxyWithAdmin .. => true
  | _ => false

/-- What the optional call of an initialisation makes of the storage. -/
def InitialCall (c : Contracts ε δ σ) (env : ε) (logic : Address) (data : Calldata δ)
    (storage storage' : σ) : Prop :=
  match data with
  | .empty => storage' = storage
  | data => delegatecall c env logic data storage = .ok storage'

/-- All that a successful call can do. -/
inductive ProxyEffect (c : Contracts ε δ σ) (env : ε) (p : AdminProxy σ) :
    Calldata δ → AdminProxy σ → Prop where
  | forwarded {data : Calldata δ} {storage : σ} (hsender : c.msgSender env ≠ p.admin)
      (hdata : data.isInitialize = false)
      (hcall : delegatecall c env p.implementation data p.storage = .ok storage) :
      ProxyEffect c env p data { p with storage := storage }
  | asked {data : Calldata δ} (hsender : c.msgSender env = p.admin)
      (hdata : data = .admin ∨ data = .implementation) : ProxyEffect c env p data p
  | adminChanged {newAdmin : Address} (hsender : c.msgSender env = p.admin)
      (hadmin : newAdmin ≠ 0) :
      ProxyEffect c env p (.changeAdmin newAdmin)
        { p with admin := newAdmin, log := p.log ++ [.adminChanged p.admin newAdmin] }
  | upgraded {newImplementation : Address} (hsender : c.msgSender env = p.admin)
      (hcode : isContract c newImplementation = true) :
      ProxyEffect c env p (.upgradeTo newImplementation)
        { p with
          implementation := newImplementation
          log := p.log ++ [.upgraded newImplementation] }
  | upgradedAndCalled {newImplementation : Address} {data : Calldata δ} {storage : σ}
      (hsender : c.msgSender env = p.admin) (hcode : isContract c newImplementation = true)
      (hcall : delegatecall c env newImplementation data p.storage = .ok storage) :
      ProxyEffect c env p (.upgradeToAndCall newImplementation data)
        { p with
          implementation := newImplementation
          storage := storage
          log := p.log ++ [.upgraded newImplementation] }
  | initialized {logic : Address} {data : Calldata δ} {storage : σ}
      (hfresh : p.implementation = 0) (hcode : isContract c logic = true)
      (hcall : InitialCall c env logic data p.storage storage) :
      ProxyEffect c env p (.initializeProxy logic data)
        { p with implementation := logic, storage := storage }
  | initializedWithAdmin {logic newAdmin : Address} {data : Calldata δ} {storage : σ}
      (hfresh : p.implementation = 0) (hcode : isContract c logic = true)
      (hcall : InitialCall c env logic data p.storage storage) :
      ProxyEffect c env p (.initializeProxyWithAdmin logic newAdmin data)
        { p with implementation := logic, admin := newAdmin, storage := storage }

section Calls

variable {env : ε} {p p' : AdminProxy σ} {data : Calldata δ}

theorem implementation_ne_zero_of_isContract {account : Address}
    (hcode : isContract c account = true) : account ≠ 0 := by
  rintro rfl
  rw [isContract, c.code_zero] at hcode
  cases hcode

/-- Calling an address without code does nothing, successfully. -/
theorem delegatecall_of_no_code {target : Address} {storage : σ}
    (hcode : c.code target = none) : delegatecall c env target data storage = .ok storage := by
  unfold delegatecall
  rw [hcode]

@[simp] theorem delegatecallOrRevert_eq_ok {target : Address} {storage storage' : σ} :
    delegatecallOrRevert c env target data storage = .ok storage' ↔
      delegatecall c env target data storage = .ok storage' := by
  unfold delegatecallOrRevert
  split
  · next h => rw [h]
  · next h =>
      rw [h]
      simp

namespace BaseUpgradeabilityProxy

@[simp] theorem setImplementation_eq_ok {newImplementation : Address} :
    setImplementation c newImplementation p = .ok p' ↔
      isContract c newImplementation = true ∧
        { p with implementation := newImplementation } = p' := by
  simp only [setImplementation, bind_eq_ok, require_eq_ok, exists_const, pure_eq_ok]

@[simp] theorem upgradeToInternal_eq_ok {newImplementation : Address} :
    upgradeToInternal c newImplementation p = .ok p' ↔
      isContract c newImplementation = true ∧
        { p with
          implementation := newImplementation
          log := p.log ++ [.upgraded newImplementation] } = p' := by
  simp only [upgradeToInternal, bind_eq_ok, pure_eq_ok, setImplementation_eq_ok]
  constructor
  · rintro ⟨_, ⟨hcode, rfl⟩, rfl⟩
    exact ⟨hcode, rfl⟩
  · rintro ⟨hcode, rfl⟩
    exact ⟨_, ⟨hcode, rfl⟩, rfl⟩

end BaseUpgradeabilityProxy

theorem fallback_eq_ok : BaseAdminUpgradeabilityProxy.fallback c env data p = .ok p' ↔
    c.msgSender env ≠ p.admin ∧ ∃ storage,
      delegatecall c env p.implementation data p.storage = .ok storage ∧
        { p with storage := storage } = p' := by
  simp only [BaseAdminUpgradeabilityProxy.fallback, bind_eq_ok, require_eq_ok, exists_const,
    pure_eq_ok]

theorem effect_of_fallback (hdata : data.isInitialize = false)
    (h : BaseAdminUpgradeabilityProxy.fallback c env data p = .ok p') :
    ProxyEffect c env p data p' := by
  obtain ⟨hsender, storage, hcall, rfl⟩ := fallback_eq_ok.mp h
  exact .forwarded hsender hdata hcall

/-- A guarded function runs for the admin, and falls back for all others. -/
theorem effect_of_ifAdmin (hdata : data.isInitialize = false)
    {body : AdminProxy σ → Result (AdminProxy σ)}
    (hbody : c.msgSender env = p.admin → body p = .ok p' → ProxyEffect c env p data p')
    (h : BaseAdminUpgradeabilityProxy.ifAdmin c env data body p = .ok p') :
    ProxyEffect c env p data p' := by
  unfold BaseAdminUpgradeabilityProxy.ifAdmin at h
  split at h
  · next hsender => exact hbody hsender h
  · exact effect_of_fallback hdata h

theorem initializeProxy_eq_ok {logic : Address} :
    InitializableUpgradeabilityProxy.initializeProxy c env logic data p = .ok p' ↔
      p.implementation = 0 ∧ isContract c logic = true ∧ ∃ storage,
        InitialCall c env logic data p.storage storage ∧
          { p with implementation := logic, storage := storage } = p' := by
  cases data with
  | empty =>
      simp only [InitializableUpgradeabilityProxy.initializeProxy, InitialCall, bind_eq_ok,
        requireSilently_eq_ok, exists_const, pure_eq_ok,
        BaseUpgradeabilityProxy.setImplementation_eq_ok]
      constructor
      · rintro ⟨hfresh, _, ⟨hcode, rfl⟩, rfl⟩
        exact ⟨hfresh, hcode, _, rfl, rfl⟩
      · rintro ⟨hfresh, hcode, _, rfl, rfl⟩
        exact ⟨hfresh, _, ⟨hcode, rfl⟩, rfl⟩
  | _ =>
      simp only [InitializableUpgradeabilityProxy.initializeProxy, InitialCall, bind_eq_ok,
        requireSilently_eq_ok, exists_const, pure_eq_ok, delegatecallOrRevert_eq_ok,
        BaseUpgradeabilityProxy.setImplementation_eq_ok]
      constructor
      · rintro ⟨hfresh, _, ⟨hcode, rfl⟩, storage, hcall, rfl⟩
        exact ⟨hfresh, hcode, storage, hcall, rfl⟩
      · rintro ⟨hfresh, hcode, storage, hcall, rfl⟩
        exact ⟨hfresh, _, ⟨hcode, rfl⟩, storage, hcall, rfl⟩

theorem initializeProxyWithAdmin_eq_ok {logic newAdmin : Address} :
    InitializableAdminUpgradeabilityProxy.initializeProxy c env logic newAdmin data p = .ok p' ↔
      p.implementation = 0 ∧ isContract c logic = true ∧ ∃ storage,
        InitialCall c env logic data p.storage storage ∧
          { p with implementation := logic, admin := newAdmin, storage := storage } = p' := by
  simp only [InitializableAdminUpgradeabilityProxy.initializeProxy, bind_eq_ok, pure_eq_ok,
    requireSilently_eq_ok, exists_const, initializeProxy_eq_ok]
  constructor
  · rintro ⟨hfresh, p₁, ⟨-, hcode, storage, hcall, rfl⟩, rfl⟩
    exact ⟨hfresh, hcode, storage, hcall, rfl⟩
  · rintro ⟨hfresh, hcode, storage, hcall, rfl⟩
    exact ⟨hfresh, _, ⟨hfresh, hcode, storage, hcall, rfl⟩, rfl⟩

end Calls

namespace AdminProxy

variable {p p' : AdminProxy σ} {r : ProxyRequest ε δ}

/-- A successful call has one of the effects. -/
theorem effect_of_execute (h : execute c p r = .ok p') :
    ProxyEffect c r.env p r.calldata p' := by
  obtain ⟨env, data⟩ := r
  cases data with
  | empty => exact effect_of_fallback rfl h
  | call data => exact effect_of_fallback rfl h
  | admin =>
      simp only [execute, BaseAdminUpgradeabilityProxy.admin] at h
      by_cases hsender : c.msgSender env = p.admin
      · rw [if_pos hsender] at h
        cases h
        exact .asked hsender (Or.inl rfl)
      · rw [if_neg hsender] at h
        simp only [bind_eq_ok, pure_eq_ok] at h
        obtain ⟨_, ⟨p₁, hfallback, rfl⟩, rfl⟩ := h
        exact effect_of_fallback rfl hfallback
  | implementation =>
      simp only [execute, BaseAdminUpgradeabilityProxy.implementation] at h
      by_cases hsender : c.msgSender env = p.admin
      · rw [if_pos hsender] at h
        cases h
        exact .asked hsender (Or.inr rfl)
      · rw [if_neg hsender] at h
        simp only [bind_eq_ok, pure_eq_ok] at h
        obtain ⟨_, ⟨p₁, hfallback, rfl⟩, rfl⟩ := h
        exact effect_of_fallback rfl hfallback
  | changeAdmin newAdmin =>
      simp only [execute, BaseAdminUpgradeabilityProxy.changeAdmin] at h
      refine effect_of_ifAdmin rfl (fun hsender hbody => ?_) h
      simp only [bind_eq_ok, require_eq_ok, pure_eq_ok, exists_const] at hbody
      obtain ⟨hadmin, rfl⟩ := hbody
      exact .adminChanged hsender hadmin
  | upgradeTo newImplementation =>
      simp only [execute, BaseAdminUpgradeabilityProxy.upgradeTo] at h
      refine effect_of_ifAdmin rfl (fun hsender hbody => ?_) h
      obtain ⟨hcode, rfl⟩ := BaseUpgradeabilityProxy.upgradeToInternal_eq_ok.mp hbody
      exact .upgraded hsender hcode
  | upgradeToAndCall newImplementation data =>
      simp only [execute, BaseAdminUpgradeabilityProxy.upgradeToAndCall] at h
      refine effect_of_ifAdmin rfl (fun hsender hbody => ?_) h
      simp only [bind_eq_ok, pure_eq_ok, BaseUpgradeabilityProxy.upgradeToInternal_eq_ok,
        delegatecallOrRevert_eq_ok] at hbody
      obtain ⟨_, ⟨hcode, rfl⟩, storage, hcall, rfl⟩ := hbody
      exact .upgradedAndCalled hsender hcode hcall
  | initializeProxy logic data =>
      obtain ⟨hfresh, hcode, storage, hcall, rfl⟩ := initializeProxy_eq_ok.mp h
      exact .initialized hfresh hcode hcall
  | initializeProxyWithAdmin logic newAdmin data =>
      obtain ⟨hfresh, hcode, storage, hcall, rfl⟩ := initializeProxyWithAdmin_eq_ok.mp h
      exact .initializedWithAdmin hfresh hcode hcall

/-- A call reverts and changes nothing, or has one of the effects. -/
theorem step_cases (c : Contracts ε δ σ) (p : AdminProxy σ) (r : ProxyRequest ε δ) :
    step c p r = p ∨ ProxyEffect c r.env p r.calldata (step c p r) :=
  (commit_cases p (execute c p r)).imp_right effect_of_execute

section Runs

variable {storage : σ} {later : List (ProxyRequest ε δ)}

theorem step_implementation_ne_zero (hinit : p.implementation ≠ 0) (r : ProxyRequest ε δ) :
    (step c p r).implementation ≠ 0 := by
  obtain ⟨env, data⟩ := r
  rcases step_cases c p ⟨env, data⟩ with hsame | heffect
  · rwa [hsame]
  generalize step c p ⟨env, data⟩ = p' at heffect
  cases heffect with
  | forwarded | asked | adminChanged => exact hinit
  | upgraded hsender hcode | upgradedAndCalled hsender hcode | initialized hfresh hcode
  | initializedWithAdmin hfresh hcode => exact implementation_ne_zero_of_isContract hcode

theorem run_implementation_ne_zero (hinit : p.implementation ≠ 0)
    (later : List (ProxyRequest ε δ)) : (run c p later).implementation ≠ 0 :=
  Timeline.run_induction_of_forall (P := fun p : AdminProxy σ => p.implementation ≠ 0)
    (Q := fun _ => True)
    (fun _ r _ hinit => step_implementation_ne_zero hinit r) hinit fun _ _ => trivial

/-- Somebody else's call on an initialised proxy reaches the storage at most. -/
theorem step_of_other (hinit : p.implementation ≠ 0)
    (hsender : c.msgSender r.env ≠ p.admin) :
    step c p r = { p with storage := (step c p r).storage } := by
  obtain ⟨env, data⟩ := r
  rcases step_cases c p ⟨env, data⟩ with hsame | heffect
  · rw [hsame]
  generalize step c p ⟨env, data⟩ = p' at heffect
  cases heffect with
  | forwarded => rfl
  | asked hadmin | adminChanged hadmin | upgraded hadmin | upgradedAndCalled hadmin =>
      exact absurd hadmin hsender
  | initialized hfresh | initializedWithAdmin hfresh => exact absurd hfresh hinit

/-- So does any number of calls of others. -/
theorem run_of_others (hinit : p.implementation ≠ 0)
    (hsenders : ∀ r ∈ later, c.msgSender r.env ≠ p.admin) :
    run c p later = { p with storage := (run c p later).storage } := by
  induction later generalizing p with
  | nil => rfl
  | cons r later ih =>
      obtain ⟨hfirst, hrest⟩ := List.forall_mem_cons.mp hsenders
      have hstep := step_of_other hinit hfirst
      have hadmin : (step c p r).admin = p.admin := by rw [hstep]
      have hlater := ih (step_implementation_ne_zero hinit r) (by rwa [hadmin])
      change run c (step c p r) later =
        { p with storage := (run c (step c p r) later).storage }
      rw [hlater, hstep]

/-- Only `upgradeToAndCall` lets the admin touch the storage. -/
theorem step_of_admin (hinit : p.implementation ≠ 0) (hsender : c.msgSender r.env = p.admin)
    (hdata : ∀ newImplementation data, r.calldata ≠ .upgradeToAndCall newImplementation data) :
    (step c p r).storage = p.storage := by
  obtain ⟨env, data⟩ := r
  rcases step_cases c p ⟨env, data⟩ with hsame | heffect
  · rw [hsame]
  generalize step c p ⟨env, data⟩ = p' at heffect
  cases heffect with
  | forwarded hother => exact absurd hsender hother
  | asked | adminChanged | upgraded => rfl
  | upgradedAndCalled => exact absurd rfl (hdata _ _)
  | initialized hfresh | initializedWithAdmin hfresh => exact absurd hfresh hinit

/-- The slots are written by the events that announce it. -/
inductive Slot where
  | implementation
  | admin
deriving DecidableEq

def slots (p : AdminProxy σ) : Slot → Address
  | .implementation => p.implementation
  | .admin => p.admin

/-- The slot an event announces a new value of. -/
def announces : ProxyEvent → Option (Slot × Address)
  | .upgraded implementation => some (.implementation, implementation)
  | .adminChanged _ newAdmin => some (.admin, newAdmin)

/-- An admin change names the admin it replaces. -/
def NamesAdmin (slots : Slot → Address) : ProxyEvent → Prop
  | .upgraded _ => True
  | .adminChanged previousAdmin _ => previousAdmin = slots .admin

/-- A log from given slots on: it tells every later value of them. -/
structure Told (slots slots' : Slot → Address) (events : List ProxyEvent) : Prop where
  replay : slots' = EventReplay.replay announces slots events
  names : ∀ before event after, events = before ++ event :: after →
    NamesAdmin (EventReplay.replay announces slots before) event

theorem Told.nil (slots : Slot → Address) : Told slots slots [] where
  replay := rfl
  names before event after h := by simp at h

theorem Told.single {slots slots' : Slot → Address} {event : ProxyEvent}
    (hobserve : slots' = EventReplay.observe announces slots event)
    (hnames : NamesAdmin slots event) : Told slots slots' [event] where
  replay := hobserve
  names before other after h := by
    cases before with
    | nil =>
        cases h
        exact hnames
    | cons first before => simp at h

theorem Told.append {slots slots₁ slots' : Slot → Address} {first second : List ProxyEvent}
    (hfirst : Told slots slots₁ first) (hsecond : Told slots₁ slots' second) :
    Told slots slots' (first ++ second) where
  replay := by
    rw [EventReplay.replay_append, ← hfirst.replay]
    exact hsecond.replay
  names before event after h := by
    rcases List.append_eq_append_iff.mp h with ⟨middle, hbefore, hrest⟩ | ⟨middle, hleft, hright⟩
    · rw [hbefore, EventReplay.replay_append, ← hfirst.replay]
      exact hsecond.names middle event after hrest
    · cases middle with
      | nil =>
          have hbefore : before = first := by simpa using hleft.symm
          rw [hbefore, ← hfirst.replay]
          exact hsecond.names [] event after hright.symm
      | cons next middle =>
          obtain ⟨rfl, rfl⟩ := List.cons.inj hright
          exact hfirst.names before event middle hleft

/-- A call of an initialised proxy announces what it writes. -/
theorem step_told (hinit : p.implementation ≠ 0) (r : ProxyRequest ε δ) :
    ∃ events, (step c p r).log = p.log ++ events ∧
      Told p.slots (step c p r).slots events := by
  have hsame : ∃ events, p.log = p.log ++ events ∧ Told p.slots p.slots events :=
    ⟨[], (List.append_nil _).symm, Told.nil _⟩
  obtain ⟨env, data⟩ := r
  rcases step_cases c p ⟨env, data⟩ with hstep | heffect
  · rwa [hstep]
  generalize step c p ⟨env, data⟩ = p' at heffect
  cases heffect with
  | forwarded | asked => exact hsame
  | adminChanged =>
      refine ⟨_, rfl, .single ?_ rfl⟩
      funext slot
      cases slot <;> rfl
  | upgraded | upgradedAndCalled =>
      refine ⟨_, rfl, .single ?_ trivial⟩
      funext slot
      cases slot <;> rfl
  | initialized hfresh | initializedWithAdmin hfresh => exact absurd hfresh hinit

theorem run_told (hinit : p.implementation ≠ 0) (later : List (ProxyRequest ε δ)) :
    ∃ events, (run c p later).log = p.log ++ events ∧
      Told p.slots (run c p later).slots events := by
  induction later generalizing p with
  | nil => exact ⟨[], (List.append_nil _).symm, Told.nil _⟩
  | cons r later ih =>
      obtain ⟨first, hfirst, htold⟩ := step_told hinit r
      obtain ⟨second, hsecond, hrest⟩ := ih (step_implementation_ne_zero hinit r)
      refine ⟨first ++ second, ?_, htold.append hrest⟩
      change (run c (step c p r) later).log = _
      rw [hsecond, hfirst, List.append_assoc]

/-- Before its initialisation the proxy does nothing at all. -/
theorem step_uninitialized (hsender : c.msgSender r.env ≠ 0)
    (hfresh : (step c (genesis storage) r).implementation = 0) :
    step c (genesis storage) r = genesis storage := by
  obtain ⟨env, data⟩ := r
  rcases step_cases c (genesis storage) ⟨env, data⟩ with hsame | heffect
  · exact hsame
  generalize step c (genesis storage) ⟨env, data⟩ = p' at hfresh heffect
  cases heffect with
  | forwarded hother hdata hcall =>
      change delegatecall c env 0 data storage = _ at hcall
      rw [delegatecall_of_no_code c.code_zero] at hcall
      cases hcall
      rfl
  | asked hadmin | adminChanged hadmin | upgraded hadmin | upgradedAndCalled hadmin =>
      exact absurd hadmin hsender
  | initialized _ hcode | initializedWithAdmin _ hcode =>
      exact absurd hfresh (implementation_ne_zero_of_isContract hcode)

theorem run_uninitialized (hsenders : ∀ r ∈ later, c.msgSender r.env ≠ 0)
    (hfresh : (run c (genesis storage) later).implementation = 0) :
    run c (genesis storage) later = genesis storage := by
  induction later using List.reverseRecOn with
  | nil => rfl
  | append_singleton later r ih =>
      simp only [run, Timeline.run_concat] at hfresh ⊢
      have hbefore : (run c (genesis storage) later).implementation = 0 := by
        by_contra hinit
        exact step_implementation_ne_zero hinit r hfresh
      have hgenesis := ih (fun r hr => hsenders r (List.mem_append_left _ hr)) hbefore
      simp only [run] at hgenesis
      rw [hgenesis] at hfresh ⊢
      exact step_uninitialized (hsenders r (by simp)) hfresh

end Runs

/-- An initialised proxy is governed by its admin alone.  Along every run the
calls of others reach the storage behind it and nothing else, neither
initialisation succeeds again, the admin of the moment cannot touch the storage
except by `upgradeToAndCall`, and the log tells every value the slots have had,
each change of admin naming the admin it replaces. -/
theorem initialized_proxy_obeys_its_admin (hinit : p.implementation ≠ 0)
    (later : List (ProxyRequest ε δ)) :
    ((∀ r ∈ later, c.msgSender r.env ≠ p.admin) →
        run c p later = { p with storage := (run c p later).storage }) ∧
      (∀ env logic newAdmin data,
        ¬ Succeeds (InitializableUpgradeabilityProxy.initializeProxy c env logic data
            (run c p later)) ∧
          ¬ Succeeds (InitializableAdminUpgradeabilityProxy.initializeProxy c env logic newAdmin
            data (run c p later))) ∧
      (∀ r, c.msgSender r.env = (run c p later).admin →
        (∀ newImplementation data,
          r.calldata ≠ .upgradeToAndCall newImplementation data) →
        (step c (run c p later) r).storage = (run c p later).storage) ∧
      ∃ events, (run c p later).log = p.log ++ events ∧
        Told p.slots (run c p later).slots events := by
  have hinitLater := run_implementation_ne_zero (c := c) hinit later
  refine ⟨run_of_others hinit, ?_, fun r => step_of_admin hinitLater, run_told hinit later⟩
  intro env logic newAdmin data
  constructor
  · rintro ⟨p', h⟩
    exact hinitLater (initializeProxy_eq_ok.mp h).1
  · rintro ⟨p', h⟩
    exact hinitLater (initializeProxyWithAdmin_eq_ok.mp h).1

/-- In the sample run the admin stays the same over Alice's calls. -/
theorem initialized_proxy_obeys_its_admin_sample :
    (run Sample.plmy.contracts (run Sample.plmy.contracts (genesis Token.genesis)
      (Sample.requests.take 3)) (Sample.requests.drop 3)).admin = Sample.proxyAdmin := by
  have hothers := (initialized_proxy_obeys_its_admin (c := Sample.plmy.contracts)
    (p := run Sample.plmy.contracts (genesis Token.genesis) (Sample.requests.take 3))
    (by decide) (Sample.requests.drop 3)).1 (by decide)
  rw [hothers]
  rfl

/-- Who initialises the proxy first decides for good.  Up to then, no call of
anybody has any effect; once somebody called the initialisation that takes no
admin, the proxy runs that code for ever, without an admin, whatever is called
by whom. -/
theorem initialization_without_admin_is_final {storage : σ} {before later : List (ProxyRequest ε δ)}
    {env : ε} {logic : Address} {data : Calldata δ} {p' : AdminProxy σ}
    (hbefore : ∀ r ∈ before, c.msgSender r.env ≠ 0)
    (hlater : ∀ r ∈ later, c.msgSender r.env ≠ 0)
    (h : InitializableUpgradeabilityProxy.initializeProxy c env logic data
      (run c (genesis storage) before) = .ok p') :
    run c (genesis storage) before = genesis storage ∧
      run c p' later = ⟨logic, 0, (run c p' later).storage, []⟩ := by
  obtain ⟨hfresh, hcode, storage', -, rfl⟩ := initializeProxy_eq_ok.mp h
  have hgenesis := run_uninitialized hbefore hfresh
  refine ⟨hgenesis, ?_⟩
  rw [hgenesis]
  exact run_of_others (implementation_ne_zero_of_isContract hcode) hlater

/-- Bob, who is not the deployer, initialises the sample proxy first: the run
that was meant for it then changes neither slot. -/
theorem initialization_without_admin_is_final_sample :
    ∃ p', InitializableUpgradeabilityProxy.initializeProxy Sample.plmy.contracts
        (Sample.env Sample.bob 1) Sample.plmyTokenAddress .empty
        (run Sample.plmy.contracts (genesis Token.genesis) []) = .ok p' ∧
      (run Sample.plmy.contracts p' Sample.requests).admin = 0 := by
  obtain ⟨p', h⟩ : Succeeds (InitializableUpgradeabilityProxy.initializeProxy
      Sample.plmy.contracts (Sample.env Sample.bob 1) Sample.plmyTokenAddress .empty
      (run Sample.plmy.contracts (genesis Token.genesis) [])) := ⟨_, rfl⟩
  refine ⟨p', h, ?_⟩
  rw [(initialization_without_admin_is_final (by simp) (by decide) h).2]

end AdminProxy

end Palmy
