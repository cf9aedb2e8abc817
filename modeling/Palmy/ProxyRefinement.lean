/-
The deployed proxy of PLMY refines the plain one: what it does in a run is what
a token with a current implementation does in the transactions the run stands
for, so that all that is known of those runs holds of the deployed proxy.
-/
import Palmy.PowerQueries
import Palmy.ProxyAdministration

namespace Palmy

open Solidity
open AdminProxy

namespace PlmyDeployment

variable (d : PlmyDeployment)

/-- The plain proxy behind the deployed one.  Before the initialisation no code
is in charge, and no call is answered: as well it could be V1. -/
def plain (p : AdminProxy Token) : Proxy :=
  ⟨(d.code p.implementation).getD .plmyToken, p.storage⟩

/-- A change of the implementation, if it is one. -/
def switchTo (env : Env) (current next : Implementation) : List Tx :=
  if current = next then [] else [⟨env, .upgradeTo next⟩]

/-- The call of the token that a call of the proxy carries. -/
def carried (env : Env) : Calldata Call → List Tx
  | .call call => [⟨env, .call call⟩]
  | _ => []

/-- The calls of the token a successful call of the proxy makes: its own data
for a fallback to code, the data it carries for the admin's `upgradeToAndCall`
and for an initialisation. -/
def calls (p : AdminProxy Token) (r : ProxyRequest Env Call) : List Tx :=
  match r.calldata with
  | .call call => if (d.code p.implementation).isSome then [⟨r.env, .call call⟩] else []
  | .upgradeToAndCall _ data =>
      if r.env.msgSender = p.admin then carried r.env data else []
  | .initializeProxy _ data | .initializeProxyWithAdmin _ _ data => carried r.env data
  | _ => []

/-- The transactions one call of the proxy stands for, none if it reverts. -/
def meaning (p : AdminProxy Token) (r : ProxyRequest Env Call) : List Tx :=
  match AdminProxy.execute d.contracts p r with
  | .ok p' => switchTo r.env (d.plain p).implementation (d.plain p').implementation ++
      d.calls p r
  | .error _ => []

/-- The transactions a run of the freshly deployed proxy stands for. -/
def transactions (requests : List (ProxyRequest Env Call)) : List Tx :=
  Timeline.interpretation (AdminProxy.step d.contracts) d.meaning
    (AdminProxy.genesis Token.genesis) requests

/-- The freshly deployed proxy after a run. -/
def run (requests : List (ProxyRequest Env Call)) : AdminProxy Token :=
  AdminProxy.run d.contracts (AdminProxy.genesis Token.genesis) requests

variable {d} {env : Env} {p p' : AdminProxy Token} {s s' : Token} {data : Calldata Call}
  {account : Address} {implementation current next : Implementation}

theorem run_switchTo :
    Timeline.run (Proxy.step d.chain) ⟨current, s⟩ (switchTo env current next) = ⟨next, s⟩ := by
  unfold switchTo
  split
  · next hsame => rw [hsame, Timeline.run_nil]
  · rfl

theorem isContract_iff :
    isContract d.contracts account = true ↔
      ∃ implementation, d.code account = some implementation := by
  rw [isContract, contracts, Option.isSome_map, Option.isSome_iff_exists]

/-- Code in charge of an address runs the calls it has a function for. -/
theorem delegatecall_cases (hcode : d.code account = some implementation)
    (h : delegatecall d.contracts env account data s = .ok s') :
    ∃ call, data = .call call ∧ implementation.execute d.chain env s call = .ok s' := by
  have hrun : d.contracts.code account = some fun env call s =>
      implementation.execute d.chain env s call := by
    change (d.code account).map _ = _
    rw [hcode, Option.map_some]
  unfold delegatecall at h
  rw [hrun] at h
  cases data with
  | call call => exact ⟨call, rfl, h⟩
  | _ => cases h

theorem delegatecall_of_no_code (hcode : d.code account = none)
    (h : delegatecall d.contracts env account data s = .ok s') : s' = s := by
  have hnone : d.contracts.code account = none := by
    change (d.code account).map _ = _
    rw [hcode, Option.map_none]
  rw [Palmy.delegatecall_of_no_code hnone] at h
  cases h
  rfl

/-- A call that succeeds is a transaction of the plain proxy. -/
theorem run_call {call : Call} (h : implementation.execute d.chain env s call = .ok s') :
    Timeline.run (Proxy.step d.chain) ⟨implementation, s⟩ [⟨env, .call call⟩] =
      ⟨implementation, s'⟩ := by
  change commit _ (Proxy.execute d.chain ⟨implementation, s⟩ ⟨env, .call call⟩) = _
  simp only [Proxy.execute, h, ok_bind]
  rfl

theorem run_carried (hcode : d.code account = some implementation)
    (h : delegatecall d.contracts env account data s = .ok s') :
    Timeline.run (Proxy.step d.chain) ⟨implementation, s⟩ (carried env data) =
      ⟨implementation, s'⟩ := by
  obtain ⟨call, rfl, hcall⟩ := delegatecall_cases hcode h
  exact run_call hcall

theorem run_initialCall (hcode : d.code account = some implementation)
    (h : InitialCall d.contracts env account data s s') :
    Timeline.run (Proxy.step d.chain) ⟨implementation, s⟩ (carried env data) =
      ⟨implementation, s'⟩ := by
  cases data with
  | empty =>
      cases h
      rfl
  | _ => exact run_carried hcode h

/-- One call of the deployed proxy is what it stands for. -/
theorem plain_step (p : AdminProxy Token) (r : ProxyRequest Env Call) :
    d.plain (AdminProxy.step d.contracts p r) =
      Timeline.run (Proxy.step d.chain) (d.plain p) (d.meaning p r) := by
  obtain ⟨env, data⟩ := r
  cases hexecute : AdminProxy.execute d.contracts p ⟨env, data⟩ with
  | error e =>
      rw [meaning, hexecute, AdminProxy.step, hexecute]
      rfl
  | ok p' =>
      rw [meaning, hexecute, AdminProxy.step, hexecute, commit_ok]
      change _ = Timeline.run _ (Proxy.mk (d.plain p).implementation p.storage) (_ ++ _)
      rw [Timeline.run_append, run_switchTo]
      have heffect := AdminProxy.effect_of_execute hexecute
      clear hexecute
      cases heffect with
      | @forwarded _ storage hsender hdata hcall =>
          cases hcode : d.code p.implementation with
          | none =>
              have hsame := delegatecall_of_no_code hcode hcall
              have hnothing : d.calls p ⟨env, data⟩ = [] := by
                cases data with
                | call call => simp [calls, hcode]
                | upgradeToAndCall => exact if_neg hsender
                | initializeProxy | initializeProxyWithAdmin => cases hdata
                | _ => rfl
              rw [hnothing, hsame]
              rfl
          | some implementation =>
              obtain ⟨call, rfl, hok⟩ := delegatecall_cases hcode hcall
              have hcalls : d.calls p ⟨env, .call call⟩ = [⟨env, .call call⟩] := by
                simp [calls, hcode]
              have hplain : (d.plain { p with storage := storage }).implementation =
                  implementation := by
                simp [plain, hcode]
              rw [hcalls, hplain, run_call hok]
              simp [plain, hcode]
      | asked hsender hdata =>
          rcases hdata with rfl | rfl <;> rfl
      | adminChanged => rfl
      | upgraded => rfl
      | upgradedAndCalled hsender hcontract hcall =>
          obtain ⟨implementation, hcode⟩ := isContract_iff.mp hcontract
          simp only [calls, plain, hcode, Option.getD_some]
          rw [if_pos (show env.msgSender = p.admin from hsender)]
          exact (run_carried hcode hcall).symm
      | initialized hfresh hcontract hcall | initializedWithAdmin hfresh hcontract hcall =>
          obtain ⟨implementation, hcode⟩ := isContract_iff.mp hcontract
          simp only [calls, plain, hcode, Option.getD_some]
          exact (run_initialCall hcode hcall).symm

theorem plain_run (requests : List (ProxyRequest Env Call)) :
    d.plain (d.run requests) = Proxy.run d.chain (d.transactions requests) := by
  have hgenesis : d.plain (AdminProxy.genesis Token.genesis) = Proxy.genesis := by
    simp [plain, AdminProxy.genesis, d.code_zero, Proxy.genesis]
  have hrefines : d.plain (d.run requests) =
      Timeline.run (Proxy.step d.chain) (d.plain (AdminProxy.genesis Token.genesis))
        (d.transactions requests) :=
    Timeline.run_refines (P := fun _ => True) (fun _ _ _ => trivial)
      (fun p r _ => plain_step p r) trivial requests
  rw [hgenesis] at hrefines
  exact hrefines

/-- What a call stands for happens in its block. -/
theorem env_of_mem_meaning {r : ProxyRequest Env Call} {tx : Tx} (htx : tx ∈ d.meaning p r) :
    tx.env = r.env := by
  have hcarried : ∀ data, tx ∈ carried r.env data → tx.env = r.env := by
    intro data h
    cases data with
    | call call => exact congrArg Tx.env (List.mem_singleton.mp h)
    | _ => cases h
  unfold meaning at htx
  split at htx
  · rcases List.mem_append.mp htx with hswitch | hcalls
    · unfold switchTo at hswitch
      split at hswitch
      · cases hswitch
      · exact congrArg Tx.env (List.mem_singleton.mp hswitch)
    · unfold calls at hcalls
      split at hcalls
      · split at hcalls
        · exact congrArg Tx.env (List.mem_singleton.mp hcalls)
        · cases hcalls
      · split at hcalls
        · exact hcarried _ hcalls
        · cases hcalls
      · exact hcarried _ hcalls
      · exact hcarried _ hcalls
      · cases hcalls
  · cases htx

theorem isCall_of_mem_calls {r : ProxyRequest Env Call} {tx : Tx} (htx : tx ∈ d.calls p r) :
    ∃ call, tx = ⟨r.env, .call call⟩ := by
  have hcarried : ∀ data, tx ∈ carried r.env data → ∃ call, tx = ⟨r.env, .call call⟩ := by
    intro data h
    cases data with
    | call call => exact ⟨call, List.mem_singleton.mp h⟩
    | _ => cases h
  unfold calls at htx
  split at htx
  · next call _ =>
      split at htx
      · exact ⟨call, List.mem_singleton.mp htx⟩
      · cases htx
  · split at htx
    · exact hcarried _ htx
    · cases htx
  · exact hcarried _ htx
  · exact hcarried _ htx
  · cases htx

/-- The plain proxy switches when the slot does. -/
theorem upgrade_cases {r : ProxyRequest Env Call} (h : AdminProxy.execute d.contracts p r = .ok p')
    (hchanged : (d.plain p).implementation ≠ (d.plain p').implementation) :
    p.implementation = 0 ∨ r.env.msgSender = p.admin ∧ ∃ account data,
      (r.calldata = .upgradeTo account ∨ r.calldata = .upgradeToAndCall account data) ∧
        d.code account = some (d.plain p').implementation := by
  obtain ⟨env, calldata⟩ := r
  have heffect := AdminProxy.effect_of_execute h
  clear h
  cases heffect with
  | forwarded | asked | adminChanged => exact absurd rfl hchanged
  | @upgraded account hsender hcontract =>
      obtain ⟨implementation, hcode⟩ := isContract_iff.mp hcontract
      exact Or.inr ⟨hsender, account, .empty, Or.inl rfl, by simp [plain, hcode]⟩
  | @upgradedAndCalled account data _ hsender hcontract =>
      obtain ⟨implementation, hcode⟩ := isContract_iff.mp hcontract
      exact Or.inr ⟨hsender, account, data, Or.inr rfl, by simp [plain, hcode]⟩
  | initialized hfresh | initializedWithAdmin hfresh => exact Or.inl hfresh

/-- The admin does not replace code of V2 by code of V1. -/
def MovesForward (d : PlmyDeployment) (p : AdminProxy Token) (r : ProxyRequest Env Call) : Prop :=
  r.env.msgSender = p.admin → d.code p.implementation = some .plmyTokenV2 → ∀ account data,
    r.calldata = .upgradeTo account ∨ r.calldata = .upgradeToAndCall account data →
      d.code account ≠ some .plmyToken

theorem plain_of_ne (hcode : d.code p.implementation ≠ some .plmyTokenV2) :
    (d.plain p).implementation = .plmyToken := by
  unfold plain
  cases h : d.code p.implementation with
  | none => rfl
  | some current =>
      cases current with
      | plmyToken => rfl
      | plmyTokenV2 => exact absurd h hcode

/-- A run that goes on by calls, or by the one upgrade. -/
theorem upgradeRun_calls {chain : Chain} {txs later : List Tx}
    (hrun : UpgradeRun chain implementation txs)
    (hlater : ∀ tx ∈ later, ∃ call, tx = ⟨env, .call call⟩)
    (hblock : ∀ tx ∈ txs, tx.block ≤ env.block.number.val) :
    UpgradeRun chain implementation (txs ++ later) := by
  induction later using List.reverseRecOn with
  | nil => rwa [List.append_nil]
  | append_singleton later tx ih =>
      obtain ⟨call, rfl⟩ := hlater tx (by simp)
      have hbefore : ∀ earlier ∈ later, ∃ call, earlier = ⟨env, .call call⟩ :=
        fun earlier h => hlater earlier (List.mem_append_left _ h)
      rw [← List.append_assoc]
      refine (ih hbefore).call fun earlier h => ?_
      rcases List.mem_append.mp h with hold | hnew
      · exact hblock earlier hold
      · obtain ⟨_, rfl⟩ := hbefore earlier hnew
        exact le_rfl

theorem upgradeRun_meaning {chain : Chain} {txs : List Tx} {r : ProxyRequest Env Call}
    (hrun : UpgradeRun chain (d.plain p).implementation txs) (hforward : d.MovesForward p r)
    (hfresh : p.implementation = 0 → (d.plain p).implementation = .plmyToken)
    (hblock : ∀ tx ∈ txs, tx.block ≤ r.env.block.number.val) :
    UpgradeRun chain (d.plain (AdminProxy.step d.contracts p r)).implementation
      (txs ++ d.meaning p r) := by
  unfold meaning AdminProxy.step
  cases hexecute : AdminProxy.execute d.contracts p r with
  | error e =>
      rw [commit_error, List.append_nil]
      exact hrun
  | ok p' =>
      rw [commit_ok, ← List.append_assoc]
      unfold switchTo
      by_cases hsame : (d.plain p).implementation = (d.plain p').implementation
      · rw [if_pos hsame, List.append_nil, ← hsame]
        exact upgradeRun_calls hrun (fun tx => isCall_of_mem_calls) hblock
      · rw [if_neg hsame]
        -- the plain proxy was at V1, and is at V2 now
        have hupgrade : (d.plain p).implementation = .plmyToken ∧
            (d.plain p').implementation = .plmyTokenV2 := by
          have hnext : (d.plain p).implementation = .plmyToken ∨
              (d.plain p').implementation ≠ .plmyToken := by
            rcases upgrade_cases hexecute hsame with hzero | ⟨hsender, account, data, hdata, hcode⟩
            · exact Or.inl (hfresh hzero)
            · by_cases hcurrent : d.code p.implementation = some .plmyTokenV2
              · exact Or.inr fun hV1 =>
                  hforward hsender hcurrent account data hdata (hV1 ▸ hcode)
              · exact Or.inl (plain_of_ne hcurrent)
          generalize (d.plain p).implementation = current at hsame hnext
          generalize (d.plain p').implementation = next at hsame hnext
          cases current <;> cases next <;> simp_all
        rw [hupgrade.1] at hrun
        rw [hupgrade.2]
        refine upgradeRun_calls (.upgrade hrun hblock)
          (fun tx => isCall_of_mem_calls) ?_
        intro tx htx
        rcases List.mem_append.mp htx with hold | hnew
        · exact hblock tx hold
        · rw [List.mem_singleton.mp hnew]
          exact le_rfl

section Runs

variable {requests : List (ProxyRequest Env Call)}

theorem run_concat (d : PlmyDeployment) (requests : List (ProxyRequest Env Call))
    (r : ProxyRequest Env Call) :
    d.run (requests ++ [r]) = AdminProxy.step d.contracts (d.run requests) r :=
  Timeline.run_concat _ _ requests r

theorem transactions_concat (d : PlmyDeployment) (requests : List (ProxyRequest Env Call))
    (r : ProxyRequest Env Call) :
    d.transactions (requests ++ [r]) = d.transactions requests ++ d.meaning (d.run requests) r :=
  Timeline.interpretation_concat _ requests r

/-- What a run stands for happens in the blocks of its calls. -/
theorem env_of_mem_transactions {tx : Tx} (htx : tx ∈ d.transactions requests) :
    ∃ r ∈ requests, tx.env = r.env := by
  induction requests using List.reverseRecOn with
  | nil => cases htx
  | append_singleton requests r ih =>
      rw [transactions_concat] at htx
      rcases List.mem_append.mp htx with hold | hnew
      · obtain ⟨earlier, hearlier, henv⟩ := ih hold
        exact ⟨earlier, List.mem_append_left _ hearlier, henv⟩
      · exact ⟨r, by simp, env_of_mem_meaning hnew⟩

/-- The number of the block a call is made in. -/
def blockOf (r : ProxyRequest Env Call) : ℕ := r.env.block.number.val

theorem block_le_of_mem_transactions {now : ℕ} (hnow : ∀ r ∈ requests, blockOf r ≤ now)
    {tx : Tx} (htx : tx ∈ d.transactions requests) : tx.block ≤ now := by
  obtain ⟨r, hr, henv⟩ := env_of_mem_transactions htx
  rw [Tx.block, henv]
  exact hnow r hr

theorem ordered_of_block {txs : List Tx} {block : ℕ} (h : ∀ tx ∈ txs, tx.block = block) :
    Timeline.Ordered Tx.block txs := by
  apply List.pairwise_of_forall_mem_list
  intro first hfirst second hsecond
  rw [h first hfirst, h second hsecond]

theorem ordered_transactions (hordered : Timeline.Ordered blockOf requests) :
    Timeline.Ordered Tx.block (d.transactions requests) := by
  induction requests using List.reverseRecOn with
  | nil => exact List.Pairwise.nil
  | append_singleton requests r ih =>
      obtain ⟨hbefore, hlast⟩ := (Timeline.ordered_concat_iff blockOf).mp hordered
      have hnew : ∀ tx ∈ d.meaning (d.run requests) r, tx.block = blockOf r :=
        fun tx htx => congrArg (fun env : Env => env.block.number.val) (env_of_mem_meaning htx)
      rw [transactions_concat]
      apply List.pairwise_append.mpr
      refine ⟨ih hbefore, ordered_of_block hnew, fun old hold new hmem => ?_⟩
      rw [hnew new hmem]
      exact block_le_of_mem_transactions hlast hold

/-- The admin never goes back to V1, in the order of the run. -/
def AlwaysForward (d : PlmyDeployment) (requests : List (ProxyRequest Env Call)) : Prop :=
  ∀ before r after, requests = before ++ r :: after → d.MovesForward (d.run before) r

theorem upgradeRun_transactions (hordered : Timeline.Ordered blockOf requests)
    (hforward : d.AlwaysForward requests) :
    UpgradeRun d.chain (d.plain (d.run requests)).implementation (d.transactions requests) := by
  induction requests using List.reverseRecOn with
  | nil =>
      have hV1 : (d.plain (d.run [])).implementation = .plmyToken := by
        change (d.code 0).getD _ = _
        rw [d.code_zero, Option.getD_none]
      rw [hV1]
      exact .deployed
  | append_singleton requests r ih =>
      obtain ⟨hbefore, hlast⟩ := (Timeline.ordered_concat_iff blockOf).mp hordered
      have hearlier : d.AlwaysForward requests := fun before earlier after hsplit =>
        hforward before earlier (after ++ [r]) (by rw [hsplit, List.append_assoc]; rfl)
      rw [run_concat, transactions_concat]
      apply upgradeRun_meaning (ih hbefore hearlier) (hforward requests r [] rfl)
      · intro hfresh
        change (d.code _).getD _ = _
        rw [hfresh, d.code_zero, Option.getD_none]
      · intro tx htx
        exact block_le_of_mem_transactions hlast htx

end Runs

/-- The admin of the sample run upgrades once, to V2. -/
theorem alwaysForward_sample : AlwaysForward Sample.plmy Sample.requests := by
  intro before r after hsplit _ _ account data hdata
  have hr : r ∈ Sample.requests := by
    rw [hsplit]
    simp
  simp only [Sample.requests, List.mem_cons, List.not_mem_nil, or_false] at hr
  rcases hr with rfl | rfl | rfl | rfl | rfl
  · rcases hdata with h | h <;> cases h
  · rcases hdata with h | h <;> cases h
  · rcases hdata with h | h
    · cases h
    · cases h
      decide
  · rcases hdata with h | h <;> cases h
  · rcases hdata with h | h <;> cases h

end PlmyDeployment

end Palmy
