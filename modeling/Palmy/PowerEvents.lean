/-
The events tell the whole story of power.  An indexer that starts from the
current powers and replays `DelegatedPowerChanged` events keeps up with every
call of V2.
-/
import Palmy.PowerQueries

namespace Palmy

open Solidity
open Delegation
open EventReplay
open GovernancePowerDelegation

/-- The events of a step carry the powers of both types along. -/
def Followed (s s' : Token) : Prop :=
  ∃ events, s'.log = s.log ++ events ∧
    ∀ t, Carries t events (s.delegatedPower t) (s'.delegatedPower t)

namespace Followed

variable {s s₁ s' : Token}

theorem trans (hfirst : Followed s s₁) (hsecond : Followed s₁ s') : Followed s s' := by
  obtain ⟨first, hlog₁, hcarries₁⟩ := hfirst
  obtain ⟨second, hlog₂, hcarries₂⟩ := hsecond
  refine ⟨first ++ second, ?_, fun t => (hcarries₁ t).append (hcarries₂ t)⟩
  rw [hlog₂, hlog₁, List.append_assoc]

/-- A step that moves no power and announces none. -/
theorem of_silent {events : List Event} (hlog : s'.log = s.log ++ events)
    (hsilent : ∀ t, Silent t events) (hholdings : s'.holdings = s.holdings)
    (hdelegates : ∀ t, s'.delegates t = s.delegates t) : Followed s s' := by
  refine ⟨events, hlog, fun t => ?_⟩
  have hsame : s'.delegatedPower t = s.delegatedPower t :=
    funext (delegatedPower_congr hholdings (hdelegates t))
  rw [hsame]
  exact (hsilent t).carries _

theorem of_sameLog (hlog : s'.log = s.log) (hholdings : s'.holdings = s.holdings)
    (hdelegates : ∀ t, s'.delegates t = s.delegates t) : Followed s s' :=
  .of_silent (by rw [hlog, List.append_nil]) (fun _ _ hnone => absurd hnone List.not_mem_nil)
    hholdings hdelegates

end Followed

theorem silent_singleton {event : Event} (hquiet : ∀ t, event.announcedPower t = none)
    (t : DelegationType) : Silent t [event] := by
  intro e he
  rw [List.mem_singleton.mp he]
  exact hquiet t

section Calls

variable {chain : Chain} {env : Env} {now : ℕ} {s s' : Token}

theorem ERC20.followed_approveInternal {owner spender : Address} {amount : Uint256}
    (h : approveInternal owner spender amount s = .ok s') : Followed s s' := by
  have hrest := approveInternal_rest h
  apply Followed.of_silent (log_approveInternal h) (silent_singleton fun _ => rfl)
  · rw [hrest]
    rfl
  · rw [hrest]
    exact fun t => by cases t <;> rfl

theorem followed_of_nonces (h : s' = { s with nonces := s'.nonces }) : Followed s s' := by
  rw [h]
  exact .of_sameLog rfl rfl fun t => by cases t <;> rfl

/-- A transfer of V2: the hook announces the powers the transfer ends with. -/
theorem PlmyTokenV2.followed_transferInternal {sender recipient : Address} {amount : Uint256}
    (hinv : PowerInvariant s now) (hnow : now ≤ env.block.number.val)
    (h : ERC20.transferInternal (beforeTokenTransfer env) sender recipient amount s = .ok s') :
    Followed s s' := by
  obtain ⟨hsender, hrecipient, s₁, hbefore, henough, hrest, hmoved⟩ :=
    ERC20.transferInternal_cases h
  obtain ⟨-, -, -, a, hvoting, hproposition⟩ := powerWritten_moved hinv hnow hsender hrecipient
    hbefore (by rw [hrest]) henough hmoved
  obtain ⟨first, hlog₁, hcarries₁, hsilent₁⟩ := hvoting.announced
  obtain ⟨second, hlog₂, hcarries₂, hsilent₂⟩ := hproposition.announced
  have htransfer : ∀ t, Silent t [.transfer sender recipient amount] :=
    silent_singleton fun _ => rfl
  refine ⟨(first ++ second) ++ [.transfer sender recipient amount], ?_, fun t => ?_⟩
  · rw [ERC20.log_transferInternal h hbefore, hlog₂, hlog₁]
    simp only [List.append_assoc]
  · apply Carries.append _ ((htransfer t).carries _)
    cases t with
    | votingPower => exact hcarries₁.append ((hsilent₂ _ (by decide)).carries _)
    | propositionPower => exact ((hsilent₁ _ (by decide)).carries _).append hcarries₂

theorem PlmyTokenV2.followed_erc20 {call : Call} (hinv : PowerInvariant s now)
    (hnow : now ≤ env.block.number.val)
    (h : ERC20.execute (beforeTokenTransfer env) chain env s call = .ok s') : Followed s s' := by
  cases call with
  | transfer recipient amount => exact followed_transferInternal hinv hnow h
  | approve spender amount => exact ERC20.followed_approveInternal h
  | transferFrom sender recipient amount =>
      obtain ⟨s₁, htransfer, happrove⟩ := bind_eq_ok.mp h
      obtain ⟨remaining, -, happrove⟩ := bind_eq_ok.mp happrove
      exact (followed_transferInternal hinv hnow htransfer).trans
        (ERC20.followed_approveInternal happrove)
  | increaseAllowance spender addedValue =>
      obtain ⟨raised, -, happrove⟩ := bind_eq_ok.mp h
      exact ERC20.followed_approveInternal happrove
  | decreaseAllowance spender subtractedValue =>
      obtain ⟨lowered, -, happrove⟩ := bind_eq_ok.mp h
      exact ERC20.followed_approveInternal happrove
  | permit owner spender value deadline v r sig =>
      simp only [ERC20.execute, permit, bind_eq_ok, require_eq_ok, exists_const] at h
      obtain ⟨-, -, -, nextNonce, -, happrove⟩ := h
      exact (followed_of_nonces rfl).trans (ERC20.followed_approveInternal happrove)
  | _ => cases h

/-- A delegation of one type leaves the other type alone. -/
theorem GovernancePowerDelegation.followed_delegateByTypeInternal {t : DelegationType}
    {delegator delegatee : Address} (hinv : PowerInvariant s now)
    (hnow : now ≤ env.block.number.val)
    (h : delegateByTypeInternal env delegator delegatee t s = .ok s') : Followed s s' := by
  obtain ⟨events, hlog, hcarries, hsilent⟩ :=
    (powerWritten_delegateByTypeInternal hinv hnow h).announced
  refine ⟨events, hlog, fun t' => ?_⟩
  by_cases heq : t' = t
  · rw [heq]
    exact hcarries
  · have hsame : s'.delegatedPower t' = s.delegatedPower t' :=
      funext (delegatedPower_congr (sameLedger_delegateByTypeInternal h).holdings
        ((delegates_delegateByTypeInternal h).2 t' heq))
    rw [hsame]
    exact (hsilent t' heq).carries _

theorem PlmyTokenV2.DelegationEffect.followed (hinv : PowerInvariant s now)
    (hnow : now ≤ env.block.number.val) (h : DelegationEffect env s s') : Followed s s' := by
  cases h with
  | one hnonces hdelegate =>
      exact (followed_of_nonces hnonces).trans
        (followed_delegateByTypeInternal (hinv.of_nonces hnonces) hnow hdelegate)
  | both hnonces hvoting hproposition =>
      have hinv₁ := hinv.of_nonces hnonces
      have hinv₂ := (powerStep_delegateByTypeInternal hinv₁ hnow hvoting).2
      exact ((followed_of_nonces hnonces).trans
        (followed_delegateByTypeInternal hinv₁ hnow hvoting)).trans
        (followed_delegateByTypeInternal hinv₂ le_rfl hproposition)

theorem PlmyTokenV2.followed_execute {call : Call} (hinv : PowerInvariant s now)
    (hnow : now ≤ env.block.number.val) (h : execute chain env s call = .ok s') :
    Followed s s' := by
  by_cases hcall : call.isErc20
  · rw [execute_of_isErc20 chain env s hcall] at h
    exact followed_erc20 hinv hnow h
  rcases other_cases hcall h with ⟨-, hinit⟩ | heffect
  · simp only [initializeToken, initializer, bind_eq_ok, require_eq_ok, pure_eq_ok,
      exists_const] at hinit
    obtain ⟨-, rfl⟩ := hinit
    exact .of_sameLog rfl rfl fun t => by cases t <;> rfl
  · exact heffect.followed hinv hnow

end Calls

section Runs

variable {chain : Chain} {txs : List Tx}

theorem Proxy.followed_step {p : Proxy} {tx : Tx} {call : Call}
    (himplementation : p.implementation = .plmyTokenV2) (haction : tx.action = .call call)
    (hinv : PowerInvariant p.token tx.block) : Followed p.token (step chain p tx).token := by
  rw [(execute_call chain p haction).2, himplementation]
  rcases commit_cases p.token (Implementation.plmyTokenV2.execute chain tx.env p.token call)
    with hsame | hok
  · rw [hsame]
    exact .of_sameLog rfl rfl fun _ => rfl
  · exact PlmyTokenV2.followed_execute hinv le_rfl hok

/-- Calls after a run extend it, if the block numbers do not go back. -/
theorem UpgradeRun.calls {implementation : Implementation} {later : List Tx}
    (hrun : UpgradeRun chain implementation txs)
    (hcalls : ∀ tx ∈ later, ∃ call, tx.action = .call call)
    (hordered : Timeline.Ordered Tx.block (txs ++ later)) :
    UpgradeRun chain implementation (txs ++ later) := by
  induction later using List.reverseRecOn with
  | nil => rwa [List.append_nil]
  | append_singleton later tx ih =>
      rw [← List.append_assoc] at hordered ⊢
      obtain ⟨hbefore, hlast⟩ := (Timeline.ordered_concat_iff Tx.block).mp hordered
      obtain ⟨call, hcall⟩ := hcalls tx (List.mem_append_right _ (List.mem_singleton.mpr rfl))
      have hearlier := ih (fun earlier h => hcalls earlier (List.mem_append_left _ h)) hbefore
      obtain ⟨env, action⟩ := tx
      cases hcall
      exact hearlier.call hlast

/-- The events of any calls of V2 carry the powers along. -/
theorem UpgradeRun.followed {later : List Tx} (hrun : UpgradeRun chain .plmyTokenV2 txs)
    (hcalls : ∀ tx ∈ later, ∃ call, tx.action = .call call)
    (hordered : Timeline.Ordered Tx.block (txs ++ later)) :
    Followed (Proxy.run chain txs).token (Proxy.run chain (txs ++ later)).token := by
  induction later using List.reverseRecOn with
  | nil =>
      rw [List.append_nil]
      exact .of_sameLog rfl rfl fun _ => rfl
  | append_singleton later tx ih =>
      rw [← List.append_assoc] at hordered ⊢
      obtain ⟨hbefore, hlast⟩ := (Timeline.ordered_concat_iff Tx.block).mp hordered
      obtain ⟨call, hcall⟩ := hcalls tx (List.mem_append_right _ (List.mem_singleton.mpr rfl))
      have hearlier : ∀ earlier ∈ later, ∃ call, earlier.action = .call call :=
        fun earlier h => hcalls earlier (List.mem_append_left _ h)
      have hrun' := hrun.calls hearlier hbefore
      rw [Proxy.run_concat]
      exact (ih hearlier hbefore).trans
        (Proxy.followed_step hrun'.implementation_eq hcall (hrun'.powerInvariant hlast))

/-- Power events tell the whole story.  After a successful call of V2 the current
power of every user is the amount in the last event the call emitted about it, or
what it was before when there is none.  Over any calls of V2 an indexer that starts
from the current powers and replays the events holds the current powers. -/
theorem power_events_tell_the_whole_story (hrun : UpgradeRun chain .plmyTokenV2 txs) :
    (∀ env call s', (∀ tx ∈ txs, tx.block ≤ env.block.number.val) →
      PlmyTokenV2.execute chain env (Proxy.run chain txs).token call = .ok s' →
      ∃ events, s'.log = (Proxy.run chain txs).token.log ++ events ∧ ∀ t user,
        match lastPowerChanged t user events with
        | none => ∃ power,
            getPowerCurrent env.block user t (Proxy.run chain txs).token = .ok power ∧
            getPowerCurrent env.block user t s' = .ok power
        | some amount => getPowerCurrent env.block user t s' = .ok amount) ∧
    ∀ later, (∀ tx ∈ later, ∃ call, tx.action = .call call) →
      Timeline.Ordered Tx.block (txs ++ later) →
      ∃ events, (Proxy.run chain (txs ++ later)).token.log =
          (Proxy.run chain txs).token.log ++ events ∧
        ∀ t powers (start now : Block), (∀ tx ∈ txs, tx.block ≤ start.number.val) →
          (∀ tx ∈ txs ++ later, tx.block ≤ now.number.val) →
          (∀ user, getPowerCurrent start user t (Proxy.run chain txs).token =
            .ok (powers user)) →
          ∀ user, getPowerCurrent now user t (Proxy.run chain (txs ++ later)).token =
            .ok (indexed t powers events user) := by
  constructor
  · intro env call s' hnow hcall
    have hinv := hrun.powerInvariant hnow
    have hinv' := (PlmyTokenV2.powerStep_execute hinv le_rfl hcall).2
    obtain ⟨events, hlog, hcarries⟩ := PlmyTokenV2.followed_execute hinv le_rfl hcall
    refine ⟨events, hlog, fun t user => ?_⟩
    obtain ⟨before, hbefore, hbeforeVal⟩ := getPowerCurrent_spec (t := t) hinv user
    obtain ⟨after, hafter, hafterVal⟩ := getPowerCurrent_spec (t := t) hinv' user
    have hfits : ∀ u, (Proxy.run chain txs).token.delegatedPower t u < 2 ^ 256 := fun u =>
      (delegatedPower_lt hinv.supply t u).trans (by decide)
    have hlast := (hcarries t).lastPowerChanged hfits user
    cases hevent : lastPowerChanged t user events with
    | none =>
        rw [hevent] at hlast
        have hsame : after = before := Fin.ext (by rw [hafterVal, hbeforeVal]; exact hlast)
        exact ⟨before, hbefore, hsame ▸ hafter⟩
    | some amount =>
        rw [hevent] at hlast
        have hsame : after = amount := Fin.ext (hafterVal.trans hlast.symm)
        exact hsame ▸ hafter
  · intro later hcalls hordered
    obtain ⟨events, hlog, hcarries⟩ := hrun.followed hcalls hordered
    refine ⟨events, hlog, fun t powers start now hstart hnow hpowers user => ?_⟩
    have hheld : ∀ u, (powers u).val = (Proxy.run chain txs).token.delegatedPower t u := by
      intro u
      obtain ⟨power, hpower, hval⟩ :=
        getPowerCurrent_spec (t := t) (hrun.powerInvariant hstart) u
      rw [hpowers u] at hpower
      rw [← hval, Except.ok.inj hpower]
    obtain ⟨power, hpower, hval⟩ :=
      getPowerCurrent_spec (t := t) ((hrun.calls hcalls hordered).powerInvariant hnow) user
    have hsame : power = indexed t powers events user :=
      Fin.ext (hval.trans (hcarries t powers hheld user).symm)
    rw [hpower, hsame]

end Runs

/-- From the upgrade of the sample run to its end. -/
theorem power_events_tell_the_whole_story_sample :
    ∃ events, (Proxy.run Sample.chain Sample.txs).token.log =
        (Proxy.run Sample.chain (Sample.txs.take 3)).token.log ++ events ∧
      ∀ t powers, (∀ user, getPowerCurrent (Sample.block 3) user t
          (Proxy.run Sample.chain (Sample.txs.take 3)).token = .ok (powers user)) →
        ∀ user, getPowerCurrent (Sample.block 6) user t
          (Proxy.run Sample.chain Sample.txs).token = .ok (indexed t powers events user) := by
  have hcalls : ∀ tx ∈ Sample.txs.drop 3, ∃ call, tx.action = .call call := by
    intro tx htx
    rcases List.mem_cons.mp htx with rfl | htx
    · exact ⟨_, rfl⟩
    · rw [List.mem_singleton.mp htx]
      exact ⟨_, rfl⟩
  obtain ⟨events, hlog, hindexed⟩ :=
    (power_events_tell_the_whole_story Sample.upgradeRun_upgraded).2 _ hcalls (by decide)
  exact ⟨events, hlog, fun t powers hpowers user =>
    hindexed t powers (Sample.block 3) (Sample.block 6) (by decide) (by decide) hpowers user⟩

end Palmy
