/-
The rewards of the vault leave it through its controller and in no other way,
and the controller can collect whatever the vault holds.
-/
import Palmy.AllowanceCharges
import Palmy.Library.Refinement
import Palmy.PalmyRewardsVault

namespace Palmy

open Solidity

/-- Who calls PLMY in a transaction: the controller that was asked to, or the
sender itself. -/
def RewardsTx.caller (tx : RewardsTx) : Address :=
  match tx.request with
  | .transferFromVault controller _ _ => controller
  | _ => tx.env.msgSender

theorem Implementation.execute_approve (implementation : Implementation) (chain : Chain)
    (env : Env) (s : Token) (spender : Address) (amount : Uint256) :
    implementation.execute chain env s (.approve spender amount) =
      ERC20.approve env spender amount s := by
  cases implementation <;> rfl

theorem SafeERC20.callOptionalReturn_eq_ok {σ : Type} {isContract : Bool}
    {answer : Result (Option Bool × σ)} {after : σ} :
    callOptionalReturn isContract answer = .ok after ↔
      isContract = true ∧ ∃ returndata, answer = .ok (returndata, after) ∧
        returndata ≠ some false := by
  unfold callOptionalReturn
  rw [bind_eq_ok]
  cases answer with
  | error e => simp
  | ok answer =>
      obtain ⟨returndata, s⟩ := answer
      simp only [bind_eq_ok, require_eq_ok, pure_eq_ok, exists_const, Except.ok.injEq,
        Prod.mk.injEq]
      constructor
      · rintro ⟨hcontract, hanswer, rfl⟩
        exact ⟨hcontract, returndata, ⟨rfl, rfl⟩, hanswer⟩
      · rintro ⟨hcontract, _, ⟨rfl, rfl⟩, hanswer⟩
        exact ⟨hcontract, hanswer, rfl⟩

/-- What a transaction does to the vault and PLMY. -/
inductive RewardsStep (d : RewardsDeployment) (tx : RewardsTx) (s s' : RewardsState) : Prop
  | silent (hsame : s' = s)
  | opened {token incentivesController : Address}
      (hfirst : s.vault.lastInitializedRevision = 0) (htoken : token ≠ 0)
      (hcontroller : incentivesController ≠ 0)
      (hvault : s'.vault = ⟨PalmyRewardsVault.revision, token, incentivesController⟩)
      (happrove : d.approveToken tx.env token incentivesController PalmyRewardsVault.maxUint256
        s.plmy = .ok s'.plmy)
  | traded {action : Action}
      (hcaller : tx.caller = tx.env.msgSender ∨ d.controllers tx.caller ≠ none)
      (hvault : s'.vault = s.vault)
      (hplmy : Proxy.execute d.chain s.plmy ⟨{ tx.env with msgSender := tx.caller }, action⟩ =
        .ok s'.plmy)

namespace RewardsDeployment

variable {d : RewardsDeployment} {s s' : RewardsState} {tx : RewardsTx}

/-- A controller either moves PLMY or leaves the vault and PLMY alone. -/
theorem transferFromVault_cases {env : Env} {controller recipient : Address} {amount : Uint256}
    (h : d.transferFromVault env controller recipient amount s = .ok s') :
    ∃ code, d.controllers controller = some code ∧ s'.vault = s.vault ∧
      ((code.token = d.chain.self ∧
          d.callPlmy env controller (.transferFrom code.vault recipient amount) s.plmy =
            .ok s'.plmy) ∨
        code.token ≠ d.chain.self ∧ s'.plmy = s.plmy) := by
  unfold transferFromVault at h
  split at h
  · cases h
  next vault token hcode =>
    simp only [bind_eq_ok, pure_eq_ok, SafeERC20.callOptionalReturn_eq_ok] at h
    obtain ⟨plmy, ⟨-, returndata, hanswer, -⟩, rfl⟩ := h
    refine ⟨⟨vault, token⟩, hcode, rfl, ?_⟩
    unfold answerTransferFrom at hanswer
    split at hanswer
    · next htoken =>
        simp only [bind_eq_ok, pure_eq_ok, Prod.mk.injEq] at hanswer
        obtain ⟨plmy', hcall, -, rfl⟩ := hanswer
        exact Or.inl ⟨htoken, hcall⟩
    · next htoken =>
        simp only [bind_eq_ok, pure_eq_ok, Prod.mk.injEq] at hanswer
        obtain ⟨_, -, -, rfl⟩ := hanswer
        exact Or.inr ⟨htoken, rfl⟩

theorem initializeVault_cases {env : Env} {token incentivesController : Address}
    (h : d.initializeVault env token incentivesController s = .ok s') :
    s.vault.lastInitializedRevision = 0 ∧ token ≠ 0 ∧ incentivesController ≠ 0 ∧
      s'.vault = ⟨PalmyRewardsVault.revision, token, incentivesController⟩ ∧
      d.approveToken env token incentivesController PalmyRewardsVault.maxUint256 s.plmy =
        .ok s'.plmy := by
  simp only [initializeVault, bind_eq_ok, require_eq_ok, pure_eq_ok, exists_const] at h
  obtain ⟨hrevision, htoken, hcontroller, plmy, happrove, rfl⟩ := h
  have hlt : s.vault.lastInitializedRevision.val < 1 := hrevision
  exact ⟨Fin.ext (Nat.lt_one_iff.mp hlt), htoken, hcontroller, rfl, happrove⟩

theorem step_cases (d : RewardsDeployment) (s : RewardsState) (tx : RewardsTx) :
    RewardsStep d tx s (d.step s tx) := by
  rcases commit_cases s (d.execute s tx) with hsame | hok
  · exact .silent hsame
  rw [← step] at hok
  obtain ⟨env, request⟩ := tx
  cases request with
  | initializeVault token incentivesController =>
      obtain ⟨hfirst, htoken, hcontroller, hvault, happrove⟩ := initializeVault_cases hok
      exact .opened hfirst htoken hcontroller hvault happrove
  | transferFromVault controller recipient amount =>
      obtain ⟨code, hcode, hvault, ⟨-, hcall⟩ | ⟨-, hplmy⟩⟩ := transferFromVault_cases hok
      · exact .traded (Or.inr (Option.ne_none_iff_exists'.mpr ⟨code, hcode⟩)) hvault hcall
      · exact .silent (RewardsState.ext hvault hplmy)
  | plmy action =>
      simp only [execute, bind_eq_ok, pure_eq_ok] at hok
      obtain ⟨plmy, hplmy, heq⟩ := hok
      rw [← heq]
      exact .traded (Or.inl rfl) rfl hplmy

/-- What everybody may still take from the vault, and what was taken, is what the
vault approved: nothing, or the largest word for its controller alone. -/
structure VaultBooks (d : RewardsDeployment) (s : RewardsState) : Prop where
  opened : s.vault = .genesis ∨ s.vault.lastInitializedRevision = PalmyRewardsVault.revision
  closed : s.vault.token ≠ d.chain.self →
    (∀ spender, s.plmy.token.allowances d.vault spender = 0) ∧
      sent d.vault s.plmy.token.log = 0
  real : s.vault.token = d.chain.self → s.vault.incentivesController ≠ 0
  others : s.vault.token = d.chain.self → ∀ spender ≠ s.vault.incentivesController,
    s.plmy.token.allowances d.vault spender = 0
  controller : s.vault.token = d.chain.self →
    (s.plmy.token.allowances d.vault s.vault.incentivesController).val +
      sent d.vault s.plmy.token.log = PalmyRewardsVault.maxUint256.val

theorem VaultBooks.traded (hbooks : VaultBooks d s) {caller : Address}
    (hcharged : Charged d.vault caller s.plmy.token s'.plmy.token) (hvault : s'.vault = s.vault) :
    VaultBooks d s' where
  opened := hvault ▸ hbooks.opened
  closed hother := by
    rw [hvault] at hother
    obtain ⟨hallowances, hsent⟩ := hbooks.closed hother
    obtain ⟨hkept, hnone⟩ := hcharged.of_unapproved (hallowances caller)
    exact ⟨fun spender => (congrFun hkept spender).trans (hallowances spender),
      hnone.trans hsent⟩
  real htoken := by
    rw [hvault] at htoken ⊢
    exact hbooks.real htoken
  others htoken spender hne := by
    rw [hvault] at htoken hne
    have hzero := hbooks.others htoken
    by_cases hcaller : caller = s.vault.incentivesController
    · rw [hcharged.others spender (hcaller ▸ hne)]
      exact hzero spender hne
    · rw [(hcharged.of_unapproved (hzero caller hcaller)).1]
      exact hzero spender hne
  controller htoken := by
    rw [hvault] at htoken ⊢
    by_cases hcaller : caller = s.vault.incentivesController
    · rw [← hbooks.controller htoken, ← hcaller]
      exact hcharged.charged
    · obtain ⟨hallowances, hsent⟩ :=
        hcharged.of_unapproved (hbooks.others htoken caller hcaller)
      rw [hallowances, hsent]
      exact hbooks.controller htoken

/-- The one approval of the vault. -/
theorem allowances_of_approve {env : Env} {spender : Address} {amount : Uint256} {plmy' : Proxy}
    (h : d.callPlmy env d.vault (.approve spender amount) s.plmy = .ok plmy') :
    plmy'.token.allowances d.vault =
        Function.update (s.plmy.token.allowances d.vault) spender amount ∧
      sent d.vault plmy'.token.log = sent d.vault s.plmy.token.log := by
  simp only [callPlmy, Proxy.execute, Implementation.execute_approve, bind_eq_ok,
    pure_eq_ok] at h
  obtain ⟨token, happrove, rfl⟩ := h
  refine ⟨?_, ?_⟩
  · simp only [ERC20.approve, ERC20.approveInternal, bind_eq_ok, require_eq_ok, pure_eq_ok,
      exists_const] at happrove
    obtain ⟨-, -, rfl⟩ := happrove
    exact Function.update_self _ _ _
  · rw [ERC20.log_approveInternal happrove, sent_append, sent_singleton]
    rfl

theorem VaultBooks.open (hbooks : VaultBooks d s) (hself : d.chain.self ≠ 0) {env : Env}
    {token incentivesController : Address} (hfirst : s.vault.lastInitializedRevision = 0)
    (hcontroller : incentivesController ≠ 0)
    (hvault : s'.vault = ⟨PalmyRewardsVault.revision, token, incentivesController⟩)
    (happrove : d.approveToken env token incentivesController PalmyRewardsVault.maxUint256
      s.plmy = .ok s'.plmy) : VaultBooks d s' := by
  have hgenesis : s.vault = .genesis := by
    rcases hbooks.opened with hgenesis | hrevision
    · exact hgenesis
    · rw [hfirst] at hrevision
      cases hrevision
  have hclosed : s.vault.token ≠ d.chain.self := by
    rw [hgenesis]
    exact hself.symm
  obtain ⟨hallowances, hsent⟩ := hbooks.closed hclosed
  have hopened : s'.vault.lastInitializedRevision = PalmyRewardsVault.revision := by rw [hvault]
  unfold approveToken at happrove
  split at happrove
  · next htoken =>
      obtain ⟨hupdate, hkept⟩ := allowances_of_approve happrove
      refine ⟨Or.inr hopened, fun hother => ?_, fun _ => ?_, fun _ spender hne => ?_,
        fun _ => ?_⟩
      · rw [hvault] at hother
        exact absurd htoken hother
      · rwa [hvault]
      · rw [hvault] at hne
        rw [hupdate, Function.update_of_ne hne]
        exact hallowances spender
      · rw [hupdate, hvault, Function.update_self, hkept, hsent, Nat.add_zero]
  · next hother =>
      simp only [bind_eq_ok, pure_eq_ok] at happrove
      obtain ⟨_, -, hplmy⟩ := happrove
      have hnot : s'.vault.token ≠ d.chain.self := by rwa [hvault]
      refine ⟨Or.inr hopened, fun _ => ?_, fun htoken => absurd htoken hnot,
        fun htoken => absurd htoken hnot, fun htoken => absurd htoken hnot⟩
      rw [← hplmy]
      exact ⟨hallowances, hsent⟩

/-- The address of the vault: it is real, nobody has a key of it, and no
controller stands there. -/
structure Standing (d : RewardsDeployment) : Prop where
  self_ne_zero : d.chain.self ≠ 0
  vault_ne_zero : d.vault ≠ 0
  keyless : ∀ digest v r sig, d.chain.ecrecover digest v r sig ≠ d.vault
  no_controller : d.controllers d.vault = none

theorem Standing.caller_ne (hd : d.Standing) (hsender : tx.env.msgSender ≠ d.vault)
    (hcaller : tx.caller = tx.env.msgSender ∨ d.controllers tx.caller ≠ none) :
    tx.caller ≠ d.vault := by
  rcases hcaller with hcaller | hcaller
  · rwa [hcaller]
  · intro heq
    rw [heq] at hcaller
    exact hcaller hd.no_controller

theorem Standing.charged (hd : d.Standing) {env : Env} {caller : Address} {action : Action}
    {plmy' : Proxy} (hcaller : caller ≠ d.vault)
    (hplmy : Proxy.execute d.chain s.plmy ⟨{ env with msgSender := caller }, action⟩ =
      .ok plmy') : Charged d.vault caller s.plmy.token plmy'.token := by
  let tx : Tx := ⟨{ env with msgSender := caller }, action⟩
  have hstep : Charged d.vault tx.env.msgSender s.plmy.token
      (Proxy.step d.chain s.plmy tx).token :=
    Proxy.charged_step hd.vault_ne_zero hcaller hd.keyless
  rwa [Proxy.step, hplmy, commit_ok] at hstep

theorem books_genesis (hself : d.chain.self ≠ 0) : VaultBooks d ⟨.genesis, .genesis⟩ where
  opened := Or.inl rfl
  closed _ := ⟨fun _ => rfl, rfl⟩
  real htoken := absurd htoken.symm hself
  others htoken := absurd htoken.symm hself
  controller htoken := absurd htoken.symm hself

theorem VaultBooks.step (hd : d.Standing) (hbooks : VaultBooks d s)
    (hsender : tx.env.msgSender ≠ d.vault) : VaultBooks d (d.step s tx) := by
  cases step_cases d s tx with
  | silent hsame =>
      rw [hsame]
      exact hbooks
  | opened hfirst htoken hcontroller hvault happrove =>
      exact hbooks.open hd.self_ne_zero hfirst hcontroller hvault happrove
  | traded hcaller hvault hplmy =>
      exact hbooks.traded (hd.charged (hd.caller_ne hsender hcaller) hplmy) hvault

theorem books_run (hd : d.Standing) {txs : List RewardsTx}
    (hsenders : ∀ tx ∈ txs, tx.env.msgSender ≠ d.vault) : VaultBooks d (d.run txs) := by
  apply Timeline.run_induction_of_forall (P := VaultBooks d)
    (Q := fun tx : RewardsTx => tx.env.msgSender ≠ d.vault) _ (books_genesis hd.self_ne_zero)
    hsenders
  intro s tx hsender hbooks
  exact hbooks.step hd hsender

/-- The PLMY transactions a transaction stands for. -/
def meaning (d : RewardsDeployment) (s : RewardsState) (tx : RewardsTx) : List Tx :=
  match d.execute s tx with
  | .error _ => []
  | .ok _ =>
      match tx.request with
      | .initializeVault token incentivesController =>
          if token = d.chain.self then
            [⟨{ tx.env with msgSender := d.vault },
              .call (.approve incentivesController PalmyRewardsVault.maxUint256)⟩]
          else []
      | .transferFromVault controller recipient amount =>
          match d.controllers controller with
          | none => []
          | some ⟨vault, token⟩ =>
              if token = d.chain.self then
                [⟨{ tx.env with msgSender := controller },
                  .call (.transferFrom vault recipient amount)⟩]
              else []
      | .plmy action => [⟨tx.env, action⟩]

/-- The PLMY transactions of a run. -/
def transactions (d : RewardsDeployment) (txs : List RewardsTx) : List Tx :=
  Timeline.interpretation d.step d.meaning ⟨.genesis, .genesis⟩ txs

/-- A successful PLMY transaction is one step of PLMY. -/
theorem run_singleton {chain : Chain} {plmy plmy' : Proxy} {tx : Tx}
    (h : Proxy.execute chain plmy tx = .ok plmy') :
    plmy' = Timeline.run (Proxy.step chain) plmy [tx] := by
  change plmy' = Proxy.step chain plmy tx
  rw [Proxy.step, h, commit_ok]

theorem plmy_step (d : RewardsDeployment) (s : RewardsState) (tx : RewardsTx) :
    (d.step s tx).plmy = Timeline.run (Proxy.step d.chain) s.plmy (d.meaning s tx) := by
  cases houtcome : d.execute s tx with
  | error e =>
      rw [step, meaning, houtcome]
      rfl
  | ok s' =>
      rw [step, meaning, houtcome, commit_ok]
      obtain ⟨env, request⟩ := tx
      cases request with
      | initializeVault token incentivesController =>
          obtain ⟨-, -, -, -, happrove⟩ := initializeVault_cases houtcome
          unfold approveToken at happrove
          split at happrove
          · next htoken =>
              simp only [if_pos htoken]
              exact run_singleton happrove
          · next htoken =>
              simp only [bind_eq_ok, pure_eq_ok] at happrove
              obtain ⟨_, -, hplmy⟩ := happrove
              simp only [if_neg htoken]
              exact hplmy.symm
      | transferFromVault controller recipient amount =>
          obtain ⟨code, hcode, -, ⟨htoken, hcall⟩ | ⟨htoken, hplmy⟩⟩ :=
            transferFromVault_cases houtcome
          · simp only [hcode, if_pos htoken]
            exact run_singleton hcall
          · simp only [hcode, if_neg htoken]
            exact hplmy
      | plmy action =>
          simp only [execute, bind_eq_ok, pure_eq_ok] at houtcome
          obtain ⟨plmy, hplmy, rfl⟩ := houtcome
          exact run_singleton hplmy

/-- PLMY beside a vault is PLMY: its runs are runs of its own. -/
theorem plmy_run (d : RewardsDeployment) (txs : List RewardsTx) :
    (d.run txs).plmy = Proxy.run d.chain (d.transactions txs) :=
  Timeline.run_refines (P := fun _ => True) (fun _ _ _ => trivial)
    (fun s tx _ => plmy_step d s tx) trivial txs

/-- What the vault sent, its controller took. -/
theorem sent_step (hd : d.Standing) (hbooks : VaultBooks d s)
    (hsender : tx.env.msgSender ≠ d.vault)
    (hsent : sent d.vault (d.step s tx).plmy.token.log ≠ sent d.vault s.plmy.token.log) :
    s.vault.token = d.chain.self ∧ tx.caller = s.vault.incentivesController := by
  have hunapproved : ∀ {caller s'}, Charged d.vault caller s.plmy.token s' →
      s.plmy.token.allowances d.vault caller = 0 →
      sent d.vault s'.log = sent d.vault s.plmy.token.log :=
    fun hcharged hzero => (hcharged.of_unapproved hzero).2
  cases step_cases d s tx with
  | silent hsame =>
      rw [hsame] at hsent
      exact absurd rfl hsent
  | opened hfirst htoken hcontroller hvault happrove =>
      unfold approveToken at happrove
      split at happrove
      · exact absurd (allowances_of_approve happrove).2 hsent
      · simp only [bind_eq_ok, pure_eq_ok] at happrove
        obtain ⟨_, -, hplmy⟩ := happrove
        rw [← hplmy] at hsent
        exact absurd rfl hsent
  | traded hcaller hvault hplmy =>
      have hcharged := hd.charged (hd.caller_ne hsender hcaller) hplmy
      by_cases htoken : s.vault.token = d.chain.self
      · refine ⟨htoken, ?_⟩
        by_contra hother
        exact hsent (hunapproved hcharged (hbooks.others htoken _ hother))
      · have hzero := (hbooks.closed htoken).1 tx.caller
        exact absurd (hunapproved hcharged hzero) hsent

theorem vault_step (hopened : s.vault.lastInitializedRevision = PalmyRewardsVault.revision) :
    (d.step s tx).vault = s.vault := by
  cases step_cases d s tx with
  | silent hsame => rw [hsame]
  | opened hfirst =>
      rw [hfirst] at hopened
      cases hopened
  | traded hcaller hvault hplmy => exact hvault

end RewardsDeployment

open RewardsDeployment

/-- Rewards leave the vault through its controller only.  In every state of every
run, whoever calls the vault, the controllers and PLMY in whatever order: a
vault not opened on PLMY has approved nobody and sent nothing; once opened it
keeps its token and its controller, nobody else is allowed anything, and what
the controller may still take and what the vault ever sent are together the one
approval.  What the vault holds is what it received less that, and only a call
of the controller makes it send. -/
theorem rewards_leave_through_the_controller {d : RewardsDeployment} {txs : List RewardsTx}
    (hd : d.Standing) (hsenders : ∀ tx ∈ txs, tx.env.msgSender ≠ d.vault) :
    ((d.run txs).vault.token ≠ d.chain.self →
        (∀ spender, ERC20.allowance (d.run txs).plmy.token d.vault spender = 0) ∧
        sent d.vault (d.run txs).plmy.token.log = 0) ∧
      ((d.run txs).vault.token = d.chain.self →
        (∀ spender ≠ (d.run txs).vault.incentivesController,
          ERC20.allowance (d.run txs).plmy.token d.vault spender = 0) ∧
        (ERC20.allowance (d.run txs).plmy.token d.vault
            (d.run txs).vault.incentivesController).val +
          sent d.vault (d.run txs).plmy.token.log = PalmyRewardsVault.maxUint256.val) ∧
      (ERC20.balanceOf (d.run txs).plmy.token d.vault).val +
          sent d.vault (d.run txs).plmy.token.log =
        received d.vault (d.run txs).plmy.token.log ∧
      ∀ tx : RewardsTx, tx.env.msgSender ≠ d.vault →
        ((d.run txs).vault ≠ .genesis → (d.step (d.run txs) tx).vault = (d.run txs).vault) ∧
        (sent d.vault (d.step (d.run txs) tx).plmy.token.log ≠
            sent d.vault (d.run txs).plmy.token.log →
          (d.run txs).vault.token = d.chain.self ∧
            tx.caller = (d.run txs).vault.incentivesController) := by
  have hbooks := books_run hd hsenders
  refine ⟨fun hother => ?_, fun htoken => ⟨hbooks.others htoken, hbooks.controller htoken⟩, ?_,
    fun tx hsender => ⟨fun hopened => ?_, sent_step hd hbooks hsender⟩⟩
  · obtain ⟨hallowances, hsent⟩ := hbooks.closed hother
    exact ⟨hallowances, hsent⟩
  · rw [plmy_run]
    exact (Proxy.balanced_run d.chain _).account d.vault hd.vault_ne_zero
  · exact vault_step (hbooks.opened.resolve_left hopened)

theorem Sample.rewards_standing : Sample.rewards.Standing where
  self_ne_zero := by decide
  vault_ne_zero := by decide
  keyless _ _ _ _ := (by decide : (0 : Address) ≠ Sample.vaultAddress)
  no_controller := by decide

theorem Sample.rewards_opened :
    (Sample.rewards.run Sample.rewardsTxs).vault =
      ⟨PalmyRewardsVault.revision, Sample.chain.self, Sample.controllerAddress⟩ := by
  rfl

/-- Bob was paid thirty, and the allowance is that much short of the largest word. -/
theorem rewards_leave_through_the_controller_sample :
    (ERC20.allowance (Sample.rewards.run Sample.rewardsTxs).plmy.token Sample.vaultAddress
      Sample.controllerAddress).val +
      sent Sample.vaultAddress (Sample.rewards.run Sample.rewardsTxs).plmy.token.log =
        PalmyRewardsVault.maxUint256.val := by
  have hsenders : ∀ tx ∈ Sample.rewardsTxs, tx.env.msgSender ≠ Sample.rewards.vault := by decide
  have hopened := (rewards_leave_through_the_controller Sample.rewards_standing hsenders).2.1
  rw [Sample.rewards_opened] at hopened
  exact (hopened rfl).2

section Collection

variable {chain : Chain} {env : Env} {s s' : Token} {sender recipient : Address}
  {amount : Uint256}

/-- Beyond the transfer itself, `transferFrom` needs the allowance. -/
theorem ERC20.succeeds_transferFrom_iff {beforeTokenTransfer : BeforeTokenTransfer}
    (hframe : TakesSnapshotsOnly beforeTokenTransfer) (hcaller : env.msgSender ≠ 0) :
    Succeeds (transferFrom beforeTokenTransfer env sender recipient amount s) ↔
      Succeeds (transferInternal beforeTokenTransfer sender recipient amount s) ∧
        amount ≤ s.allowances sender env.msgSender := by
  rw [transferFrom, succeeds_bind]
  constructor
  · rintro ⟨s₁, htransfer, hrest⟩
    obtain ⟨remaining, hsub, -⟩ := succeeds_bind.mp hrest
    rw [(transferInternal_kept hframe htransfer).2.2.1] at hsub
    exact ⟨⟨s₁, htransfer⟩, (SafeMath.subOr_eq_ok.mp hsub).1⟩
  · rintro ⟨⟨s₁, htransfer⟩, hallowed⟩
    have hsender : sender ≠ 0 := (transferInternal_cases htransfer).1
    have hle : amount.val ≤ (s.allowances sender env.msgSender).val := hallowed
    let remaining : Uint256 := ⟨(s.allowances sender env.msgSender).val - amount.val, by omega⟩
    have hsub : SafeMath.subOr (s₁.allowances sender env.msgSender) amount
        "ERC20: transfer amount exceeds allowance" = .ok remaining := by
      rw [(transferInternal_kept hframe htransfer).2.2.1]
      exact SafeMath.subOr_eq_ok.mpr ⟨hallowed, rfl⟩
    refine ⟨s₁, htransfer, succeeds_bind.mpr ⟨remaining, hsub, ?_⟩⟩
    have hrequireOwner : require (sender ≠ 0) "ERC20: approve from the zero address" = .ok () :=
      require_eq_ok.mpr hsender
    have hrequireSpender : require (env.msgSender ≠ 0) "ERC20: approve to the zero address" =
        .ok () := require_eq_ok.mpr hcaller
    rw [approveInternal, hrequireOwner, ok_bind, hrequireSpender, ok_bind]
    exact succeeds_pure _

/-- In the states of a run either implementation lets a caller take what the
balance and the allowance cover. -/
theorem Implementation.succeeds_transferFrom_iff (implementation : Implementation)
    (hinv : PowerInvariant s env.block.number.val) (hhook : HookAccepts env s)
    (hcaller : env.msgSender ≠ 0) (hsender : sender ≠ 0) :
    Succeeds (implementation.execute chain env s (.transferFrom sender recipient amount)) ↔
      recipient ≠ 0 ∧ amount ≤ s.balances sender ∧
        amount ≤ s.allowances sender env.msgSender := by
  cases implementation with
  | plmyToken =>
      apply (ERC20.succeeds_transferFrom_iff (PlmyToken.takesSnapshotsOnly env) hcaller).trans
      constructor
      · rintro ⟨⟨s₁, htransfer⟩, hallowed⟩
        obtain ⟨-, hrecipient, s₂, hbefore, henough, -⟩ := ERC20.transferInternal_cases htransfer
        rw [(PlmyToken.takesSnapshotsOnly env hbefore).holdings] at henough
        exact ⟨hrecipient, henough, hallowed⟩
      · rintro ⟨hrecipient, henough, hallowed⟩
        refine ⟨(ERC20.succeeds_transferInternal_iff hinv.supply
          (fun h => (PlmyToken.takesSnapshotsOnly env h).balances) fun _ => ?_).mpr
          ⟨hsender, hrecipient, henough⟩, hallowed⟩
        exact PlmyToken.succeeds_beforeTokenTransfer hinv le_rfl hhook henough hsender hrecipient
  | plmyTokenV2 =>
      apply (PlmyTokenV2.succeeds_transferFrom_iff hinv le_rfl hhook hcaller).trans
      exact ⟨fun h => h.2, fun h => ⟨hsender, h⟩⟩

/-- A `transferFrom` moves its amount and logs it. -/
theorem Implementation.moved_transferFrom (implementation : Implementation)
    (h : implementation.execute chain env s (.transferFrom sender recipient amount) = .ok s') :
    Delegation.Moved s.holdings s'.holdings sender recipient amount.val ∧
      sent sender s'.log = sent sender s.log + amount.val := by
  have hmoved : ∀ {hook : ERC20.BeforeTokenTransfer}, ERC20.Discreet hook →
      ERC20.transferFrom hook env sender recipient amount s = .ok s' →
      Delegation.Moved s.holdings s'.holdings sender recipient amount.val ∧
        sent sender s'.log = sent sender s.log + amount.val := by
    intro hook hhook htransferFrom
    obtain ⟨s₁, htransfer, hrest⟩ := bind_eq_ok.mp htransferFrom
    obtain ⟨remaining, -, happrove⟩ := bind_eq_ok.mp hrest
    obtain ⟨-, -, s₂, hbefore, -, -, hmoved⟩ := ERC20.transferInternal_cases htransfer
    rw [(hhook.snapshots hbefore).holdings] at hmoved
    have hbooks : sent sender s₁.log = _ := (ERC20.transferInternal_books hhook htransfer).2
    rw [if_pos rfl] at hbooks
    have hholdings : s'.holdings = s₁.holdings := by
      funext account
      rw [Token.holdings, Token.holdings, ERC20.approveInternal_rest happrove]
    refine ⟨hholdings ▸ hmoved, ?_⟩
    rw [ERC20.log_approveInternal happrove, sent_append, sent_singleton, hbooks]
    rfl
  cases implementation with
  | plmyToken => exact hmoved (PlmyToken.discreet env) h
  | plmyTokenV2 => exact hmoved (PlmyTokenV2.discreet env) h

end Collection

/-- A controller of the vault calls nothing but `transferFrom` of PLMY. -/
theorem RewardsDeployment.transferFromVault_eq_ok {d : RewardsDeployment} {env : Env}
    {controller recipient : Address} {amount : Uint256} {s s' : RewardsState}
    (hcode : d.controllers controller = some ⟨d.vault, d.chain.self⟩) :
    d.transferFromVault env controller recipient amount s = .ok s' ↔
      s'.vault = s.vault ∧ s'.plmy.implementation = s.plmy.implementation ∧
        s.plmy.implementation.execute d.chain { env with msgSender := controller } s.plmy.token
          (.transferFrom d.vault recipient amount) = .ok s'.plmy.token := by
  constructor
  · intro h
    obtain ⟨code, hcode', hvault, ⟨-, hcall⟩ | ⟨hother, -⟩⟩ := transferFromVault_cases h
    · rw [hcode] at hcode'
      cases hcode'
      simp only [callPlmy, Proxy.execute, bind_eq_ok, pure_eq_ok] at hcall
      obtain ⟨token, hexecute, heq⟩ := hcall
      rw [← heq]
      exact ⟨hvault, rfl, hexecute⟩
    · rw [hcode] at hcode'
      cases hcode'
      exact absurd rfl hother
  · rintro ⟨hvault, himplementation, hexecute⟩
    rw [transferFromVault, hcode]
    simp only [bind_eq_ok, pure_eq_ok, SafeERC20.callOptionalReturn_eq_ok]
    refine ⟨s'.plmy, ⟨by simp, some true, ?_, by simp⟩, RewardsState.ext hvault.symm rfl⟩
    simp only [answerTransferFrom, callPlmy, Proxy.execute, if_pos, hexecute, ok_bind]
    rw [← himplementation]
    rfl

/-- The controller can collect whatever the vault holds.  In every state of every
run with at most one upgrade, and with a hook that lets transfers pass, a call of
the vault's own controller goes through exactly when the recipient is real, the
vault holds the amount, and all that ever left stays within the one approval; and
then the amount moves from the vault to the recipient, and nothing else does. -/
theorem rewards_can_be_collected {d : RewardsDeployment} {txs : List RewardsTx}
    {implementation : Implementation} {env : Env} (hd : d.Standing)
    (hsenders : ∀ tx ∈ txs, tx.env.msgSender ≠ d.vault)
    (hrun : UpgradeRun d.chain implementation (d.transactions txs))
    (hblock : ∀ tx ∈ d.transactions txs, tx.block ≤ env.block.number.val)
    (hhook : HookAccepts env (d.run txs).plmy.token)
    (htoken : (d.run txs).vault.token = d.chain.self)
    (hcode : d.controllers (d.run txs).vault.incentivesController =
      some ⟨d.vault, d.chain.self⟩) (recipient : Address) (amount : Uint256) :
    (Succeeds (d.transferFromVault env (d.run txs).vault.incentivesController recipient amount
        (d.run txs)) ↔
      recipient ≠ 0 ∧ amount ≤ ERC20.balanceOf (d.run txs).plmy.token d.vault ∧
        sent d.vault (d.run txs).plmy.token.log + amount.val ≤
          PalmyRewardsVault.maxUint256.val) ∧
      ∀ s', d.transferFromVault env (d.run txs).vault.incentivesController recipient amount
          (d.run txs) = .ok s' →
        s'.vault = (d.run txs).vault ∧
        sent d.vault s'.plmy.token.log =
          sent d.vault (d.run txs).plmy.token.log + amount.val ∧
        ∀ account, (ERC20.balanceOf s'.plmy.token account).val +
            (if d.vault = account then amount.val else 0) =
          (ERC20.balanceOf (d.run txs).plmy.token account).val +
            (if recipient = account then amount.val else 0) := by
  have hbooks := books_run hd hsenders
  have hinv : PowerInvariant (d.run txs).plmy.token env.block.number.val := by
    rw [plmy_run]
    exact hrun.powerInvariant hblock
  have hcharge := hbooks.controller htoken
  have hallowed : amount ≤ (d.run txs).plmy.token.allowances d.vault
      (d.run txs).vault.incentivesController ↔
      sent d.vault (d.run txs).plmy.token.log + amount.val ≤
        PalmyRewardsVault.maxUint256.val := by
    rw [Fin.le_def]
    omega
  refine ⟨?_, fun s' h => ?_⟩
  · rw [← hallowed]
    have hexecuted : Succeeds ((d.run txs).plmy.implementation.execute d.chain
        { env with msgSender := (d.run txs).vault.incentivesController }
        (d.run txs).plmy.token (.transferFrom d.vault recipient amount)) ↔ _ :=
      Implementation.succeeds_transferFrom_iff _ hinv hhook (hbooks.real htoken) hd.vault_ne_zero
    apply Iff.trans _ hexecuted
    constructor
    · rintro ⟨s', h⟩
      exact ⟨_, ((transferFromVault_eq_ok hcode).mp h).2.2⟩
    · rintro ⟨token, hexecute⟩
      exact ⟨⟨(d.run txs).vault, { (d.run txs).plmy with token := token }⟩,
        (transferFromVault_eq_ok hcode).mpr ⟨rfl, rfl, hexecute⟩⟩
  · obtain ⟨hvault, -, hexecute⟩ := (transferFromVault_eq_ok hcode).mp h
    obtain ⟨hmoved, hsent⟩ := Implementation.moved_transferFrom _ hexecute
    exact ⟨hvault, hsent, hmoved⟩

theorem Sample.upgradeRun_rewards :
    UpgradeRun Sample.chain .plmyToken (Sample.rewards.transactions Sample.rewardsTxs) :=
  .call (.call (.call (.call .deployed (by decide)) (by decide)) (by decide)) (by decide)

/-- The controller may pay Alice the seventy units that are left. -/
theorem rewards_can_be_collected_sample :
    Succeeds (Sample.rewards.transferFromVault (Sample.env Sample.bob 6)
      Sample.controllerAddress Sample.alice 70 (Sample.rewards.run Sample.rewardsTxs)) := by
  have hsenders : ∀ tx ∈ Sample.rewardsTxs, tx.env.msgSender ≠ Sample.rewards.vault := by decide
  apply (rewards_can_be_collected Sample.rewards_standing hsenders Sample.upgradeRun_rewards
    (by decide) (Or.inl rfl) rfl rfl Sample.alice 70).1.mpr
  decide

end Palmy
