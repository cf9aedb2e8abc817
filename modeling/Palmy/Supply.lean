/-
The supply is minted by the first initialisation and by nothing else, on every
path of upgrades back and forth between the two implementations.
-/
import Palmy.CallEffects

namespace Palmy

open Solidity
open Delegation
open Token

/-- The supply is the sum of the balances, is capped, and is zero as long as
nobody initialised. -/
structure SupplyInvariant (s : Token) : Prop where
  total : ∑ account, s.holdings account = s.totalSupply.val
  capped : s.totalSupply.val ≤
    PlmyToken.distributionAmount.val + PlmyToken.incentiveAmount.val
  unminted : s.lastInitializedRevision = 0 → s.totalSupply.val = 0

theorem supplyInvariant_genesis : SupplyInvariant .genesis where
  total := Finset.sum_eq_zero fun _ _ => rfl
  capped := Nat.zero_le _
  unminted _ := rfl

/-- A call either is the first initialisation, or keeps supply and total and
never lowers the revision. -/
structure SupplyKept (s s' : Token) : Prop where
  totalSupply : s'.totalSupply = s.totalSupply
  total : ∑ account, s'.holdings account = ∑ account, s.holdings account
  revision : s.lastInitializedRevision ≤ s'.lastInitializedRevision

theorem supplyKept_of_erc20Effect {beforeTokenTransfer : ERC20.BeforeTokenTransfer}
    (hframe : ERC20.TakesSnapshotsOnly beforeTokenTransfer)
    {s s' : Token} (h : Erc20Effect beforeTokenTransfer s s') : SupplyKept s s' := by
  cases h with
  | moved hsender hrecipient hbefore hrest henough hmoved =>
      have hsnapshots := hframe hbefore
      refine ⟨?_, ?_, ?_⟩
      · rw [hrest]
        exact hsnapshots.totalSupply
      · rw [hmoved.total, hsnapshots.holdings]
      · rw [hrest]
        exact hsnapshots.lastInitializedRevision.ge
  | approved hrest =>
      rw [hrest]
      exact ⟨rfl, rfl, le_rfl⟩

theorem supplyKept_of_delegationEffect {env : Env} {s s' : Token}
    (h : PlmyTokenV2.DelegationEffect env s s') : SupplyKept s s' := by
  have hledger := h.sameLedger
  exact ⟨hledger.totalSupply, by rw [hledger.holdings], hledger.lastInitializedRevision.ge⟩

/-- An optional mint adds its amount to supply and total alike, or nothing. -/
theorem mintedIfSet_supply {beforeTokenTransfer : ERC20.BeforeTokenTransfer}
    (hframe : ERC20.TakesSnapshotsOnly beforeTokenTransfer)
    {account : Address} {amount : Uint256} {s s' : Token}
    (h : MintedIfSet beforeTokenTransfer account amount s s') :
    ∃ n ≤ amount.val, s'.totalSupply.val = s.totalSupply.val + n ∧
      ∑ x, s'.holdings x = ∑ x, s.holdings x + n ∧
      s'.lastInitializedRevision = s.lastInitializedRevision := by
  rcases h with hmint | ⟨-, rfl⟩
  · obtain ⟨s₁, hbefore, hrest, hsupply, hholdings⟩ := hmint.hook
    have hsnapshots := hframe hbefore
    refine ⟨amount.val, le_rfl, ?_, ?_, ?_⟩
    · rw [hsupply, hsnapshots.totalSupply]
    · rw [total_add_single hholdings, hsnapshots.holdings]
    · rw [hrest]
      exact hsnapshots.lastInitializedRevision
  · exact ⟨0, Nat.zero_le _, (Nat.add_zero _).symm, (Nat.add_zero _).symm, rfl⟩

/-- A mint within the cap, after the revision is taken. -/
theorem mintedIfSet_supplyInvariant {beforeTokenTransfer : ERC20.BeforeTokenTransfer}
    (hframe : ERC20.TakesSnapshotsOnly beforeTokenTransfer)
    {account : Address} {amount : Uint256} {s s' : Token} (hinv : SupplyInvariant s)
    (hrevision : s.lastInitializedRevision ≠ 0)
    (hroom : s.totalSupply.val + amount.val ≤
      PlmyToken.distributionAmount.val + PlmyToken.incentiveAmount.val)
    (h : MintedIfSet beforeTokenTransfer account amount s s') :
    SupplyInvariant s' ∧ s'.lastInitializedRevision = s.lastInitializedRevision ∧
      s'.totalSupply.val ≤ s.totalSupply.val + amount.val := by
  obtain ⟨n, hn, hsupply, htotal, hsame⟩ := mintedIfSet_supply hframe h
  refine ⟨⟨?_, ?_, ?_⟩, hsame, by omega⟩
  · rw [htotal, hinv.total, hsupply]
  · omega
  · intro hzero
    rw [hsame] at hzero
    exact absurd hzero hrevision

/-- The state `initialize` starts to mint from. -/
theorem supplyInvariant_configured {s : Token} (hinv : SupplyInvariant s) (chain : Chain)
    (palmyGovernance : Address) :
    SupplyInvariant (PlmyToken.configured chain palmyGovernance s) where
  total := hinv.total
  capped := hinv.capped
  unminted hzero := absurd hzero (by change PlmyToken.revision ≠ 0; decide)

/-- What the two mints of a successful initialisation of V1 leave behind. -/
theorem supplyInvariant_initializeToken {chain : Chain} {env : Env}
    {vestingAddress vaultAddress palmyGovernance : Address} {s s' : Token}
    (hinv : SupplyInvariant s)
    (h : PlmyToken.initializeToken chain env vestingAddress vaultAddress palmyGovernance s =
      .ok s') :
    s.lastInitializedRevision = 0 ∧ s'.lastInitializedRevision = 1 ∧
      SupplyInvariant s' ∧ ∃ s₁, SupplyInvariant s₁ ∧
        MintedIfSet (PlmyToken.beforeTokenTransfer env) vestingAddress
          PlmyToken.distributionAmount (PlmyToken.configured chain palmyGovernance s) s₁ ∧
        MintedIfSet (PlmyToken.beforeTokenTransfer env) vaultAddress
          PlmyToken.incentiveAmount s₁ s' := by
  obtain ⟨hfirst, s₁, hvesting, hvault⟩ := PlmyToken.initializeToken_cases h
  have hzero : (PlmyToken.configured chain palmyGovernance s).totalSupply.val = 0 :=
    hinv.unminted hfirst
  have hone : (PlmyToken.configured chain palmyGovernance s).lastInitializedRevision = 1 := rfl
  obtain ⟨hinv₁, hrevision₁, hsupply₁⟩ := mintedIfSet_supplyInvariant
    (PlmyToken.takesSnapshotsOnly env)
    (supplyInvariant_configured hinv chain palmyGovernance)
    (by rw [hone]; decide) (by omega) hvesting
  obtain ⟨hinv', hrevision, -⟩ := mintedIfSet_supplyInvariant
    (PlmyToken.takesSnapshotsOnly env) hinv₁
    (by rw [hrevision₁, hone]; decide) (by omega) hvault
  exact ⟨hfirst, (hrevision.trans hrevision₁).trans hone, hinv', s₁, hinv₁, hvesting, hvault⟩

theorem SupplyInvariant.kept {s s' : Token} (hinv : SupplyInvariant s)
    (hkept : SupplyKept s s') : SupplyInvariant s' where
  total := by rw [hkept.total, hinv.total, hkept.totalSupply]
  capped := by
    rw [hkept.totalSupply]
    exact hinv.capped
  unminted hzero := by
    rw [hkept.totalSupply]
    apply hinv.unminted
    have hle := hkept.revision
    rw [hzero] at hle
    exact Fin.le_zero_iff.mp hle

theorem execute_supply {chain : Chain} {env : Env} {implementation : Implementation}
    {call : Call} {s s' : Token} (hinv : SupplyInvariant s)
    (h : implementation.execute chain env s call = .ok s') :
    SupplyInvariant s' ∧ s.lastInitializedRevision ≤ s'.lastInitializedRevision ∧
      (s.lastInitializedRevision ≠ 0 → s'.totalSupply = s.totalSupply) := by
  have hkept : SupplyKept s s' → SupplyInvariant s' ∧
      s.lastInitializedRevision ≤ s'.lastInitializedRevision ∧
      (s.lastInitializedRevision ≠ 0 → s'.totalSupply = s.totalSupply) :=
    fun hkept => ⟨hinv.kept hkept, hkept.revision, fun _ => hkept.totalSupply⟩
  cases implementation with
  | plmyToken =>
      rcases PlmyToken.execute_cases h with ⟨_, _, _, -, hinit⟩ | heffect
      · obtain ⟨hfirst, -, hinv', -⟩ := supplyInvariant_initializeToken hinv hinit
        refine ⟨hinv', ?_, fun hne => absurd hfirst hne⟩
        rw [hfirst]
        exact Fin.zero_le _
      · exact hkept (supplyKept_of_erc20Effect
          (PlmyToken.takesSnapshotsOnly env) heffect)
  | plmyTokenV2 =>
      rcases PlmyTokenV2.execute_cases h with ⟨-, hinit⟩ | heffect | heffect
      · simp only [PlmyTokenV2.initializeToken, initializer, bind_eq_ok, require_eq_ok,
          pure_eq_ok, exists_const] at hinit
        obtain ⟨hlt, rfl⟩ := hinit
        exact hkept ⟨rfl, rfl, hlt.le⟩
      · exact hkept (supplyKept_of_erc20Effect
          (PlmyTokenV2.takesSnapshotsOnly env) heffect)
      · exact hkept (supplyKept_of_delegationEffect heffect)

namespace Proxy

theorem step_supply (chain : Chain) {p : Proxy} (hinv : SupplyInvariant p.token) (tx : Tx) :
    SupplyInvariant (step chain p tx).token ∧
      p.token.lastInitializedRevision ≤ (step chain p tx).token.lastInitializedRevision ∧
      (p.token.lastInitializedRevision ≠ 0 →
        (step chain p tx).token.totalSupply = p.token.totalSupply) := by
  rcases commit_cases p (execute chain p tx) with hsame | hok
  · rw [step, hsame]
    exact ⟨hinv, le_rfl, fun _ => rfl⟩
  · rw [← step] at hok
    unfold execute at hok
    split at hok
    · simp only [bind_eq_ok, pure_eq_ok] at hok
      obtain ⟨token, hcall, heq⟩ := hok
      rw [← heq]
      exact execute_supply hinv hcall
    · rw [pure_eq_ok] at hok
      rw [← hok]
      exact ⟨hinv, le_rfl, fun _ => rfl⟩

theorem run_supplyInvariant (chain : Chain) (txs : List Tx) :
    SupplyInvariant (run chain txs).token := by
  apply Timeline.run_induction (P := fun p : Proxy => SupplyInvariant p.token)
    supplyInvariant_genesis
  intro p tx hinv
  exact (step_supply chain hinv tx).1

@[simp] theorem run_concat (chain : Chain) (txs : List Tx) (tx : Tx) :
    run chain (txs ++ [tx]) = step chain (run chain txs) tx :=
  Timeline.run_concat _ _ _ _

theorem run_append (chain : Chain) (txs later : List Tx) :
    run chain (txs ++ later) = Timeline.run (step chain) (run chain txs) later :=
  Timeline.run_append _ _ _ _

/-- Once the revision is not zero the supply is settled for good. -/
theorem totalSupply_run_append (chain : Chain) (first second : List Tx)
    (hinit : (run chain first).token.lastInitializedRevision ≠ 0) :
    (run chain (first ++ second)).token.totalSupply =
        (run chain first).token.totalSupply ∧
      (run chain (first ++ second)).token.lastInitializedRevision ≠ 0 := by
  induction second using List.reverseRecOn with
  | nil =>
      rw [List.append_nil]
      exact ⟨rfl, hinit⟩
  | append_singleton second tx ih =>
      obtain ⟨hsupply, hne⟩ := ih
      obtain ⟨-, hle, hkeep⟩ :=
        step_supply chain (run_supplyInvariant chain (first ++ second)) tx
      rw [← List.append_assoc, run_concat]
      refine ⟨(hkeep hne).trans hsupply, ?_⟩
      intro hzero
      rw [hzero] at hle
      exact hne (Fin.le_zero_iff.mp hle)

/-- The supply at the end of a block not before the first revision is the supply
of today. -/
theorem totalSupply_stateAt (chain : Chain) (first : List Tx) {second : List Tx} {tx : Tx}
    {block : ℕ}
    (hordered : Timeline.Ordered Tx.block (first ++ tx :: second))
    (hinit : (run chain (first ++ [tx])).token.lastInitializedRevision ≠ 0)
    (hblock : tx.block ≤ block) :
    (stateAt chain (first ++ tx :: second) block).token.totalSupply =
      (run chain (first ++ tx :: second)).token.totalSupply := by
  rw [stateAt, Timeline.stateAt_append_cons (step chain) Tx.block genesis hordered hblock]
  change (run chain (first ++ tx :: second.filter _)).token.totalSupply = _
  rw [List.append_cons first tx second, List.append_cons first tx (second.filter _),
    (totalSupply_run_append chain (first ++ [tx]) second hinit).1,
    (totalSupply_run_append chain (first ++ [tx]) _ hinit).1]

/-- The transaction is an initialisation that goes through. -/
def Initialises (chain : Chain) (p : Proxy) (tx : Tx) : Prop :=
  Succeeds (execute chain p tx) ∧
    ((∃ vestingAddress vaultAddress palmyGovernance,
      tx.action = .call (.initializeV1 vestingAddress vaultAddress palmyGovernance)) ∨
    tx.action = .call .initializeV2)

/-- A successful initialisation leaves a revision behind. -/
theorem Initialises.revision_ne_zero {chain : Chain} {p : Proxy} {tx : Tx}
    (hinv : SupplyInvariant p.token) (h : Initialises chain p tx) :
    (step chain p tx).token.lastInitializedRevision ≠ 0 := by
  obtain ⟨⟨p', hok⟩, hcall⟩ := h
  have hstep : step chain p tx = p' := by rw [step, hok, commit_ok]
  rw [hstep]
  obtain ⟨implementation, s⟩ := p
  rcases hcall with ⟨_, _, _, hcall⟩ | hcall
  · simp only [execute, hcall, bind_eq_ok, pure_eq_ok] at hok
    obtain ⟨token, hexecute, rfl⟩ := hok
    cases implementation with
    | plmyToken =>
        obtain ⟨-, hone, -⟩ := supplyInvariant_initializeToken hinv hexecute
        rw [hone]
        decide
    | plmyTokenV2 => cases hexecute
  · simp only [execute, hcall, bind_eq_ok, pure_eq_ok] at hok
    obtain ⟨token, hexecute, rfl⟩ := hok
    cases implementation with
    | plmyToken => cases hexecute
    | plmyTokenV2 =>
        simp only [Implementation.execute, PlmyTokenV2.execute, PlmyTokenV2.initializeToken,
          initializer, bind_eq_ok, require_eq_ok, pure_eq_ok, exists_const] at hexecute
        obtain ⟨-, rfl⟩ := hexecute
        change PlmyTokenV2.revision ≠ 0
        decide

/-- Supply across every upgrade path.  The sum of the balances is the supply and
stays below the cap; the revision never falls; from the first successful
initialisation on the supply is fixed, so `totalSupplyAt` answers with the
supply at the end of the queried block. -/
theorem supply_minted_once (chain : Chain) (txs : List Tx) :
    (∑ account, ((run chain txs).token.balances account).val =
        (run chain txs).token.totalSupply.val) ∧
      (run chain txs).token.totalSupply.val ≤
        PlmyToken.distributionAmount.val + PlmyToken.incentiveAmount.val ∧
      (∀ tx, (run chain txs).token.lastInitializedRevision ≤
        (run chain (txs ++ [tx])).token.lastInitializedRevision) ∧
      (∀ first tx second, txs = first ++ tx :: second →
        Initialises chain (run chain first) tx →
        (run chain txs).token.totalSupply =
          (run chain (first ++ [tx])).token.totalSupply) ∧
      (Timeline.Ordered Tx.block txs →
        ∀ first tx second, txs = first ++ tx :: second →
        Initialises chain (run chain first) tx →
        ∀ block : Uint256, tx.block ≤ block.val →
        GovernancePowerDelegation.totalSupplyAt block (run chain txs).token =
          (stateAt chain txs block.val).token.totalSupply) := by
  have hinv := run_supplyInvariant chain txs
  have hsettled : ∀ first tx, Initialises chain (run chain first) tx →
      (run chain (first ++ [tx])).token.lastInitializedRevision ≠ 0 := by
    intro first tx hinit
    rw [run_concat]
    exact hinit.revision_ne_zero (run_supplyInvariant chain first)
  refine ⟨hinv.total, hinv.capped, ?_, ?_, ?_⟩
  · intro tx
    rw [run_concat]
    exact (step_supply chain hinv tx).2.1
  · intro first tx second heq hinit
    rw [heq, List.append_cons]
    exact (totalSupply_run_append chain (first ++ [tx]) second (hsettled first tx hinit)).1
  · intro hordered first tx second heq hinit block hblock
    subst heq
    exact (totalSupply_stateAt chain first hordered (hsettled first tx hinit) hblock).symm

/-- In the sample run the supply of block 5 is what the first transaction minted. -/
theorem supply_minted_once_sample :
    (run Sample.chain Sample.txs).token.totalSupply =
        (run Sample.chain (Sample.txs.take 1)).token.totalSupply ∧
      GovernancePowerDelegation.totalSupplyAt 5 (run Sample.chain Sample.txs).token =
        (stateAt Sample.chain Sample.txs 5).token.totalSupply := by
  have hinit : Initialises Sample.chain (run Sample.chain [])
      ⟨Sample.env Sample.alice 1, .call (.initializeV1 Sample.alice Sample.bob 0)⟩ :=
    ⟨⟨_, rfl⟩, Or.inl ⟨_, _, _, rfl⟩⟩
  obtain ⟨-, -, -, hfixed, hpast⟩ := supply_minted_once Sample.chain Sample.txs
  exact ⟨hfixed [] _ _ rfl hinit, hpast (by decide) [] _ _ rfl hinit 5 (by decide)⟩

end Proxy

end Palmy
