import Detta.Core.Contract

/-!
# What is serialized, and how

The JSON trees of the kernel's data, with the names that the source's derived
serialization gives to constructors and fields, and the roots computed from them.
Sets and lists are arrays, maps with texts as keys are objects, and the maps with
other keys are arrays of pairs.
-/

namespace Detta

open Json

namespace Json

/-- An ordered set of texts. -/
def texts (s : Std.ExtTreeSet String) : Json := list str s.toList

/-- An ordered map with texts as keys. -/
def dict {V : Type} (f : V → Json) (t : Std.ExtTreeMap String V) : Json :=
  obj (t.toList.map fun (k, v) => (k, f v))

/-- Two values. -/
def pair (a b : Json) : Json := arr [a, b]

/-- A machine integer. -/
def word {w : ℕ} (a : Word w) : Json := num a.val

end Json

/-! ## Methods, keys and grants -/

def Method.json : Method → Json
  | transfer => str "Transfer"
  | approve => str "Approve"
  | transferFrom => str "TransferFrom"
  | permit => str "Permit"
  | addLiquidity => str "AddLiquidity"
  | swap => str "Swap"
  | submitPrice => str "SubmitPrice"
  | queueBridgeMessage => str "QueueBridgeMessage"
  | redeemBridgeMessage => str "RedeemBridgeMessage"
  | pauseContract => str "PauseContract"
  | unpauseContract => str "UnpauseContract"
  | scheduleUpgrade => str "ScheduleUpgrade"
  | executeUpgrade => str "ExecuteUpgrade"
  | schedulePolicyUpdate => str "SchedulePolicyUpdate"
  | executePolicyUpdate => str "ExecutePolicyUpdate"
  | depositCollateral => str "DepositCollateral"
  | borrow => str "Borrow"
  | liquidate => str "Liquidate"
  | stake => str "Stake"
  | unstake => str "Unstake"
  | requestUnstake => str "RequestUnstake"
  | completeUnstake => str "CompleteUnstake"
  | claimStakingRewards => str "ClaimStakingRewards"
  | routeTransferFrom => str "RouteTransferFrom"
  | deployToken => str "DeployToken"
  | deployAmmPool => str "DeployAmmPool"
  | submitAspectModule => str "SubmitAspectModule"
  | deployAspectContract => str "DeployAspectContract"
  | registerAccountKey => str "RegisterAccountKey"
  | revokeAccountKey => str "RevokeAccountKey"
  | other name => variant "Other" (str name)

def Argument.json : Argument → Json
  | principal v => variant "Principal" (str v)
  | asset v => variant "Asset" (str v)
  | amount v => variant "Amount" (word v)
  | text v => variant "Text" (str v)
  | certificate v => variant "Certificate" (str v)

def StateKey.json : StateKey → Json
  | balance c o a => record "Balance" [("contract", str c), ("owner", str o), ("asset", str a)]
  | totalSupply c a => record "TotalSupply" [("contract", str c), ("asset", str a)]
  | reserve c a => record "Reserve" [("contract", str c), ("asset", str a)]
  | ammFeeCollected c a => record "AmmFeeCollected" [("contract", str c), ("asset", str a)]
  | lpSupply c => record "LpSupply" [("contract", str c)]
  | lpBalance c o => record "LpBalance" [("contract", str c), ("owner", str o)]
  | oraclePrice c a => record "OraclePrice" [("contract", str c), ("asset", str a)]
  | oracleTimestamp c a => record "OracleTimestamp" [("contract", str c), ("asset", str a)]
  | bridgeMessageConsumed c m =>
    record "BridgeMessageConsumed" [("contract", str c), ("message_id", str m)]
  | collateral c b a =>
    record "Collateral" [("contract", str c), ("borrower", str b), ("asset", str a)]
  | debt c b a => record "Debt" [("contract", str c), ("borrower", str b), ("asset", str a)]
  | debtLastAccrualHeight c b a =>
    record "DebtLastAccrualHeight" [("contract", str c), ("borrower", str b), ("asset", str a)]
  | badDebt c a => record "BadDebt" [("contract", str c), ("asset", str a)]
  | stakeBalance c s a =>
    record "StakeBalance" [("contract", str c), ("staker", str s), ("asset", str a)]
  | totalStaked c a => record "TotalStaked" [("contract", str c), ("asset", str a)]
  | pendingUnbond c s a =>
    record "PendingUnbond" [("contract", str c), ("staker", str s), ("asset", str a)]
  | totalPendingUnbond c a => record "TotalPendingUnbond" [("contract", str c), ("asset", str a)]
  | stakingPenaltyCollected c a =>
    record "StakingPenaltyCollected" [("contract", str c), ("asset", str a)]
  | unbondReadyHeight c s a =>
    record "UnbondReadyHeight" [("contract", str c), ("staker", str s), ("asset", str a)]
  | stakingRewardBalance c s a =>
    record "StakingRewardBalance" [("contract", str c), ("staker", str s), ("asset", str a)]
  | stakingLastRewardHeight c s a =>
    record "StakingLastRewardHeight" [("contract", str c), ("staker", str s), ("asset", str a)]
  | aspectState c x s k =>
    record "AspectState"
      [("contract", str c), ("aspect", str x), ("state", str s), ("key", list str k)]

def StateValue.json (v : StateValue) : Json := variant "UInt" (word v.asUint)

def GrantRight.json : GrantRight → Json
  | spendAllowance => str "SpendAllowance"
  | updateOracle => str "UpdateOracle"
  | governanceAdmin => str "GovernanceAdmin"
  | submitTransaction => str "SubmitTransaction"

def GrantKey.json : GrantKey → Json
  | accountSigner a k => record "AccountSigner" [("account", str a), ("public_key_hex", str k)]
  | allowance c o s a =>
    record "Allowance" [("contract", str c), ("owner", str o), ("spender", str s), ("asset", str a)]
  | oracleUpdater c s => record "OracleUpdater" [("contract", str c), ("subject", str s)]
  | governanceAdmin c s => record "GovernanceAdmin" [("contract", str c), ("subject", str s)]

def Grant.json (g : Grant) : Json :=
  obj [("issuer", str g.issuer), ("subject", str g.subject),
    ("rights", list GrantRight.json g.rights.toList), ("limit", opt word g.limit),
    ("spent", word g.spent), ("active", .bool g.active), ("revoked", .bool g.revoked)]

/-! ## Contracts and policies -/

def ContractKind.json : ContractKind → Json
  | token => str "Token"
  | ammPool a b fee =>
    record "AmmPool" [("asset_a", str a), ("asset_b", str b), ("swap_fee_bps", word fee)]
  | oracle a m => record "Oracle" [("asset", str a), ("max_age", word m)]
  | bridge s => record "Bridge" [("source_chain", str s)]
  | governance g d => record "Governance" [("governed_contract", str g), ("timelock_delay", word d)]
  | lendingVault c d o ltv age interest threshold =>
    record "LendingVault"
      [("collateral_asset", str c), ("debt_asset", str d), ("oracle_contract", str o),
        ("ltv_bps", word ltv), ("max_oracle_age", word age),
        ("interest_bps_per_block", word interest), ("liquidation_threshold_bps", word threshold)]
  | staking a d r p =>
    record "Staking" [("asset", str a), ("unbonding_delay", word d), ("reward_per_block", word r),
      ("unstake_penalty_bps", word p)]
  | router t => record "Router" [("token_contract", str t)]
  | factory => str "Factory"
  | accountRegistry => str "AccountRegistry"
  | aspectModule h b abi policy invariant =>
    record "AspectModule" [("module_hash", str h), ("bundle_id", str b), ("abi_root", str abi),
      ("policy_root", str policy), ("invariant_root", str invariant)]

def ContractInvariant.json : ContractInvariant → Json
  | tokenSupplyMatchesBalances => str "TokenSupplyMatchesBalances"
  | ammPoolAssetsDistinct => str "AmmPoolAssetsDistinct"
  | ammLpSupplyMatchesBalances => str "AmmLpSupplyMatchesBalances"
  | oracleUpdatesRequireLiveGrant => str "OracleUpdatesRequireLiveGrant"
  | oracleFreshnessCheckedByConsumers => str "OracleFreshnessCheckedByConsumers"
  | bridgeInboundMessagesConsumedOnce => str "BridgeInboundMessagesConsumedOnce"
  | bridgeOutboundMessageIdsUnique => str "BridgeOutboundMessageIdsUnique"
  | governanceChangesRequireAdminGrant => str "GovernanceChangesRequireAdminGrant"
  | governanceUpgradesRespectTimelock => str "GovernanceUpgradesRespectTimelock"
  | lendingBorrowWithinCollateralLimit => str "LendingBorrowWithinCollateralLimit"
  | stakingTotalMatchesBalances => str "StakingTotalMatchesBalances"
  | stakingPendingUnbondingMatchesTotal => str "StakingPendingUnbondingMatchesTotal"
  | routerDoesNotInheritCallerWriteScope => str "RouterDoesNotInheritCallerWriteScope"
  | factoryDeploymentsDeclarePolicies => str "FactoryDeploymentsDeclarePolicies"
  | accountSignerKeysCanonical => str "AccountSignerKeysCanonical"
  | aspectLocalInvariant m a i =>
    record "AspectLocalInvariant" [("module_hash", str m), ("aspect", str a), ("invariant", str i)]

def PolicyAuthority.json : PolicyAuthority → Json
  | txSender => str "TxSender"
  | liveAllowanceGrant => str "LiveAllowanceGrant"
  | permitCertificate => str "PermitCertificate"
  | oracleUpdaterGrant => str "OracleUpdaterGrant"
  | bridgeCertificate => str "BridgeCertificate"
  | governanceAdminGrant => str "GovernanceAdminGrant"

def PolicyEffect.json : PolicyEffect → Json
  | storageWrite => str "StorageWrite"
  | registryWrite => str "RegistryWrite"
  | eventEmit => str "EventEmit"
  | moduleRegister => str "ModuleRegister"
  | contractPause => str "ContractPause"
  | upgradeSchedule => str "UpgradeSchedule"
  | contractCodeUpgrade => str "ContractCodeUpgrade"
  | policyUpdateSchedule => str "PolicyUpdateSchedule"
  | methodPolicyUpdate => str "MethodPolicyUpdate"
  | crossContractCall => str "CrossContractCall"
  | crossShardOutboxAppend => str "CrossShardOutboxAppend"
  | contractDeploy => str "ContractDeploy"

def ReentrancyMode.json : ReentrancyMode → Json
  | nonReentrant => str "NonReentrant"

def MethodPolicy.json (p : MethodPolicy) : Json :=
  obj [("authority", p.authority.json), ("reentrancy", p.reentrancy.json),
    ("effects", list PolicyEffect.json p.effects.toList),
    ("invariants", list ContractInvariant.json p.invariants.toList)]

def ContractRecord.json (r : ContractRecord) : Json :=
  obj [("contract_id", str r.contractId), ("code_hash", str r.codeHash), ("kind", r.kind.json),
    ("exported_methods", list Method.json r.exportedMethods.toList),
    ("method_policies", list (fun (m, p) => pair m.json p.json) r.methodPolicies.toList),
    ("declared_invariants", list ContractInvariant.json r.declaredInvariants.toList)]

/-- A policy of a contract, under the contract and the method. -/
def policyEntryJson (contract : ContractId) (method : Method) (p : MethodPolicy) : Json :=
  pair (obj [("contract", str contract), ("method", method.json)]) p.json

def ScheduledUpgrade.json (u : ScheduledUpgrade) : Json :=
  obj [("upgrade_id", str u.upgradeId), ("governance_contract", str u.governanceContract),
    ("target_contract", str u.targetContract), ("new_code_hash", str u.newCodeHash),
    ("execute_after_height", word u.executeAfterHeight), ("executed", .bool u.executed)]

def ScheduledPolicyUpdate.json (u : ScheduledPolicyUpdate) : Json :=
  obj [("update_id", str u.updateId), ("governance_contract", str u.governanceContract),
    ("target_contract", str u.targetContract), ("method", u.method.json),
    ("effect", u.effect.json), ("execute_after_height", word u.executeAfterHeight),
    ("executed", .bool u.executed)]

def CrossShardMessage.json (m : CrossShardMessage) : Json :=
  obj [("source_chain", str m.sourceChain), ("source_contract", str m.sourceContract),
    ("source_height", word m.sourceHeight), ("destination_chain", str m.destinationChain),
    ("destination_contract", str m.destinationContract), ("message_id", str m.messageId),
    ("recipient", str m.recipient), ("asset", str m.asset), ("amount", word m.amount)]

def BridgeValidatorSet.json (v : BridgeValidatorSet) : Json :=
  obj [("source_chain", str v.sourceChain), ("validators", texts v.validators),
    ("quorum", num v.quorum)]

def NonceKey.json (n : NonceKey) : Json := pair (str n.sender) (word n.nonce)

/-! ## Transactions, events and receipts -/

def Transaction.json (t : Transaction) : Json :=
  obj [("chain_id", str t.chainId), ("tx_hash", str t.txHash), ("sender", str t.sender),
    ("nonce", word t.nonce), ("valid_until_height", opt word t.validUntilHeight),
    ("target", str t.target), ("method", t.method.json), ("args", list Argument.json t.args),
    ("signature_ok", .bool t.signatureOk), ("budget", word t.budget)]

def EventPayload.json : EventPayload → Json
  | transfer s r a n =>
    record "Transfer" [("from", str s), ("to", str r), ("asset", str a), ("amount", word n)]
  | approval o s a n =>
    record "Approval" [("owner", str o), ("spender", str s), ("asset", str a), ("amount", word n)]
  | liquidityAdded p a na b nb lp =>
    record "LiquidityAdded" [("provider", str p), ("asset_a", str a), ("amount_a", word na),
      ("asset_b", str b), ("amount_b", word nb), ("minted_lp", word lp)]
  | swap t i o ni nf no =>
    record "Swap" [("trader", str t), ("input_asset", str i), ("output_asset", str o),
      ("amount_in", word ni), ("fee_amount", word nf), ("amount_out", word no)]
  | priceUpdated u a p t =>
    record "PriceUpdated" [("updater", str u), ("asset", str a), ("price", word p),
      ("timestamp", word t)]
  | bridgeMessageRedeemed m r a n =>
    record "BridgeMessageRedeemed" [("message_id", str m), ("recipient", str r),
      ("asset", str a), ("amount", word n)]
  | crossShardMessageQueued m d c r a n =>
    record "CrossShardMessageQueued" [("message_id", str m), ("destination_chain", str d),
      ("destination_contract", str c), ("recipient", str r), ("asset", str a), ("amount", word n)]
  | contractPaused c a => record "ContractPaused" [("contract", str c), ("admin", str a)]
  | contractUnpaused c a => record "ContractUnpaused" [("contract", str c), ("admin", str a)]
  | upgradeScheduled u c h e a =>
    record "UpgradeScheduled" [("upgrade_id", str u), ("contract", str c),
      ("new_code_hash", str h), ("execute_after_height", word e), ("admin", str a)]
  | upgradeExecuted u c o h a =>
    record "UpgradeExecuted" [("upgrade_id", str u), ("contract", str c),
      ("old_code_hash", str o), ("new_code_hash", str h), ("admin", str a)]
  | policyUpdateScheduled u c m f e a =>
    record "PolicyUpdateScheduled" [("update_id", str u), ("contract", str c),
      ("method", m.json), ("effect", f.json), ("execute_after_height", word e), ("admin", str a)]
  | policyUpdateExecuted u c m f o n a =>
    record "PolicyUpdateExecuted" [("update_id", str u), ("contract", str c),
      ("method", m.json), ("effect", f.json), ("old_policy_root", str o),
      ("new_policy_root", str n), ("admin", str a)]
  | collateralDeposited b a n =>
    record "CollateralDeposited" [("borrower", str b), ("asset", str a), ("amount", word n)]
  | borrowed b a n => record "Borrowed" [("borrower", str b), ("asset", str a), ("amount", word n)]
  | liquidated b l d n c q r =>
    record "Liquidated" [("borrower", str b), ("liquidator", str l), ("debt_asset", str d),
      ("repaid_debt", word n), ("collateral_asset", str c), ("seized_collateral", word q),
      ("remaining_bad_debt", word r)]
  | staked s a n => record "Staked" [("staker", str s), ("asset", str a), ("amount", word n)]
  | unstaked s a n => record "Unstaked" [("staker", str s), ("asset", str a), ("amount", word n)]
  | unstakeRequested s a n r =>
    record "UnstakeRequested" [("staker", str s), ("asset", str a), ("amount", word n),
      ("ready_height", word r)]
  | unbondingCompleted s a n =>
    record "UnbondingCompleted" [("staker", str s), ("asset", str a), ("amount", word n)]
  | stakingRewardsClaimed s a n =>
    record "StakingRewardsClaimed" [("staker", str s), ("asset", str a), ("amount", word n)]
  | contractDeployed c k h =>
    record "ContractDeployed" [("contract", str c), ("kind", str k), ("code_hash", str h)]
  | aspectModuleSubmitted m h t =>
    record "AspectModuleSubmitted" [("module_id", str m), ("module_hash", str h),
      ("taxonomy_version", str t)]
  | aspectEvent m e => record "AspectEvent" [("module_hash", str m), ("event", str e)]
  | accountKeyRegistered a k =>
    record "AccountKeyRegistered" [("account", str a), ("public_key_hex", str k)]
  | accountKeyRevoked a k =>
    record "AccountKeyRevoked" [("account", str a), ("public_key_hex", str k)]
  | stakingPenaltyApplied s a n p r =>
    record "StakingPenaltyApplied" [("staker", str s), ("asset", str a),
      ("requested_amount", word n), ("penalty_amount", word p), ("released_amount", word r)]

def Event.json (e : Event) : Json :=
  obj [("contract", str e.contract), ("tx_hash", str e.txHash), ("index", word e.index),
    ("payload", e.payload.json)]

/-! ## Aspect modules -/

mutual

def Expr.json : Expr → Json
  | .atom name => variant "Atom" (str name)
  | .list items => variant "List" (arr (Expr.jsons items))

def Expr.jsons : List Expr → List Json
  | [] => []
  | e :: es => e.json :: Expr.jsons es

end

def AuthorityKind.json : AuthorityKind → Json
  | txSender => str "TxSender"
  | msgSender => str "MsgSender"
  | roleGrant => str "RoleGrant"
  | allowance => str "Allowance"
  | permitCertificate => str "PermitCertificate"
  | oracleUpdaterGrant => str "OracleUpdaterGrant"
  | bridgeCertificate => str "BridgeCertificate"
  | governanceAdminGrant => str "GovernanceAdminGrant"
  | custom name => variant "Custom" (str name)

def EffectKind.json : EffectKind → Json
  | readState => str "ReadState"
  | writeState => str "WriteState"
  | readRegistry => str "ReadRegistry"
  | writeRegistry => str "WriteRegistry"
  | consumeRegistryGrant => str "ConsumeRegistryGrant"
  | emitEvent => str "EmitEvent"
  | callContract => str "CallContract"
  | deployContract => str "DeployContract"
  | scheduleUpgrade => str "ScheduleUpgrade"
  | executeUpgrade => str "ExecuteUpgrade"
  | crossShardOutboxAppend => str "CrossShardOutboxAppend"
  | usePermitCertificate => str "UsePermitCertificate"
  | useBridgeCertificate => str "UseBridgeCertificate"
  | abort => str "Abort"

def ContractCallTarget.json : ContractCallTarget → Json
  | any => str "Any"
  | exact contract => variant "Exact" (str contract)

/-- A pattern, with the name of its second field: a method, or a state. -/
def ContractPattern.json (field : String) (p : ContractPattern) : Json :=
  obj [("target", p.target.json), (field, str p.name)]

/-- The reads that a policy allows are left out when there are none. -/
def MethodPolicyIr.json (p : MethodPolicyIr) : Json :=
  obj ([("bundle", str p.bundle), ("projection", str p.projection),
    ("authority", p.authority.json), ("effects", list EffectKind.json p.effects.toList),
    ("invariants", texts p.invariants),
    ("call_allowlist", list (ContractPattern.json "method") p.callAllowlist.toList)] ++
    if p.readAllowlist.isEmpty then []
    else [("read_allowlist", list (ContractPattern.json "state") p.readAllowlist.toList)])

def AspectDef.json (d : AspectDef) : Json :=
  obj [("aspect", str d.aspect), ("is_abstract", .bool d.isAbstract), ("extends", texts d.extends'),
    ("conflicts", texts d.conflicts), ("provides", texts d.provides),
    ("requires", texts d.requires)]

def BundleDef.json (d : BundleDef) : Json :=
  obj [("bundle", str d.bundle), ("includes", texts d.includes), ("extends", texts d.extends'),
    ("constraints", dict Expr.json d.constraints)]

def ProjectionDef.json (d : ProjectionDef) : Json :=
  obj [("bundle", str d.bundle), ("projection", str d.projection), ("expr", d.expr.json)]

def ActionDef.json (d : ActionDef) : Json :=
  obj [("aspect", str d.aspect), ("action", str d.action), ("declared", .bool d.declared),
    ("body", opt Expr.json d.body)]

def StateSchema.json (d : StateSchema) : Json :=
  obj [("aspect", str d.aspect), ("state", str d.state), ("type_expr", d.typeExpr.json)]

def RegistrySchema.json (d : RegistrySchema) : Json :=
  obj [("aspect", str d.aspect), ("registry", str d.registry), ("type_expr", d.typeExpr.json)]

def InvariantDef.json (d : InvariantDef) : Json :=
  obj [("aspect", str d.aspect), ("invariant", str d.invariant), ("expr", d.expr.json)]

def MethodAbiDef.json (d : MethodAbiDef) : Json :=
  obj [("bundle", str d.bundle), ("projection", str d.projection), ("args", d.args.json),
    ("return_type", d.returnType.json)]

def AspectModuleIr.json (m : AspectModuleIr) : Json :=
  obj [("taxonomy_version", str m.taxonomyVersion), ("source_root", str m.sourceRoot),
    ("types", dict Expr.json m.types), ("aspects", dict AspectDef.json m.aspects),
    ("bundles", dict BundleDef.json m.bundles),
    ("projections", dict ProjectionDef.json m.projections),
    ("actions", dict ActionDef.json m.actions),
    ("storage_schema", dict StateSchema.json m.storageSchema),
    ("registry_schema", dict RegistrySchema.json m.registrySchema),
    ("invariants", dict InvariantDef.json m.invariants), ("abi", dict MethodAbiDef.json m.abi),
    ("policies", dict MethodPolicyIr.json m.policies)]

def AspectModuleRecord.json (r : AspectModuleRecord) : Json :=
  obj [("module_id", str r.moduleId), ("module_hash", str r.moduleHash),
    ("taxonomy_version", str r.taxonomyVersion), ("source_root", str r.sourceRoot),
    ("canonical_source", opt str r.canonicalSource), ("ir_root", str r.irRoot),
    ("ir", opt AspectModuleIr.json r.ir), ("abi_root", str r.abiRoot),
    ("policy_root", str r.policyRoot), ("storage_schema_root", str r.storageSchemaRoot),
    ("registry_schema_root", str r.registrySchemaRoot), ("invariant_root", str r.invariantRoot)]

/-! ## Roots of the state -/

namespace DeTTaState

variable (h : Hashing) (s : DeTTaState)

def storageRoot : String := h.merkleRoot (s.storage.toList.map fun (k, v) => pair k.json v.json)

def registryRoot : String := h.merkleRoot (s.registry.toList.map fun (k, g) => pair k.json g.json)

def policyRoot : String :=
  h.merkleRoot (s.contracts.toList.flatMap fun (contract, r) =>
    r.methodPolicies.toList.map fun (method, p) => policyEntryJson contract method p)

def eventRoot : String := h.merkleRoot (s.events.map Event.json)

def outboxRoot : String := h.merkleRoot (s.crossShardOutbox.map CrossShardMessage.json)

def aspectModuleRoot : String :=
  h.merkleRoot (s.aspectModules.toList.map fun (k, r) => pair (str k) r.json)

def nonceRoot : String :=
  h.rootOf (pair (list NonceKey.json s.usedNonces.toList) (texts s.usedCertificateNonces))

def globalStateRoot : String :=
  h.rootOf (arr [str s.chainId, word s.height, dict ContractRecord.json s.contracts,
    str (s.aspectModuleRoot h), str (s.storageRoot h), str (s.registryRoot h),
    str (s.policyRoot h), list NonceKey.json s.usedNonces.toList, texts s.usedCertificateNonces,
    texts s.pausedContracts, dict ScheduledUpgrade.json s.scheduledUpgrades,
    dict ScheduledPolicyUpdate.json s.scheduledPolicyUpdates,
    dict BridgeValidatorSet.json s.trustedBridgeValidatorSets, texts s.outboundMessageIds,
    str (s.outboxRoot h), str (s.eventRoot h)])

end DeTTaState

end Detta
