import Detta.Core.Encode

/-!
# Checks on the state

The conditions that methods check before they succeed: that totals match the sums
of the entries they stand for, that rights are live, and the invariants that a
contract declares. All of them read the state and change nothing.
-/

namespace Detta

/-! ## Keys of one ledger -/

namespace StateKey

/-- A balance in an asset of a token contract. -/
def isBalanceOf (contract : ContractId) (asset : AssetId) : StateKey → Bool
  | balance c _ a => c == contract && a == asset
  | _ => false

/-- A share of a pool. -/
def isLpBalanceOf (contract : ContractId) : StateKey → Bool
  | lpBalance c _ => c == contract
  | _ => false

/-- A stake in an asset. -/
def isStakeBalanceOf (contract : ContractId) (asset : AssetId) : StateKey → Bool
  | stakeBalance c _ a => c == contract && a == asset
  | _ => false

/-- A stake in an asset that is being paid out. -/
def isPendingUnbondOf (contract : ContractId) (asset : AssetId) : StateKey → Bool
  | pendingUnbond c _ a => c == contract && a == asset
  | _ => false

/-- The asset of a total supply of a contract. -/
def supplyAsset (contract : ContractId) : StateKey → Option AssetId
  | totalSupply c a => if c = contract then some a else none
  | _ => none

end StateKey

namespace DeTTaState

variable (s : DeTTaState)

/-! ## Totals and sums -/

/-- The values under the keys of a ledger add up to the total under another key,
    without overflow. -/
def sumMatches (isEntry : StateKey → Bool) (total : StateKey) : Bool :=
  checkedSum ((s.storage.toList.filter fun e => isEntry e.1).map fun e => e.2.asUint) ==
    some (s.uintAt total)

def tokenInvariantsHold (contract : ContractId) (asset : AssetId) : Bool :=
  s.sumMatches (StateKey.isBalanceOf contract asset) (.totalSupply contract asset)

def ammInvariantsHold (contract : ContractId) : Bool :=
  s.sumMatches (StateKey.isLpBalanceOf contract) (.lpSupply contract)

def stakingInvariantsHold (contract : ContractId) (asset : AssetId) : Bool :=
  s.sumMatches (StateKey.isStakeBalanceOf contract asset) (.totalStaked contract asset)

def stakingPendingUnbondingInvariantsHold (contract : ContractId) (asset : AssetId) : Bool :=
  s.sumMatches (StateKey.isPendingUnbondOf contract asset) (.totalPendingUnbond contract asset)

/-- The assets that a contract has a total supply of. -/
def tokenTotalSupplyAssets (contract : ContractId) : List AssetId :=
  s.storage.keys.filterMap (StateKey.supplyAsset contract)

/-! ## Live rights -/

/-- A live grant of a right, under a key. -/
def hasLiveGrant (isKey : GrantKey → Bool) (right : GrantRight) : Bool :=
  s.registry.toList.any fun (key, g) =>
    isKey key && g.active && !g.revoked && g.rights.contains right

def hasActiveOracleUpdater (contract : ContractId) : Bool :=
  s.hasLiveGrant (fun key => match key with
    | .oracleUpdater c _ => c == contract
    | _ => false) .updateOracle

def hasActiveGovernanceAdmin (contract : ContractId) : Bool :=
  s.hasLiveGrant (fun key => match key with
    | .governanceAdmin c _ => c == contract
    | _ => false) .governanceAdmin

/-- A public key: 64 hexadecimal digits in lower case. -/
def isCanonicalPublicKeyHex (value : String) : Bool :=
  value.toList.length == 64 && value.toList.all fun c =>
    ('0' ≤ c && c ≤ '9') || ('a' ≤ c && c ≤ 'f')

def accountSignerKeysCanonical : Bool :=
  s.registry.toList.all fun (key, g) =>
    match key with
    | .accountSigner account publicKeyHex =>
      account ≠ "" && isCanonicalPublicKeyHex publicKeyHex && g.issuer == account &&
        g.subject == account && g.limit.isNone && g.spent == 0 &&
        g.rights.contains .submitTransaction && !(g.active && g.revoked)
    | _ => true

/-! ## Declared invariants -/

def outboundMessagesAreUnique : Bool := decide (s.crossShardOutbox.map (·.messageId)).Nodup

/-- A debt is within what the collateral allows at the current price. -/
def debtWithinLimit (contract : ContractId) (borrower : Principal) (debt : Amount)
    (collateralAsset : AssetId) (oracleContract : ContractId) (ltvBps : U64) : Bool :=
  debt == 0 ||
    let price := s.uintAt (.oraclePrice oracleContract collateralAsset)
    let collateral := s.uintAt (.collateral contract borrower collateralAsset)
    price != 0 &&
      match (collateral.checkedMul price).bind fun value => value.checkedMul ltvBps.toU128 with
      | none => false
      | some maxDebt => debt ≤ maxDebt.div 10000

def lendingInvariantsHold (record : ContractRecord) : Bool :=
  match record.kind with
  | .lendingVault collateralAsset debtAsset oracleContract ltvBps _ _ _ =>
    s.storage.toList.all fun (key, value) =>
      match key with
      | .debt contract borrower asset =>
        contract != record.contractId || asset != debtAsset ||
          s.debtWithinLimit contract borrower value.asUint collateralAsset oracleContract ltvBps
      | _ => true
  | _ => false

/-- Every contract declares what its methods may do. -/
def deploymentsDeclarePolicies : Bool :=
  s.contracts.values.all fun record =>
    match record.kind with
    | .aspectModule _ _ abiRoot policyRoot invariantRoot =>
      abiRoot ≠ "" && policyRoot ≠ "" && invariantRoot ≠ ""
    | _ =>
      !record.exportedMethods.isEmpty && !record.declaredInvariants.isEmpty &&
        record.exportedMethods.toList.all fun method => record.methodPolicies.contains method

def declaredInvariantHolds (record : ContractRecord) : ContractInvariant → Bool
  | .tokenSupplyMatchesBalances =>
    (s.tokenTotalSupplyAssets record.contractId).all fun asset =>
      s.tokenInvariantsHold record.contractId asset
  | .ammPoolAssetsDistinct =>
    match record.kind with
    | .ammPool assetA assetB _ => assetA != assetB
    | _ => false
  | .ammLpSupplyMatchesBalances => s.ammInvariantsHold record.contractId
  | .oracleUpdatesRequireLiveGrant => s.hasActiveOracleUpdater record.contractId
  | .oracleFreshnessCheckedByConsumers => true
  | .bridgeInboundMessagesConsumedOnce => true
  | .bridgeOutboundMessageIdsUnique => s.outboundMessagesAreUnique
  | .governanceChangesRequireAdminGrant => s.hasActiveGovernanceAdmin record.contractId
  | .governanceUpgradesRespectTimelock =>
    match record.kind with
    | .governance _ timelockDelay => decide (0 < timelockDelay)
    | _ => false
  | .lendingBorrowWithinCollateralLimit => s.lendingInvariantsHold record
  | .stakingTotalMatchesBalances =>
    match record.kind with
    | .staking asset _ _ _ => s.stakingInvariantsHold record.contractId asset
    | _ => false
  | .stakingPendingUnbondingMatchesTotal =>
    match record.kind with
    | .staking asset _ _ _ => s.stakingPendingUnbondingInvariantsHold record.contractId asset
    | _ => false
  | .routerDoesNotInheritCallerWriteScope => true
  | .factoryDeploymentsDeclarePolicies => s.deploymentsDeclarePolicies
  | .accountSignerKeysCanonical => s.accountSignerKeysCanonical
  | .aspectLocalInvariant _ _ _ => false

end DeTTaState

end Detta
