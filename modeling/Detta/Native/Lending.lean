import Detta.Native.Token

/-!
# Lending vaults

Depositing collateral, borrowing against it at the price of an oracle, and the
liquidation of a position that is worth too little.
-/

namespace Detta

open Kernel

/-- The parameters of a vault. -/
structure LendingConfig where
  collateralAsset : AssetId
  debtAsset : AssetId
  oracleContract : ContractId
  ltvBps : U64
  maxOracleAge : U64
  interestBpsPerBlock : U64
  liquidationThresholdBps : U64
deriving DecidableEq, Repr

/-- The collateral is that of the sender of the transaction, whoever makes the call. -/
def depositCollateral (call : ContractCall) (tx : Transaction) (collateralAsset : AssetId) :
    Kernel ReturnValue := do
  expectArgs tx.args 2
  let asset ← expectAsset tx.args 0
  let amount ← expectAmount tx.args 1
  ensure (asset = collateralAsset) .invalidPoolAsset
  ensure (amount ≠ 0) .invalidArguments
  let collateralLedger ← resolveAssetLedger asset
  let collateralKey := StateKey.collateral tx.target tx.sender asset
  let frame : AuthorizedFrame := ⟨tx.target, .ofList [collateralKey]⟩
  let current ← uintAt collateralKey
  transferAssetBalance call tx collateralLedger tx.sender tx.target asset amount
  stateSet frame collateralKey (← checkedAdd current amount)
  emit tx.target tx.txHash (.collateralDeposited tx.sender asset amount)
  pure .unit

/-- The time of the last price; a number that is not a time counts as zero. -/
def DeTTaState.oracleTimestamp (s : DeTTaState) (contract : ContractId) (asset : AssetId) : U64 :=
  (Word.ofNat? 64 (s.uintAt (.oracleTimestamp contract asset)).val).getD 0

/-- The price of the collateral, if it is recent enough. -/
def freshLendingCollateralPrice (config : LendingConfig) : Kernel Amount := do
  let oracleTimestamp ← read fun s => s.oracleTimestamp config.oracleContract config.collateralAsset
  let height ← read fun s => s.height
  ensure (height ≤ oracleTimestamp.saturatingAdd config.maxOracleAge) .staleOraclePrice
  let price ← uintAt (.oraclePrice config.oracleContract config.collateralAsset)
  ensure (price ≠ 0) .staleOraclePrice
  pure price

/-- The debt that collateral allows at a price, in hundredths of a percent of its value. -/
def lendingDebtLimit (collateral price : Amount) (bps : U64) : Kernel Amount := do
  let value ← checkedMul collateral price
  let scaled ← checkedMul value bps.toU128
  pure (scaled.div 10000)

def divCeil (numerator denominator : Amount) : Kernel Amount := do
  ensure (denominator ≠ 0) .arithmeticOverflow
  let value ← checkedAdd numerator (denominator.saturatingSub 1)
  pure (value.div denominator)

/-- Add the interest since the last time, and return the debt with it. -/
def accrueLendingDebt (frame : AuthorizedFrame) (contract : ContractId) (borrower : Principal)
    (config : LendingConfig) : Kernel Amount := do
  let debtKey := StateKey.debt contract borrower config.debtAsset
  let accrualKey := StateKey.debtLastAccrualHeight contract borrower config.debtAsset
  let currentDebt ← uintAt debtKey
  let last ← uintAt accrualKey
  let lastHeight ← okOr (Word.ofNat? 64 last.val) .arithmeticOverflow
  let height ← read fun s => s.height
  let elapsed := height.saturatingSub lastHeight
  let perBlock ← checkedMul currentDebt config.interestBpsPerBlock.toU128
  let scaled ← checkedMul perBlock elapsed.toU128
  let nextDebt ← checkedAdd currentDebt (scaled.div 10000)
  onlyIf (nextDebt ≠ currentDebt) (stateSet frame debtKey nextDebt)
  stateSet frame accrualKey height.toU128
  pure nextDebt

def borrow (call : ContractCall) (tx : Transaction) (msgSender : Principal)
    (config : LendingConfig) : Kernel ReturnValue := do
  expectArgs tx.args 2
  let asset ← expectAsset tx.args 0
  let amount ← expectAmount tx.args 1
  ensure (asset = config.debtAsset) .invalidPoolAsset
  ensure (amount ≠ 0) .invalidArguments
  let price ← freshLendingCollateralPrice config
  let collateral ← uintAt (.collateral tx.target msgSender config.collateralAsset)
  let debtKey := StateKey.debt tx.target msgSender config.debtAsset
  let accrualKey := StateKey.debtLastAccrualHeight tx.target msgSender config.debtAsset
  let frame : AuthorizedFrame := ⟨tx.target, .ofList [debtKey, accrualKey]⟩
  let currentDebt ← accrueLendingDebt frame tx.target msgSender config
  let nextDebt ← checkedAdd currentDebt amount
  let maxDebt ← lendingDebtLimit collateral price config.ltvBps
  ensure (nextDebt ≤ maxDebt) .insufficientCollateral
  let debtLedger ← resolveAssetLedger config.debtAsset
  transferAssetBalance call tx debtLedger tx.target msgSender config.debtAsset amount
  stateSet frame debtKey nextDebt
  emit tx.target tx.txHash (.borrowed msgSender asset amount)
  pure .unit

/-- The smaller of two amounts. -/
def minAmount (a b : Amount) : Amount := if a ≤ b then a else b

/-- What is left of a position after a liquidation: its debt, and the part of it
    that is written off because no collateral is left. -/
def settleDebt (frame : AuthorizedFrame) (badDebtKey : StateKey) (config : LendingConfig)
    (price collateralAfter debtAfter : Amount) : Kernel (Amount × Amount) :=
  if collateralAfter = 0 ∧ debtAfter ≠ 0 then do
    let currentBadDebt ← uintAt badDebtKey
    stateSet frame badDebtKey (← checkedAdd currentBadDebt debtAfter)
    pure (0, debtAfter)
  else do
    let maxDebtAfter ← lendingDebtLimit collateralAfter price config.ltvBps
    ensure (debtAfter ≤ maxDebtAfter) .insufficientCollateral
    pure (debtAfter, 0)

def liquidate (call : ContractCall) (tx : Transaction) (msgSender : Principal)
    (config : LendingConfig) : Kernel ReturnValue := do
  expectArgs tx.args 3
  let borrower ← expectPrincipal tx.args 0
  let asset ← expectAsset tx.args 1
  let repayAmount ← expectAmount tx.args 2
  ensure (asset = config.debtAsset ∧ repayAmount ≠ 0) .invalidArguments
  let price ← freshLendingCollateralPrice config
  let debtKey := StateKey.debt tx.target borrower config.debtAsset
  let accrualKey := StateKey.debtLastAccrualHeight tx.target borrower config.debtAsset
  let collateralKey := StateKey.collateral tx.target borrower config.collateralAsset
  let badDebtKey := StateKey.badDebt tx.target config.debtAsset
  let frame : AuthorizedFrame :=
    ⟨tx.target, .ofList [debtKey, accrualKey, collateralKey, badDebtKey]⟩
  let debt ← accrueLendingDebt frame tx.target borrower config
  ensure (debt ≠ 0) .insufficientCollateral
  let collateral ← uintAt collateralKey
  let liquidationThreshold ← lendingDebtLimit collateral price config.liquidationThresholdBps
  ensure (liquidationThreshold < debt) .insufficientCollateral
  let repaidDebt := minAmount repayAmount debt
  let requestedSeize ← divCeil repaidDebt price
  let seizedCollateral := minAmount requestedSeize collateral
  let collateralAfter := collateral.saturatingSub seizedCollateral
  let settled ← settleDebt frame badDebtKey config price collateralAfter
    (debt.saturatingSub repaidDebt)
  let debtAfter := settled.1
  let remainingBadDebt := settled.2
  let debtLedger ← resolveAssetLedger config.debtAsset
  let collateralLedger ← resolveAssetLedger config.collateralAsset
  transferAssetBalance call tx debtLedger msgSender tx.target config.debtAsset repaidDebt
  onlyIf (seizedCollateral ≠ 0)
    (transferAssetBalance call tx collateralLedger tx.target msgSender config.collateralAsset
      seizedCollateral)
  stateSet frame debtKey debtAfter
  stateSet frame collateralKey collateralAfter
  let found ← read fun s => s.contracts[tx.target]?
  let record ← okOr found .contractNotFound
  check (fun s => s.lendingInvariantsHold record) .invariantViolation
  emit tx.target tx.txHash
    (.liquidated borrower msgSender asset repaidDebt config.collateralAsset seizedCollateral
      remainingBadDebt)
  pure (.uInt repaidDebt)

end Detta
