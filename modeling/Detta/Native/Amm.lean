import Detta.Native.Token

/-!
# Liquidity pools

The methods of a pool of two assets. A pool keeps its own count of what it holds
(its reserves), next to the balances that the ledgers of the two assets keep for it.
-/

namespace Detta

open Kernel

def addLiquidity (call : ContractCall) (tx : Transaction) (msgSender : Principal)
    (assetA assetB : AssetId) : Kernel ReturnValue := do
  expectArgs tx.args 2
  let amountA ← expectAmount tx.args 0
  let amountB ← expectAmount tx.args 1
  ensure (amountA ≠ 0 ∧ amountB ≠ 0) .invalidArguments
  let mintedLp ← checkedAdd amountA amountB
  let reserveAKey := StateKey.reserve tx.target assetA
  let reserveBKey := StateKey.reserve tx.target assetB
  let lpSupplyKey := StateKey.lpSupply tx.target
  let lpBalanceKey := StateKey.lpBalance tx.target msgSender
  let assetALedger ← resolveAssetLedger assetA
  let assetBLedger ← resolveAssetLedger assetB
  let frame : AuthorizedFrame :=
    ⟨tx.target, .ofList [reserveAKey, reserveBKey, lpSupplyKey, lpBalanceKey]⟩
  -- all four are read before the assets move
  let reserveA ← uintAt reserveAKey
  let reserveB ← uintAt reserveBKey
  let lpSupply ← uintAt lpSupplyKey
  let lpBalance ← uintAt lpBalanceKey
  transferAssetBalance call tx assetALedger msgSender tx.target assetA amountA
  transferAssetBalance call tx assetBLedger msgSender tx.target assetB amountB
  stateSet frame reserveAKey (← checkedAdd reserveA amountA)
  stateSet frame reserveBKey (← checkedAdd reserveB amountB)
  stateSet frame lpSupplyKey (← checkedAdd lpSupply mintedLp)
  stateSet frame lpBalanceKey (← checkedAdd lpBalance mintedLp)
  check (fun s => s.ammInvariantsHold tx.target) .invariantViolation
  emit tx.target tx.txHash (.liquidityAdded msgSender assetA amountA assetB amountB mintedLp)
  pure (.uInt mintedLp)

/-- What is left of an amount after a fee in hundredths of a percent. -/
def amountAfterFee (amount : Amount) (feeBps : U64) : Kernel Amount := do
  ensure (feeBps ≤ 10000) .invalidArguments
  let value ← checkedMul amount ((10000 : Amount).saturatingSub feeBps.toU128)
  pure (value.div 10000)

/-- The other asset of a pool. -/
def outputAssetOf (inputAsset assetA assetB : AssetId) : Option AssetId :=
  if inputAsset = assetA then some assetB
  else if inputAsset = assetB then some assetA
  else none

def swap (call : ContractCall) (tx : Transaction) (msgSender : Principal)
    (assetA assetB : AssetId) (swapFeeBps : U64) : Kernel ReturnValue := do
  expectArgs tx.args 3
  let inputAsset ← expectAsset tx.args 0
  let amountIn ← expectAmount tx.args 1
  let minOutput ← expectAmount tx.args 2
  ensure (amountIn ≠ 0) .invalidArguments
  let outputAsset ← okOr (outputAssetOf inputAsset assetA assetB) .invalidPoolAsset
  let inputKey := StateKey.reserve tx.target inputAsset
  let outputKey := StateKey.reserve tx.target outputAsset
  let feeKey := StateKey.ammFeeCollected tx.target inputAsset
  let inputLedger ← resolveAssetLedger inputAsset
  let outputLedger ← resolveAssetLedger outputAsset
  let frame : AuthorizedFrame := ⟨tx.target, .ofList [inputKey, outputKey, feeKey]⟩
  let reserveIn ← uintAt inputKey
  let reserveOut ← uintAt outputKey
  ensure (reserveIn ≠ 0 ∧ reserveOut ≠ 0) .insufficientLiquidity
  let amountInWithFee ← amountAfterFee amountIn swapFeeBps
  let feeAmount := amountIn.saturatingSub amountInWithFee
  let numerator ← checkedMul reserveOut amountInWithFee
  let denominator ← checkedAdd reserveIn amountInWithFee
  let amountOut := numerator.div denominator
  ensure (amountOut ≠ 0 ∧ amountOut ≤ reserveOut) .insufficientLiquidity
  ensure (minOutput ≤ amountOut) .slippageExceeded
  transferAssetBalance call tx inputLedger msgSender tx.target inputAsset amountIn
  transferAssetBalance call tx outputLedger tx.target msgSender outputAsset amountOut
  stateSet frame inputKey (← checkedAdd reserveIn amountIn)
  onlyIf (feeAmount ≠ 0) do
    let currentFee ← uintAt feeKey
    stateSet frame feeKey (← checkedAdd currentFee feeAmount)
  stateSet frame outputKey (reserveOut.saturatingSub amountOut)
  check (fun s => s.ammInvariantsHold tx.target) .invariantViolation
  emit tx.target tx.txHash
    (.swap msgSender inputAsset outputAsset amountIn feeAmount amountOut)
  pure (.uInt amountOut)

end Detta
