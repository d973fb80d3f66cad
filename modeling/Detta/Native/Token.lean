import Detta.Core.Kernel

/-!
# Tokens, and the settlement of assets

The methods of native token contracts, and how other contracts move an asset: by
writing the balances of a native token themselves, or by a call of the aspect
contract that keeps the asset.

A method that may call other contracts takes the way to call them as an argument
(`call`).
-/

namespace Detta

open Kernel

/-- Move an amount between two balances of a native token. -/
def transferNativeAssetBalance (tokenContract : ContractId) (sender receiver : Principal)
    (asset : AssetId) (amount : Amount) : Kernel Unit := do
  let fromKey := StateKey.balance tokenContract sender asset
  let toKey := StateKey.balance tokenContract receiver asset
  let frame : AuthorizedFrame := ⟨tokenContract, .ofList [fromKey, toKey]⟩
  let fromBalance ← uintAt fromKey
  ensure (amount ≤ fromBalance) .insufficientBalance
  let toBalance ← uintAt toKey
  let newTo ← checkedAdd toBalance amount
  stateSet frame fromKey (fromBalance.saturatingSub amount)
  stateSet frame toKey newTo
  check (fun s => s.tokenInvariantsHold tokenContract asset) .invariantViolation

/-- Create an amount of a native token. -/
def mintNativeAssetBalance (tokenContract : ContractId) (receiver : Principal) (asset : AssetId)
    (amount : Amount) : Kernel Unit := do
  let totalKey := StateKey.totalSupply tokenContract asset
  let toKey := StateKey.balance tokenContract receiver asset
  let frame : AuthorizedFrame := ⟨tokenContract, .ofList [totalKey, toKey]⟩
  let totalSupply ← uintAt totalKey
  let toBalance ← uintAt toKey
  let newTotalSupply ← checkedAdd totalSupply amount
  let newTo ← checkedAdd toBalance amount
  stateSet frame totalKey newTotalSupply
  stateSet frame toKey newTo
  check (fun s => s.tokenInvariantsHold tokenContract asset) .invariantViolation

/-! ## Methods of a token -/

def transfer (tx : Transaction) (msgSender : Principal) : Kernel ReturnValue := do
  expectArgs tx.args 3
  let receiver ← expectPrincipal tx.args 0
  let asset ← expectAsset tx.args 1
  let amount ← expectAmount tx.args 2
  transferNativeAssetBalance tx.target msgSender receiver asset amount
  emit tx.target tx.txHash (.transfer msgSender receiver asset amount)
  pure .unit

def approve (tx : Transaction) (msgSender : Principal) : Kernel ReturnValue := do
  expectArgs tx.args 3
  let spender ← expectPrincipal tx.args 0
  let asset ← expectAsset tx.args 1
  let amount ← expectAmount tx.args 2
  write fun s => s.grant (.allowance tx.target msgSender spender asset)
    (Grant.allowance msgSender spender amount)
  emit tx.target tx.txHash (.approval msgSender spender asset amount)
  pure .unit

def transferFrom (tx : Transaction) (msgSender : Principal) : Kernel ReturnValue := do
  expectArgs tx.args 4
  let owner ← expectPrincipal tx.args 0
  let receiver ← expectPrincipal tx.args 1
  let asset ← expectAsset tx.args 2
  let amount ← expectAmount tx.args 3
  consumeAllowance tx.target owner msgSender asset amount
  transferNativeAssetBalance tx.target owner receiver asset amount
  emit tx.target tx.txHash (.transfer owner receiver asset amount)
  pure .unit

def permit (tx : Transaction) : Kernel ReturnValue := do
  expectArgs tx.args 5
  let owner ← expectPrincipal tx.args 0
  let spender ← expectPrincipal tx.args 1
  let asset ← expectAsset tx.args 2
  let amount ← expectAmount tx.args 3
  let certificate ← expectCertificate tx.args 4
  usePermitCertificate tx.target owner spender asset amount certificate
  write fun s => s.grant (.allowance tx.target owner spender asset)
    (Grant.allowance owner spender amount)
  emit tx.target tx.txHash (.approval owner spender asset amount)
  pure .unit

/-! ## Asset ledgers -/

/-- Where the balances of an asset are kept. -/
inductive AssetLedger where
  | nativeToken (contract : ContractId)
  | aspectToken (contract : ContractId)
deriving DecidableEq, Repr

/-- The projection by which an aspect contract moves its asset. -/
def erc20Transfer : Method := .other "ERC20-transfer"

/-- A contract deployed from an aspect module. -/
def ContractKind.isAspectModule : ContractKind → Bool
  | aspectModule _ _ _ _ _ => true
  | _ => false

namespace DeTTaState

/-- A total supply of an asset, of a token contract. -/
def nativeSupplyOf (s : DeTTaState) (asset : AssetId) : StateKey → Option ContractId
  | .totalSupply contract supplyAsset =>
    if supplyAsset = asset ∧ (s.contracts[contract]?.map (·.kind)) = some .token then some contract
    else none
  | _ => none

/-- An aspect contract that keeps an asset is called like the asset. -/
def aspectLedgerOf (s : DeTTaState) (asset : AssetId) : Option ContractId :=
  match s.contracts[asset]? with
  | some record =>
    if record.kind.isAspectModule && record.exportedMethods.contains erc20Transfer then some asset
    else none
  | none => none

/-- The only ledger of an asset. -/
def resolveAssetLedger (s : DeTTaState) (asset : AssetId) : Option AssetLedger :=
  match s.storage.keys.filterMap (s.nativeSupplyOf asset), s.aspectLedgerOf asset with
  | [contract], none => some (.nativeToken contract)
  | [], some contract => some (.aspectToken contract)
  | _, _ => none

end DeTTaState

namespace Kernel

def resolveAssetLedger (asset : AssetId) : Kernel AssetLedger := do
  let ledger ← read fun s => s.resolveAssetLedger asset
  okOr ledger .invalidPoolAsset

end Kernel

/-- The call by which a contract moves an asset of an aspect contract: it is made
    in the name of the account that pays. -/
def settlementTx (tx : Transaction) (aspectContract : ContractId) (sender receiver : Principal)
    (amount : Amount) : Transaction where
  chainId := tx.chainId
  txHash := tx.txHash ++ ":asset-transfer:" ++ aspectContract ++ ":" ++ sender ++ ":" ++ receiver
  sender := sender
  nonce := tx.nonce
  validUntilHeight := tx.validUntilHeight
  target := aspectContract
  method := erc20Transfer
  args := [.principal receiver, .amount amount]
  signatureOk := true
  budget := tx.budget

def transferAspectAssetBalance (call : ContractCall) (tx : Transaction)
    (aspectContract : ContractId) (sender receiver : Principal) (amount : Amount) :
    Kernel Unit := do
  let found ← read fun s => s.contracts[aspectContract]?
  let contract ← okOr found .contractNotFound
  ensure (contract.kind.isAspectModule = true) .invalidPoolAsset
  ensure (contract.exportedMethods.contains erc20Transfer = true) .methodNotExported
  let _ ← call (settlementTx tx aspectContract sender receiver amount) sender

/-- Move an amount of an asset on its ledger. -/
def transferAssetBalance (call : ContractCall) (tx : Transaction) (ledger : AssetLedger)
    (sender receiver : Principal) (asset : AssetId) (amount : Amount) : Kernel Unit :=
  match ledger with
  | .nativeToken contract => transferNativeAssetBalance contract sender receiver asset amount
  | .aspectToken contract => transferAspectAssetBalance call tx contract sender receiver amount

/-- Create an amount of an asset; only native tokens can be minted, and `e` says
    what is wrong with the others. -/
def mintOnLedger (e : ExecutionError) (ledger : AssetLedger) (receiver : Principal)
    (asset : AssetId) (amount : Amount) : Kernel Unit :=
  match ledger with
  | .nativeToken contract => mintNativeAssetBalance contract receiver asset amount
  | .aspectToken _ => throw e

def mintAssetBalance : AssetLedger → Principal → AssetId → Amount → Kernel Unit :=
  mintOnLedger .invalidPoolAsset

def mintBridgeAssetBalance : AssetLedger → Principal → AssetId → Amount → Kernel Unit :=
  mintOnLedger .invalidBridgeMessage

end Detta
