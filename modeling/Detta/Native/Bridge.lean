import Detta.Native.Token

/-!
# Oracles and bridges

The method of a price oracle, and the two directions of a bridge: an asset is
locked with the bridge when a message to another chain is queued, and minted when
the message of another chain is redeemed.
-/

namespace Detta

open Kernel

def submitPrice (tx : Transaction) (msgSender : Principal) (oracleAsset : AssetId)
    (maxAge : U64) : Kernel ReturnValue := do
  expectArgs tx.args 3
  let asset ← expectAsset tx.args 0
  let price ← expectAmount tx.args 1
  let timestamp ← expectAmount tx.args 2
  let timestamp ← okOr (Word.ofNat? 64 timestamp.val) .arithmeticOverflow
  ensure (asset = oracleAsset) .invalidPoolAsset
  ensure (price ≠ 0) .invariantViolation
  let height ← read fun s => s.height
  ensure (height ≤ timestamp.saturatingAdd maxAge) .staleOraclePrice
  requireOracleUpdater tx.target msgSender
  let priceKey := StateKey.oraclePrice tx.target asset
  let timestampKey := StateKey.oracleTimestamp tx.target asset
  let frame : AuthorizedFrame := ⟨tx.target, .ofList [priceKey, timestampKey]⟩
  stateSet frame priceKey price
  stateSet frame timestampKey timestamp.toU128
  emit tx.target tx.txHash (.priceUpdated msgSender asset price timestamp)
  pure .unit

def queueBridgeMessage (call : ContractCall) (tx : Transaction) (msgSender : Principal) :
    Kernel ReturnValue := do
  expectArgs tx.args 6
  let destinationChain ← expectText tx.args 0
  let destinationContract ← expectText tx.args 1
  let messageId ← expectText tx.args 2
  let recipient ← expectPrincipal tx.args 3
  let asset ← expectAsset tx.args 4
  let amount ← expectAmount tx.args 5
  ensure (amount ≠ 0) .invalidArguments
  let used ← read fun s => s.outboundMessageIds.contains messageId
  ensure (used = false) .outboundMessageReplay
  let assetLedger ← resolveAssetLedger asset
  transferAssetBalance call tx assetLedger msgSender tx.target asset amount
  appendOutbox tx destinationChain destinationContract messageId recipient asset amount
  pure .unit

def redeemBridgeMessage (env : Env) (tx : Transaction) (sourceChain : ChainId) :
    Kernel ReturnValue := do
  expectArgs tx.args 5
  let messageId ← expectText tx.args 0
  let recipient ← expectPrincipal tx.args 1
  let asset ← expectAsset tx.args 2
  let amount ← expectAmount tx.args 3
  let certificate ← expectCertificate tx.args 4
  ensure (amount ≠ 0) .invalidArguments
  let chainId ← read fun s => s.chainId
  verifyBridgeFinalityProof env certificate
    ⟨chainId, tx.target, sourceChain, messageId, recipient, asset, amount⟩
  let consumedKey := StateKey.bridgeMessageConsumed tx.target messageId
  let consumed ← uintAt consumedKey
  ensure (consumed = 0) .bridgeMessageReplay
  let assetLedger ← resolveAssetLedger asset
  let frame : AuthorizedFrame := ⟨tx.target, .ofList [consumedKey]⟩
  mintBridgeAssetBalance assetLedger recipient asset amount
  stateSet frame consumedKey 1
  emit tx.target tx.txHash (.bridgeMessageRedeemed messageId recipient asset amount)
  pure .unit

end Detta
