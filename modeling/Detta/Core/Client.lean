import Detta.Core.Persistent

/-!
# Transactions of clients

A client signs a transaction with a key, and the node that it submits the transaction to checks
the signature, and that the key is registered for the sender (`submitSignedTransaction`). Then
the node itself marks the transaction as signed. This is the only place where a signature of a
transaction is looked at.
-/

namespace Detta

open Json

/-- The key may sign for the account. -/
def DeTTaState.hasActiveAccountKey (s : DeTTaState) (account : Principal)
    (publicKeyHex : String) : Bool :=
  isCanonicalPublicKeyHex publicKeyHex &&
    (s.registry[GrantKey.accountSigner account publicKeyHex]?).any fun grant =>
      grant.subject == account && grant.active && !grant.revoked &&
        grant.rights.contains .submitTransaction

structure SignedClientTransaction where
  transaction : Transaction
  publicKeyHex : String
  signatureHex : String
deriving DecidableEq, Repr

namespace SignedClientTransaction

/-- What is signed: all of the transaction, apart from the mark. -/
def signingPayload (h : Hashing) (tx : Transaction) : Bytes :=
  h.canonicalBytes (obj [("chain_id", str tx.chainId), ("tx_hash", str tx.txHash),
    ("sender", str tx.sender), ("nonce", word tx.nonce),
    ("valid_until_height", opt word tx.validUntilHeight), ("target", str tx.target),
    ("method", tx.method.json), ("args", list Argument.json tx.args),
    ("budget", word tx.budget)])

variable (env : ProtocolEnv) (signed : SignedClientTransaction)

def verify : Bool :=
  if signed.publicKeyHex ≠ signed.publicKeyHex.toLower ∨
      signed.signatureHex ≠ signed.signatureHex.toLower then false
  else
    match decodeHexArray 32 signed.publicKeyHex, decodeHexArray 64 signed.signatureHex with
    | some key, some signature =>
      env.isVerifyingKey key &&
        env.verifies key (signingPayload env.hashing signed.transaction) signature
    | _, _ => false

def intoAuthorizedTransaction (s : DeTTaState) : Except MempoolError Transaction :=
  if signed.verify env = false then .error .invalidSignature
  else if s.hasActiveAccountKey signed.transaction.sender signed.publicKeyHex = false then
    .error (.unauthorizedSigner signed.transaction.sender signed.publicKeyHex)
  else .ok { signed.transaction with signatureOk := true }

end SignedClientTransaction

/-- What a node does with the request of a client to submit a signed transaction. -/
def PersistentNode.submitSignedTransaction (env : NodeEnv) (signed : SignedClientTransaction) :
    PersistentNode Unit := do
  let n ← get
  match signed.intoAuthorizedTransaction env.toProtocolEnv n.node.state with
  | .error error => throw (.mempool error)
  | .ok tx => submitTransaction env tx

end Detta
