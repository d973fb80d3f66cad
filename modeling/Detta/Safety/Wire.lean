import Detta.Base.Check
import Detta.Core.Wire
import Detta.Safety.Commitment

/-!
# Messages in bytes

Two forms of a message have to be unambiguous: the bytes that are sent, and the bytes that a
validator signs. A message is sent after a header with its length, so that a reader of a stream
knows where it ends; the parts of a signed payload stand after their lengths, so that no part
can be taken for another one.

* `decodePayload_eq_ok`: what is accepted is exactly what is written.
* `readWireMessage_append`: one message is read, and nothing behind it.
* `payload_inj`: a signed payload determines its parts.
-/

namespace Detta

/-! ## Payloads -/

/-- What stands before a payload. -/
def wireHeader (version : U16) (length : ℕ) : Bytes :=
  protocolMagic ++ bigEndian 2 version.val ++ bigEndian 4 length

variable {bytes : Bytes}

@[simp] theorem length_wireHeader (version : U16) (length : ℕ) :
    (wireHeader version length).length = headerLen := by
  simp [wireHeader, protocolMagic, headerLen]

theorem maxPayloadLen_lt : maxPayloadLen < 256 ^ 4 := by decide

theorem encodePayload_eq_ok {version : U16} {payload : Bytes} :
    encodePayload version payload = .ok bytes ↔
      payload.length ≤ maxPayloadLen ∧ wireHeader version payload.length ++ payload = bytes := by
  rw [encodePayload, ite_error_eq_ok, not_lt, and_congr_right_iff]
  intro hshort
  -- a payload that is short enough has a length of 32 bits
  have hword : Word.ofNat? 32 payload.length = some (Word.ofNat 32 payload.length) :=
    Word.ofNat?_eq_some.2 (Word.val_ofNat_of_lt (hshort.trans_lt maxPayloadLen_lt))
  rw [hword]
  simp only [Word.ofNat?_eq_some.1 hword, Except.ok.injEq, wireHeader]

theorem declaredLength_wireHeader_append (version : U16) {length : ℕ}
    (h : length ≤ maxPayloadLen) (rest : Bytes) :
    declaredLength (wireHeader version length ++ rest) = length := by
  have hlength : length < 256 ^ 4 := h.trans_lt maxPayloadLen_lt
  have hparts : (wireHeader version length ++ rest).drop 6 = bigEndian 4 length ++ rest := by
    rw [wireHeader, List.append_assoc]
    exact List.drop_left' (by simp [protocolMagic])
  rw [declaredLength, hparts, List.take_left' (length_bigEndian 4 length),
    ofBigEndian_bigEndian hlength]

/-- A header is what it says. -/
theorem eq_wireHeader_append {version : U16} {length : ℕ} (hlong : headerLen ≤ bytes.length)
    (hmagic : bytes.take 4 = protocolMagic)
    (hversion : ofBigEndian ((bytes.drop 4).take 2) = version.val)
    (hdeclared : declaredLength bytes = length) :
    wireHeader version length ++ bytes.drop headerLen = bytes := by
  rw [headerLen] at hlong
  have htwo : bigEndian 2 version.val = (bytes.drop 4).take 2 := by
    rw [← hversion]
    convert bigEndian_ofBigEndian ((bytes.drop 4).take 2)
    rw [List.length_take, List.length_drop]
    omega
  have hfour : bigEndian 4 length = (bytes.drop 6).take 4 := by
    rw [← hdeclared, declaredLength]
    convert bigEndian_ofBigEndian ((bytes.drop 6).take 4)
    rw [List.length_take, List.length_drop]
    omega
  calc wireHeader version length ++ bytes.drop headerLen
      = bytes.take 4 ++ ((bytes.drop 4).take 2 ++
          ((bytes.drop 6).take 4 ++ bytes.drop headerLen)) := by
        simp only [wireHeader, hmagic, htwo, hfour, List.append_assoc]
    _ = bytes.take 4 ++ ((bytes.drop 4).take 2 ++ bytes.drop 6) := by
        have hsix := List.take_append_drop 4 (bytes.drop 6)
        rw [List.drop_drop] at hsix
        rw [headerLen, hsix]
    _ = bytes := by
        conv_rhs => rw [← List.take_append_drop 4 bytes, ← List.take_append_drop 2 (bytes.drop 4)]
        rw [List.drop_drop]

theorem decodePayload_eq_ok {payload : Bytes} :
    decodePayload bytes = .ok payload ↔
      encodePayload currentProtocolVersion payload = .ok bytes := by
  simp only [decodePayload, ite_error_eq_ok, encodePayload_eq_ok, not_lt, not_not, Except.ok.injEq]
  constructor
  · rintro ⟨hlong, hmagic, hversion, hshort, hdeclared, rfl⟩
    have hlength : (bytes.drop headerLen).length = declaredLength bytes := by
      rw [List.length_drop, hdeclared]
    rw [hlength]
    exact ⟨hshort, eq_wireHeader_append hlong hmagic hversion rfl⟩
  · rintro ⟨hshort, rfl⟩
    have hdeclared := declaredLength_wireHeader_append currentProtocolVersion hshort payload
    refine ⟨by simp, rfl, rfl, by rwa [hdeclared], ?_, List.drop_left' (by simp)⟩
    rw [hdeclared, List.length_append, length_wireHeader, Nat.add_sub_cancel_left]

/-! ## Streams -/

namespace WireEnv

variable {env : WireEnv}

variable {message : ProtocolMessage} {wire : Bytes} {messages : List ProtocolMessage}

theorem encodeMessage_eq_ok :
    env.encodeMessage message = .ok wire ↔
      ∃ payload, env.messageBytes message = some payload ∧
        payload.length ≤ maxPayloadLen ∧
        wireHeader currentProtocolVersion payload.length ++ payload = wire := by
  unfold encodeMessage
  cases env.messageBytes message with
  | none => simp
  | some payload => simp [encodePayload_eq_ok]

theorem readExact_append (env : WireEnv) {bytes : Bytes} {n : ℕ} (h : bytes.length = n) (rest : Bytes) :
    env.readExact n (bytes ++ rest) = .ok bytes rest := by
  obtain rfl := h
  simp [readExact, ensure, bind, EStateM.bind, get_apply, set_apply, pure, EStateM.pure]

/-- JSON that is written is read back. -/
def ReadsBack (env : WireEnv) : Prop :=
  ∀ message payload, env.messageBytes message = some payload →
    env.readMessage payload = some message

theorem decodeMessage_of_encodeMessage (hjson : env.ReadsBack)
    (h : env.encodeMessage message = .ok wire) : env.decodeMessage wire = .ok message := by
  obtain ⟨payload, hpayload, hencoded⟩ := encodeMessage_eq_ok.1 h
  rw [decodeMessage, decodePayload_eq_ok.2 (encodePayload_eq_ok.2 hencoded)]
  simp only [bind, Except.bind, hjson message payload hpayload]

/-- A message is read from the front of a stream, and nothing behind it. -/
theorem readWireMessage_append (hjson : env.ReadsBack) (h : env.encodeMessage message = .ok wire)
    (rest : Bytes) : env.readWireMessage (wire ++ rest) = .ok message rest := by
  have hdecode := decodeMessage_of_encodeMessage hjson h
  obtain ⟨payload, hpayload, hshort, rfl⟩ := encodeMessage_eq_ok.1 h
  have hdeclared : declaredLength (wireHeader currentProtocolVersion payload.length) =
      payload.length := by
    simpa using declaredLength_wireHeader_append currentProtocolVersion hshort []
  have hheader := readExact_append env
    (length_wireHeader currentProtocolVersion payload.length) (payload ++ rest)
  have hbody := readExact_append env (rfl : payload.length = payload.length) rest
  rw [List.append_assoc, readWireMessage]
  simp only [bind, EStateM.bind, hheader, hdeclared, ensure, if_pos hshort, pure, EStateM.pure,
    hbody, hdecode]

theorem readWireMessages_append (hjson : env.ReadsBack) {wires : List Bytes}
    (h : messages.mapM env.encodeMessage = .ok wires) (rest : Bytes) :
    env.readWireMessages messages.length (wires.flatten ++ rest) = .ok messages rest := by
  induction messages generalizing wires with
  | nil =>
    obtain rfl := Except.ok.inj h
    rfl
  | cons message messages ih =>
    rw [List.mapM_cons] at h
    obtain ⟨wire, hwire, h⟩ := exists_of_bind_eq_ok h
    obtain ⟨others, hothers, h⟩ := exists_of_bind_eq_ok h
    obtain rfl := Except.ok.inj h
    rw [List.flatten_cons, List.append_assoc, List.length_cons, readWireMessages]
    simp only [bind, EStateM.bind, readWireMessage_append hjson hwire, ih hothers, pure,
      EStateM.pure]

theorem exists_mapM_encodeMessage
    (h : ∀ message ∈ messages, ∃ payload, env.messageBytes message = some payload ∧
      payload.length ≤ maxPayloadLen) :
    ∃ wires, messages.mapM env.encodeMessage = .ok wires := by
  induction messages with
  | nil => exact ⟨[], rfl⟩
  | cons message messages ih =>
    obtain ⟨⟨payload, hpayload, hshort⟩, hrest⟩ := List.forall_mem_cons.1 h
    obtain ⟨wires, hwires⟩ := ih hrest
    have hwire := encodeMessage_eq_ok.2 ⟨payload, hpayload, hshort, rfl⟩
    exact ⟨_ :: wires, by rw [List.mapM_cons, hwire, hwires]; rfl⟩

theorem wire_framing_unambiguous (env : WireEnv) (hjson : env.ReadsBack) :
    (∀ messages : List ProtocolMessage,
      (∀ message ∈ messages, ∃ payload, env.messageBytes message = some payload ∧
        payload.length ≤ maxPayloadLen) →
      ∃ wires, messages.mapM env.encodeMessage = .ok wires ∧
        ∀ rest, env.readWireMessages messages.length (wires.flatten ++ rest) =
          .ok messages rest) ∧
    ∀ bytes payload, decodePayload bytes = .ok payload ↔
      encodePayload currentProtocolVersion payload = .ok bytes := by
  refine ⟨fun messages hmessages => ?_, fun _ _ => decodePayload_eq_ok⟩
  obtain ⟨wires, hwires⟩ := exists_mapM_encodeMessage hmessages
  exact ⟨wires, hwires, readWireMessages_append hjson hwires⟩

end WireEnv

namespace Requests

/-! Requests for the first chunks of a snapshot without a name, which are written as the number
of chunks. -/

def request (n : U32) : ProtocolMessage := .snapshotChunkRequest ⟨"", 0, n⟩

def env : WireEnv where
  hashing := ⟨fun _ => [], fun _ => [0]⟩
  parseFinalityProof _ := none
  parseModule _ := none
  verifyModule _ := none
  messageBytes
    | .snapshotChunkRequest ⟨root, start, n⟩ =>
      if root = "" ∧ start = 0 then some (bigEndian 4 n.val) else none
    | _ => none
  readSnapshot _ := none
  isVerifyingKey _ := true
  verifies _ _ _ := true
  readMessage bytes := some (request (Word.ofNat 32 (ofBigEndian bytes)))
  unexpectedEof := "failed to fill whole buffer"

theorem readsBack : env.ReadsBack := by
  intro message payload h
  cases message with
  | snapshotChunkRequest r =>
    obtain ⟨root, start, n⟩ := r
    simp only [env] at h
    split at h
    next hroot =>
      obtain ⟨rfl, rfl⟩ := hroot
      obtain rfl := Option.some.inj h
      have hn : Word.ofNat 32 n.val = n := Word.ext (Word.val_ofNat_of_lt n.isLt)
      simp only [env, ofBigEndian_bigEndian (w := 4) n.isLt, hn, request]
    next => cases h
  | _ => cases h

theorem wire_framing_unambiguous_two :
    ∃ wires, [request 1, request 2].mapM env.encodeMessage = .ok wires ∧
      ∀ rest, env.readWireMessages 2 (wires.flatten ++ rest) = .ok [request 1, request 2] rest :=
  (WireEnv.wire_framing_unambiguous env readsBack).1 [request 1, request 2] (by
    intro message hmessage
    rcases List.mem_cons.1 hmessage with rfl | hmessage
    · exact ⟨_, rfl, by decide⟩
    · obtain rfl := List.mem_singleton.1 hmessage
      exact ⟨_, rfl, by decide⟩)

end Requests

/-! ## Signed payloads -/

theorem textBytes_injective : Function.Injective textBytes := fun _ _ h =>
  String.toByteArray_inj.1 (byteArray_toList_injective h)

theorem validatorSignatureDomainPath_injective :
    Function.Injective validatorSignatureDomainPath := by
  intro domain domain' h
  cases domain <;> cases domain' <;> first | rfl | exact absurd h (by decide)

theorem lengthPrefixed_eq (value : Bytes) : lengthPrefixed value = lengthPrefixedWith 4 value := by
  have hlength : (lengthBytes value.length).drop 4 = bigEndian 4 value.length := by
    simp [lengthBytes, bigEndian, Nat.div_div_eq_div_mul]
  rw [lengthPrefixed, lengthPrefixedWith, hlength]

theorem lengthPrefixed_append_inj {a b rest rest' : Bytes} (ha : a.length < 2 ^ 32)
    (hb : b.length < 2 ^ 32) (h : lengthPrefixed a ++ rest = lengthPrefixed b ++ rest') :
    a = b ∧ rest = rest' := by
  rw [lengthPrefixed_eq, lengthPrefixed_eq] at h
  exact lengthPrefixedWith_append_inj ha hb h

/-- What a signature is for. -/
structure SigningContext where
  networkId : String
  chainId : String
  message : ProtocolMessage

namespace SigningContext

/-- The parts are short enough for their lengths; signing stops with a panic otherwise. -/
def Short (env : ProtocolEnv) (context : SigningContext) : Prop :=
  (textBytes context.networkId).length < 2 ^ 32 ∧ (textBytes context.chainId).length < 2 ^ 32 ∧
    ∀ bytes, env.messageBytes context.message = some bytes → bytes.length < 2 ^ 32

def payload (env : ProtocolEnv) (domain : ValidatorSignatureDomain) (context : SigningContext) :
    Except SignatureError Bytes :=
  validatorSigningPayload env domain context.networkId context.chainId context.message

end SigningContext

/-- Different messages have different JSON. -/
def ProtocolEnv.EncodesApart (env : ProtocolEnv) : Prop :=
  ∀ message message' bytes, env.messageBytes message = some bytes →
    env.messageBytes message' = some bytes → message = message'

section Payload

variable {env : ProtocolEnv} {domain domain' : ValidatorSignatureDomain}
  {context context' : SigningContext} {payload : Bytes}

theorem payload_eq_ok :
    context.payload env domain = .ok payload ↔
      ∃ bytes, env.messageBytes context.message = some bytes ∧
        lengthPrefixed (textBytes validatorSignaturePrefix) ++ ([0, 1] ++
          (lengthPrefixed (textBytes (validatorSignatureDomainPath domain)) ++
            (lengthPrefixed (textBytes context.networkId) ++
              (lengthPrefixed (textBytes context.chainId) ++ (lengthPrefixed bytes ++ []))))) =
          payload := by
  unfold SigningContext.payload validatorSigningPayload
  cases env.messageBytes context.message with
  | none => simp
  | some bytes => simp

theorem length_domainPath_lt (domain : ValidatorSignatureDomain) :
    (textBytes (validatorSignatureDomainPath domain)).length < 2 ^ 32 := by
  cases domain <;> decide +kernel

/-- A payload determines its parts. -/
theorem payload_inj (hjson : env.EncodesApart) (hshort : context.Short env)
    (hshort' : context'.Short env) (h : context.payload env domain = .ok payload)
    (h' : context'.payload env domain' = .ok payload) : domain = domain' ∧ context = context' := by
  obtain ⟨bytes, hbytes, rfl⟩ := payload_eq_ok.1 h
  obtain ⟨bytes', hbytes', heq⟩ := payload_eq_ok.1 h'
  obtain ⟨hnetwork, hchain, hmessage⟩ := hshort
  obtain ⟨hnetwork', hchain', hmessage'⟩ := hshort'
  obtain ⟨-, heq⟩ := lengthPrefixed_append_inj (by decide +kernel) (by decide +kernel) heq
  have heq := List.append_cancel_left heq
  obtain ⟨hdomain, heq⟩ :=
    lengthPrefixed_append_inj (length_domainPath_lt _) (length_domainPath_lt _) heq
  obtain ⟨hnetworks, heq⟩ := lengthPrefixed_append_inj hnetwork' hnetwork heq
  obtain ⟨hchains, heq⟩ := lengthPrefixed_append_inj hchain' hchain heq
  obtain ⟨rfl, -⟩ :=
    lengthPrefixed_append_inj (hmessage' _ hbytes') (hmessage _ hbytes) heq
  have hmessages := hjson _ _ _ hbytes hbytes'
  obtain ⟨networkId, chainId, message⟩ := context
  obtain ⟨networkId', chainId', message'⟩ := context'
  obtain rfl : networkId' = networkId := textBytes_injective hnetworks
  obtain rfl : chainId' = chainId := textBytes_injective hchains
  obtain rfl : message = message' := hmessages
  exact ⟨(validatorSignatureDomainPath_injective (textBytes_injective hdomain)).symm, rfl⟩

end Payload

/-! ## Signatures -/

namespace Signed

variable {env : ProtocolEnv} {signed : Signed ProtocolMessage} {publicKey : ValidatorPublicKey}

/-- What the signature of a message is for. -/
def context (signed : Signed ProtocolMessage) : SigningContext :=
  ⟨signed.networkId, signed.chainId, signed.message⟩

theorem verifyPayload_eq_ok :
    signed.verifyPayload env publicKey = .ok () ↔
      ∃ key payload signature, decodeHexArray 32 publicKey.publicKeyHex = some key ∧
        env.isVerifyingKey key = true ∧ decodeHexArray 64 signed.signatureHex = some signature ∧
        signed.context.payload env signed.domain = .ok payload ∧
        env.verifies key payload signature = true := by
  have hpayload : validatorSigningPayload env signed.domain signed.networkId signed.chainId
      signed.message = signed.context.payload env signed.domain := rfl
  unfold verifyPayload
  rw [hpayload]
  cases decodeHexArray 32 publicKey.publicKeyHex with
  | none => simp
  | some key =>
    dsimp only
    rw [ite_error_eq_ok, Bool.not_eq_false]
    cases decodeHexArray 64 signed.signatureHex with
    | none => simp
    | some signature =>
      cases signed.context.payload env signed.domain with
      | error error => simp
      | ok payload => by_cases hverifies : env.verifies key payload signature <;> simp [hverifies]

theorem verify_eq_ok {networkId chainId : String} :
    signed.verify env networkId chainId publicKey = .ok () ↔
      signed.networkId = networkId ∧ signed.chainId = chainId ∧
        signed.signer = publicKey.validatorId ∧ signed.keyId = publicKey.keyId ∧
        expectedSignatureDomain signed.message.outline = .ok signed.domain ∧
        (∀ claimedSigner, signed.message.claimedMessageSigner = some claimedSigner →
          claimedSigner = signed.signer) ∧
        signed.verifyPayload env publicKey = .ok () := by
  simp only [verify, ite_error_eq_ok, not_not]
  refine and_congr_right fun _ => and_congr_right fun _ => and_congr_right fun _ =>
    and_congr_right fun _ => ?_
  cases expectedSignatureDomain signed.message.outline with
  | error error => simp
  | ok domain =>
    dsimp only
    rw [ite_error_eq_ok, not_not, Except.ok.injEq, eq_comm]
    refine and_congr_right fun _ => ?_
    cases signed.message.claimedMessageSigner with
    | none => simp
    | some claimedSigner =>
      rw [Option.filter_some]
      by_cases hsame : claimedSigner = signed.signer <;> simp [hsame]

end Signed

theorem ValidatorKeyPair.of_signMessage_eq_ok {env : ProtocolEnv} {key : ValidatorKeyPair}
    {context : SigningContext} {signed : Signed ProtocolMessage}
    (h : key.signMessage env context.networkId context.chainId context.message = .ok signed) :
    signed.context = context := by
  obtain ⟨domain, -, h⟩ := exists_of_bind_eq_ok h
  obtain ⟨payload, -, h⟩ := exists_of_bind_eq_ok h
  obtain rfl := Except.ok.inj h
  rfl

/-- Whatever verifies under the key is the payload of a message that its holder has signed for a
    network and a chain. -/
def Unforgeable (env : ProtocolEnv) (key : ValidatorKeyPair) (holder : Set SigningContext) :
    Prop :=
  ∀ payload signature, env.verifies key.verifyingKey payload signature = true →
    ∃ context ∈ holder, context.Short env ∧
      ∃ signed, key.signMessage env context.networkId context.chainId context.message =
          .ok signed ∧
        signed.context.payload env signed.domain = .ok payload

theorem signatures_bound_to_context (env : ProtocolEnv) (hjson : env.EncodesApart) :
    (∀ (domain domain' : ValidatorSignatureDomain) (context context' : SigningContext)
        (payload : Bytes), context.Short env → context'.Short env →
      context.payload env domain = .ok payload → context'.payload env domain' = .ok payload →
      domain = domain' ∧ context = context') ∧
    ∀ (publicKey : ValidatorPublicKey) (key : ValidatorKeyPair) (holder : Set SigningContext),
      decodeHexArray 32 publicKey.publicKeyHex = some key.verifyingKey →
      Unforgeable env key holder →
      ∀ (signed : Signed ProtocolMessage) (networkId chainId : String),
        signed.context.Short env → signed.verify env networkId chainId publicKey = .ok () →
        expectedSignatureDomain signed.message.outline = .ok signed.domain ∧
          ⟨networkId, chainId, signed.message⟩ ∈ holder := by
  refine ⟨fun _ _ _ _ _ => payload_inj hjson, ?_⟩
  intro publicKey key holder hkey hunforgeable signed networkId chainId hshort hverify
  obtain ⟨rfl, rfl, -, -, hdomain, -, hpayload⟩ := Signed.verify_eq_ok.1 hverify
  obtain ⟨key', payload, signature, hkey', -, -, hpayload, hverifies⟩ :=
    Signed.verifyPayload_eq_ok.1 hpayload
  obtain rfl := Option.some.inj (hkey.symm.trans hkey')
  obtain ⟨context, hheld, hshort', message, hmessage, hpayload'⟩ :=
    hunforgeable payload signature hverifies
  obtain rfl := ValidatorKeyPair.of_signMessage_eq_ok hmessage
  obtain ⟨-, hcontext⟩ := payload_inj hjson hshort hshort' hpayload hpayload'
  rw [← hcontext] at hheld
  exact ⟨hdomain, hheld⟩

namespace Ballot

/-! A validator that has signed one vote. Votes for the block `b` by the validator `v` are
written as their heights. -/

def vote (height : U64) : ProtocolMessage := .vote ⟨"v", height, "b"⟩

def context : SigningContext := ⟨"testnet", "detta", vote 1⟩

/-- The payload of the vote. -/
def payload : Bytes :=
  lengthPrefixed (textBytes validatorSignaturePrefix) ++ [0, 1] ++
    lengthPrefixed (textBytes "vote") ++ lengthPrefixed (textBytes "testnet") ++
    lengthPrefixed (textBytes "detta") ++ lengthPrefixed (bigEndian 8 1)

def env : ProtocolEnv where
  hashing := ⟨fun _ => [], fun _ => [0]⟩
  parseFinalityProof _ := none
  parseModule _ := none
  verifyModule _ := none
  messageBytes
    | .vote ⟨validatorId, height, blockHash⟩ =>
      if validatorId = "v" ∧ blockHash = "b" then some (bigEndian 8 height.val) else none
    | _ => none
  readSnapshot _ := none
  isVerifyingKey _ := true
  verifies _ bytes _ := bytes == payload

def key : ValidatorKeyPair := ⟨"v", "k", List.replicate 32 0, fun _ => List.replicate 64 0⟩

def signed : Signed ProtocolMessage :=
  ⟨"v", "k", "testnet", "detta", .vote, vote 1, hexLower (List.replicate 64 0)⟩

theorem of_messageBytes_eq_some {message : ProtocolMessage} {bytes : Bytes}
    (h : env.messageBytes message = some bytes) :
    ∃ height : U64, message = vote height ∧ bytes = bigEndian 8 height.val := by
  cases message with
  | vote v =>
    obtain ⟨validatorId, height, blockHash⟩ := v
    simp only [env] at h
    split at h
    next hvote =>
      obtain ⟨rfl, rfl⟩ := hvote
      exact ⟨height, rfl, (Option.some.inj h).symm⟩
    next => cases h
  | _ => cases h

theorem encodesApart : env.EncodesApart := by
  intro message message' bytes h h'
  obtain ⟨height, rfl, rfl⟩ := of_messageBytes_eq_some h
  obtain ⟨height', rfl, heq⟩ := of_messageBytes_eq_some h'
  obtain rfl : height = height' := Word.ext (bigEndian_inj (w := 8) height.isLt height'.isLt heq)
  rfl

theorem short : context.Short env := by
  refine ⟨by decide +kernel, by decide +kernel, ?_⟩
  intro bytes h
  obtain ⟨height, -, rfl⟩ := of_messageBytes_eq_some h
  rw [length_bigEndian]
  decide

theorem unforgeable : Unforgeable env key {context} := by
  intro bytes signature h
  obtain rfl : bytes = payload := eq_of_beq h
  exact ⟨context, rfl, short, signed, rfl, rfl⟩

theorem signatures_bound_to_context_vote :
    signed.verify env "testnet" "detta" key.publicKey = .ok () ∧
      ⟨"testnet", "detta", signed.message⟩ ∈ ({context} : Set SigningContext) := by
  have hkey : decodeHexArray 32 key.publicKey.publicKeyHex = some key.verifyingKey := by
    decide
  have hsignature : decodeHexArray 64 signed.signatureHex = some (List.replicate 64 0) := by
    decide +kernel
  have hpayload : signed.verifyPayload env key.publicKey = .ok () :=
    Signed.verifyPayload_eq_ok.2
      ⟨_, payload, _, hkey, rfl, hsignature, rfl, beq_self_eq_true payload⟩
  have hverify : signed.verify env "testnet" "detta" key.publicKey = .ok () :=
    Signed.verify_eq_ok.2 ⟨rfl, rfl, rfl, rfl, rfl, by rintro _ ⟨rfl⟩; rfl, hpayload⟩
  exact ⟨hverify, ((signatures_bound_to_context env encodesApart).2 key.publicKey key
    {context} hkey unforgeable signed "testnet" "detta" short hverify).2⟩

end Ballot

end Detta
