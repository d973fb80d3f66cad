import Detta.Base.Framing
import Detta.Core.Protocol

/-!
# Messages on the wire

A message is sent as its JSON after a header of ten bytes: a magic number, the version of the
protocol and the length of the JSON. There are two readers. `decodeMessage` takes the bytes of
one message; `readWireMessage` takes one message from a stream, of which it reads the header
first.

The text of a failed read comes from the operating system (`WireEnv`).
-/

namespace Detta

abbrev U16 := Word 16

/-- The bytes of `DTTA`. -/
def protocolMagic : Bytes := [0x44, 0x54, 0x54, 0x41]

def currentProtocolVersion : U16 := 1

def headerLen : ℕ := 10

def maxPayloadLen : ℕ := 16 * 1024 * 1024

inductive ProtocolError where
  | truncatedHeader (actual : ℕ)
  | badMagic (actual : Bytes)
  | unsupportedVersion (actual : ℕ)
  | payloadTooLarge (actual max : ℕ)
  | payloadLengthOverflow (actual : ℕ)
  | lengthMismatch (declared actual : ℕ)
  | encodeFailed
  | decodeFailed
deriving DecidableEq, Repr

/-- What the wire needs from libraries. -/
structure WireEnv extends ProtocolEnv where
  /-- The message that JSON stands for. -/
  readMessage : Bytes → Option ProtocolMessage
  /-- The text of a read that meets the end of the stream. -/
  unexpectedEof : String

/-! ## Payloads -/

def encodePayload (version : U16) (payload : Bytes) : Except ProtocolError Bytes :=
  if payload.length > maxPayloadLen then
    .error (.payloadTooLarge payload.length maxPayloadLen)
  else
    match Word.ofNat? 32 payload.length with
    | none => .error (.payloadLengthOverflow payload.length)
    | some payloadLen =>
      .ok (protocolMagic ++ bigEndian 2 version.val ++ bigEndian 4 payloadLen.val ++ payload)

/-- The length that a header declares. -/
def declaredLength (bytes : Bytes) : ℕ := ofBigEndian ((bytes.drop 6).take 4)

def decodePayload (bytes : Bytes) : Except ProtocolError Bytes :=
  let magic := bytes.take 4
  let version := ofBigEndian ((bytes.drop 4).take 2)
  let declared := declaredLength bytes
  let actual := bytes.length - headerLen
  if bytes.length < headerLen then .error (.truncatedHeader bytes.length)
  else if magic ≠ protocolMagic then .error (.badMagic magic)
  else if version ≠ currentProtocolVersion.val then .error (.unsupportedVersion version)
  else if declared > maxPayloadLen then .error (.payloadTooLarge declared maxPayloadLen)
  else if declared ≠ actual then .error (.lengthMismatch declared actual)
  else .ok (bytes.drop headerLen)

/-! ## Messages -/

namespace WireEnv

variable (env : WireEnv)

def encodeMessage (message : ProtocolMessage) : Except ProtocolError Bytes :=
  match env.messageBytes message with
  | none => .error .encodeFailed
  | some payload => encodePayload currentProtocolVersion payload

def decodeMessage (bytes : Bytes) : Except ProtocolError ProtocolMessage := do
  let payload ← decodePayload bytes
  match env.readMessage payload with
  | none => .error .decodeFailed
  | some message => .ok message

end WireEnv

/-! ## Streams -/

inductive WireError where
  | io (message : String)
  | protocol (error : ProtocolError)
deriving DecidableEq, Repr

/-- A step of a reader; the state is what of the stream has not been read yet. -/
abbrev WireReader := EStateM WireError Bytes

namespace WireEnv

variable (env : WireEnv)

/-- The bytes that are written for a message. -/
def writeWireMessage (message : ProtocolMessage) : Except WireError Bytes :=
  (env.encodeMessage message).mapError .protocol

/-- The next `n` bytes. A stream that ends before is read up to its end. -/
def readExact (n : ℕ) : WireReader Bytes := do
  let stream ← get
  set (stream.drop n)
  ensure (n ≤ stream.length) (.io env.unexpectedEof)
  return stream.take n

def readWireMessage : WireReader ProtocolMessage := do
  let header ← env.readExact headerLen
  let declared := declaredLength header
  ensure (declared ≤ maxPayloadLen) (.protocol (.payloadTooLarge declared maxPayloadLen))
  let payload ← env.readExact declared
  match env.decodeMessage (header ++ payload) with
  | .error error => throw (.protocol error)
  | .ok message => return message

/-- Read a number of messages, one after the other. -/
def readWireMessages : ℕ → WireReader (List ProtocolMessage)
  | 0 => return []
  | n + 1 => do
    let message ← env.readWireMessage
    let messages ← readWireMessages n
    return message :: messages

end WireEnv

end Detta
