import Detta.Base.Check
import Detta.Core.Render
import Detta.Core.Signing
import Detta.Safety.Encoding

/-!
# No two signatures for one height

Whatever the processes that share a storage directory sign, and wherever they are interrupted
or crash: for one validator, one kind of message and one height there is only one block whose
hash is signed.

The file that reserves a height is planned to get one record when it is created. A process
signs when it planned the record itself, or when it could read a whole record back; and what
can be read back from a file is only ever the record that was planned
(`ensures_readJson`). So each signature agrees with the plan, and any two agree with each
other.
-/

namespace Detta

/-- What the deserializer does: it reads back what was serialized, and refuses a part of it. -/
structure SigningEnv.ReadsBack (env : SigningEnv) : Prop where
  whole : ∀ r : ConsensusSigningRecord, env.parseRecord (env.hashing.canonicalBytes r.json) = .ok r
  cut : ∀ (r : ConsensusSigningRecord) got, got <+: env.hashing.canonicalBytes r.json →
    got ≠ env.hashing.canonicalBytes r.json → ∀ r', env.parseRecord got ≠ .ok r'

/-- The kind, the height and the block that a signature on a message is for. -/
def NetworkMessage.ballot (h : Hashing) : NetworkMessage → Option ConsensusSigningCommitment
  | .block b => some ⟨.blockProposal, b.header.height, b.blockHash h⟩
  | .vote v => some ⟨.vote, v.height, v.blockHash⟩
  | .finalityCertificate c => some ⟨.finalityCertificate, c.height, c.blockHash⟩
  | _ => none

namespace SigningEnv

open FileProgram

variable {env : SigningEnv}

/-- Only records are written. -/
def Record (env : SigningEnv) (_ : StoragePath) (bytes : Bytes) : Prop :=
  ∃ r : ConsensusSigningRecord, bytes = env.hashing.canonicalBytes r.json

/-- The plan has a record for a path. -/
def Settled (env : SigningEnv) (plan : Plan StoragePath) (path : StoragePath)
    (r : ConsensusSigningRecord) : Prop :=
  ∃ bytes, plan path = some bytes ∧ env.parseRecord bytes = .ok r

theorem Settled.unique {plan : Plan StoragePath} {path : StoragePath}
    {r r' : ConsensusSigningRecord} (h : env.Settled plan path r) (h' : env.Settled plan path r') :
    r = r' := by
  obtain ⟨bytes, hb, hr⟩ := h
  obtain ⟨bytes', hb', hr'⟩ := h'
  obtain rfl : bytes = bytes' := Option.some.inj (hb.symm.trans hb')
  exact Except.ok.inj (hr.symm.trans hr')

theorem Settled.extend {plan plan' : Plan StoragePath} {path : StoragePath}
    {r : ConsensusSigningRecord} (h : env.Settled plan path r) (hplan : plan.Extends plan') :
    env.Settled plan' path r := by
  obtain ⟨bytes, hb, hr⟩ := h
  exact ⟨bytes, hplan _ _ hb, hr⟩

/-- What a process learns from a result, while it holds no file. -/
def Learns {α : Type} (R : α → Plan StoragePath → Prop) (result : Except StorageError α)
    (v : View StoragePath) : Prop :=
  v.held = none ∧ ∀ a, result = .ok a → R a v.plan

theorem learns_error {α : Type} {R : α → Plan StoragePath → Prop} (error : StorageError)
    (plan : Plan StoragePath) : Learns R (.error error) ⟨none, plan⟩ := ⟨rfl, nofun⟩

/-- A step that only passes a failure on. -/
theorem ensures_error {α : Type} {R : α → Plan StoragePath → Prop} (error : StorageError)
    (plan : Plan StoragePath) :
    (done (.error error)).Ensures env.Record (Learns R) ⟨none, plan⟩ :=
  fun plan' _ => learns_error error plan'

theorem encodeJson_eq_ok {value : Json} {bytes : Bytes} (h : env.encodeJson value = .ok bytes) :
    env.hashing.canonicalBytes value = bytes := by
  dsimp only [encodeJson] at h
  split at h
  · cases h
  · exact Except.ok.inj h

variable (hparse : env.ReadsBack)

include hparse

theorem ensures_readJson (path : StoragePath) (plan : Plan StoragePath) :
    (env.readJson path).Ensures env.Record
      (Learns fun r plan => env.Settled plan path r) ⟨none, plan⟩ := by
  rw [readJson, lengthOf_bind]
  intro n plan _
  cases n with
  | none => exact ensures_error env.io plan
  | some n =>
    dsimp only
    split
    · exact ensures_error tooLong plan
    rw [readToEnd_bind]
    refine fun plan _ => ⟨ensures_error (.corruptData env.ioMessage) plan, ?_⟩
    intro bytes got hbytes hgot plan' hext
    refine ⟨rfl, fun r hr => ?_⟩
    have hread : env.parseRecord got = .ok r := by
      cases hp : env.parseRecord got with
      | error e => rw [hp] at hr; cases hr
      | ok r' => rw [hp] at hr; cases hr; rfl
    -- a part of a record cannot be read
    have hwhole : got = bytes := by
      rcases hgot with rfl | ⟨⟨r', rfl⟩, hcut⟩
      · rfl
      · by_contra hne
        exact hparse.cut r' got hcut hne r hread
    exact ⟨bytes, hext _ _ hbytes, hwhole ▸ hread⟩

theorem ensures_writeJsonCreateNew (path : StoragePath) (record : ConsensusSigningRecord)
    (plan : Plan StoragePath) :
    (env.writeJsonCreateNew path record).Ensures env.Record
      (Learns fun _ plan => env.Settled plan path record) ⟨none, plan⟩ := by
  simp only [writeJsonCreateNew, tryTo_bind, createNew_bind, writeAll_bind]
  intro b plan _
  cases b with
  | false => exact ensures_error env.io plan
  | true =>
    dsimp only
    rw [if_pos rfl]
    cases hbytes : env.encodeJson record.json with
    | error error => exact ensures_error error plan
    | ok bytes =>
    obtain rfl := encodeJson_eq_ok hbytes
    refine ⟨_, ⟨record, rfl⟩, fun plan _ => ⟨ensures_error env.io plan, fun hplan => ⟨rfl, ?_⟩⟩⟩
    refine fun (b : Bool) plan' hext => ?_
    cases b with
    | false => exact ensures_error env.io plan'
    | true =>
      refine fun (b : Bool) plan'' hext' => ?_
      cases b with
      | false => exact ensures_error env.io plan''
      | true =>
        intro plan₃ hext₃
        exact ⟨rfl, fun _ _ => ⟨_, hext₃ _ _ (hext' _ _ (hext _ _ hplan)), hparse.whole record⟩⟩

/-- What is known once a record is committed: it is in the plan, or the one that was there is. -/
theorem ensures_commit (record : ConsensusSigningRecord) (plan : Plan StoragePath) :
    (env.commitConsensusSigningRecordIfAbsent record).Ensures env.Record
      (Learns fun existing plan => env.Settled plan
        (consensusSigningRecordPath record.validatorId record.domain record.height)
        (existing.getD record)) ⟨none, plan⟩ := by
  set path := consensusSigningRecordPath record.validatorId record.domain record.height with hpath
  -- the record is there, and is read
  have hread : ∀ plan, (do
      let existing ← env.readJson path
      pure (existing.map some) : FileProgram StoragePath _).Ensures env.Record
        (Learns fun existing plan => env.Settled plan path (existing.getD record))
        ⟨none, plan⟩ := by
    intro plan
    refine (ensures_readJson hparse path plan).bind fun result v h plan hext => ?_
    obtain ⟨hheld, hsettled⟩ := h
    refine ⟨hheld, fun existing hexisting => ?_⟩
    cases result with
    | error e => cases hexisting
    | ok r =>
      cases hexisting
      exact (hsettled r rfl).extend hext
  simp only [commitConsensusSigningRecordIfAbsent, lengthOf_bind, ← hpath]
  intro n plan _
  dsimp only
  split
  · exact hread plan
  refine (ensures_writeJsonCreateNew hparse path record plan).bind fun result v h => ?_
  obtain ⟨held, plan⟩ := v
  obtain ⟨rfl, hsettled⟩ := h
  cases result with
  | ok u =>
    intro plan hext
    refine ⟨rfl, fun existing h => ?_⟩
    cases h
    exact (hsettled u rfl).extend hext
  | error e =>
    cases e with
    | corruptData message => exact ensures_error _ plan
    | io message =>
      intro n plan _
      dsimp only
      split
      · exact hread plan
      · exact ensures_error _ plan

end SigningEnv

namespace SigningNode

open FileProgram

variable {env : SigningEnv} {node : SigningNode}

/-- A signature is for the block that the plan has for the signer, the kind and the height. -/
def Backed (env : SigningEnv) (signer : String) (message : NetworkMessage)
    (plan : Plan StoragePath) : Prop :=
  ∀ c, message.ballot env.hashing = some c →
    ∃ r, env.Settled plan (consensusSigningRecordPath signer c.domain c.height) r ∧
      r.blockHash = c.blockHash

variable {message : NetworkMessage}

theorem Backed.extend {signer : String} {plan plan' : Plan StoragePath}
    (h : Backed env signer message plan) (hplan : plan.Extends plan') :
    Backed env signer message plan' := by
  intro c hc
  obtain ⟨r, hr, hhash⟩ := h c hc
  exact ⟨r, hr.extend hplan, hhash⟩

/-- So are the signatures that are returned. -/
def BackedResult (env : SigningEnv) (result : Except NodeError SignedValidatorMessage)
    (plan : Plan StoragePath) : Prop :=
  ∀ signed, result = .ok signed → Backed env signed.signer signed.message plan

/-- Every message with a ballot is reserved for. -/
theorem ballot_of_commitment {h : Hashing} {validatorId : String}
    {commitment : Option ConsensusSigningCommitment}
    (hc : consensusSigningCommitment h validatorId message = .ok commitment) :
    message.ballot h = commitment := by
  cases message with
  | block _ | vote _ =>
    simp only [consensusSigningCommitment] at hc
    split at hc
    · cases hc
    · exact Except.ok.inj hc
  | _ => exact Except.ok.inj hc

theorem ensures_reserve (hparse : env.ReadsBack) (message : NetworkMessage)
    (plan : Plan StoragePath) :
    (node.reserveConsensusSigningRecord env message).Ensures env.Record
      (fun result v => result = .ok () → Backed env node.validatorId message v.plan)
      ⟨none, plan⟩ := by
  unfold reserveConsensusSigningRecord
  cases hc : consensusSigningCommitment env.hashing node.validatorId message with
  | error e => exact fun _ _ => nofun
  | ok commitment =>
    have hballot := ballot_of_commitment hc
    cases commitment with
    | none =>
      intro plan _ _ c hc'
      rw [hballot] at hc'
      cases hc'
    | some commitment =>
      refine (SigningEnv.ensures_commit hparse _ plan).bind fun result v h => ?_
      obtain ⟨-, hsettled⟩ := h
      -- what the plan has is the record of this message, or one with the same block
      have hbacked : ∀ r, env.Settled v.plan (consensusSigningRecordPath node.validatorId
          commitment.domain commitment.height) r → r.blockHash = commitment.blockHash →
          ∀ plan, v.plan.Extends plan → Backed env node.validatorId message plan := by
        intro r hr hhash plan hext c hc'
        obtain rfl : commitment = c := Option.some.inj (hballot.symm.trans hc')
        exact ⟨r, hr.extend hext, hhash⟩
      cases result with
      | error e => exact fun _ _ => nofun
      | ok existing =>
        cases existing with
        | none => exact fun plan hext _ => hbacked _ (hsettled none rfl) rfl plan hext
        | some existing =>
          dsimp only
          split
          · exact fun _ _ => nofun
          next hsame =>
            exact fun plan hext _ =>
              hbacked existing (hsettled (some existing) rfl) (not_not.1 hsame) plan hext

theorem signMessage_eq_ok {key : ValidatorSigningKey} {networkId chainId : String}
    {signed : SignedValidatorMessage} (h : key.signMessage networkId chainId message = .ok signed) :
    signed.signer = key.validatorId ∧ signed.message = message := by
  obtain ⟨domain, -, h⟩ := exists_of_bind_eq_ok h
  split at h
  · cases h
  · cases h
    exact ⟨rfl, rfl⟩

theorem ensures_signValidatorMessage (hparse : env.ReadsBack) (key : ValidatorSigningKey)
    (message : NetworkMessage) (plan : Plan StoragePath) :
    (node.signValidatorMessage env key message).Ensures env.Record
      (fun result v => BackedResult env result v.plan) ⟨none, plan⟩ := by
  unfold signValidatorMessage
  split
  · exact fun _ _ _ => nofun
  next hkey =>
  refine (ensures_reserve hparse message plan).bind fun result v h => ?_
  cases result with
  | error e => exact fun _ _ _ => nofun
  | ok u =>
    intro plan hext signed hsigned
    cases hs : key.signMessage node.networkId node.chainId message with
    | error e => rw [hs] at hsigned; cases hsigned
    | ok signed' =>
      rw [hs] at hsigned
      cases hsigned
      obtain ⟨hsigner, hmessage⟩ := signMessage_eq_ok hs
      rw [hsigner, hmessage, not_not.1 hkey]
      exact (h rfl).extend hext

/-- The programs that processes run: a node signs a message with a key. -/
def Signs (env : SigningEnv) {ι : Type} (_ : ι)
    (program : FileProgram StoragePath (Except NodeError SignedValidatorMessage)) : Prop :=
  ∃ (node : SigningNode) (key : ValidatorSigningKey) (message : NetworkMessage),
    program = node.signValidatorMessage env key message

/-- Of all signatures that processes over one storage directory ever return, those of one
    validator for one kind of message and one height are for the same block. -/
theorem no_double_signing {ι : Type} [DecidableEq ι] (hparse : env.ReadsBack)
    {disk : Disk StoragePath}
    {s : System ι StoragePath (Except NodeError SignedValidatorMessage)}
    (hs : System.Reachable (Signs env) disk s) {first second : SignedValidatorMessage}
    (hfirst : .ok first ∈ s.results) (hsecond : .ok second ∈ s.results)
    (hsigner : first.signer = second.signer) {b c : ConsensusSigningCommitment}
    (hb : first.message.ballot env.hashing = some b)
    (hc : second.message.ballot env.hashing = some c) (hdomain : b.domain = c.domain)
    (hheight : b.height = c.height) : b.blockHash = c.blockHash := by
  have hcalls : ∀ (i : ι) program, Signs env i program → ∀ plan,
      program.Ensures env.Record (fun result v => BackedResult env result v.plan)
        ⟨none, plan⟩ := by
    rintro i program ⟨node, key, message, rfl⟩ plan
    exact ensures_signValidatorMessage hparse key message plan
  obtain ⟨plan, hplan⟩ := hs.results_of_ensures hcalls
  obtain ⟨r, hr, hrb⟩ := hplan _ hfirst first rfl b hb
  obtain ⟨r', hr', hrc⟩ := hplan _ hsecond second rfl c hc
  rw [hsigner, hdomain, hheight] at hr
  obtain rfl := hr.unique hr'
  exact hrb.symm.trans hrc

end SigningNode

/-! ## Two processes that sign the same vote -/

theorem ValidatorSignatureDomain.json_injective : Function.Injective json := by
  intro a b h
  cases a <;> cases b <;> simp_all [json]

theorem ConsensusSigningRecord.json_injective : Function.Injective json := by
  intro a b h
  simp only [json, Json.obj.injEq, List.cons.injEq, Prod.mk.injEq, true_and, Json.str.injEq,
    and_true] at h
  obtain ⟨hid, hdomain, hheight, hhash⟩ := h
  have hdomain := ValidatorSignatureDomain.json_injective hdomain
  have hheight := Json.word_injective hheight
  cases a
  cases b
  simp_all

namespace SigningEnv

open FileProgram

/-- The bytes of the source, and the deserializer that accepts nothing but these. -/
noncomputable def standard : SigningEnv where
  hashing := .standard
  parseRecord bytes :=
    match Function.partialInv (fun r : ConsensusSigningRecord => r.json.renderBytes) bytes with
    | some r => .ok r
    | none => .error "expected a record"
  ioMessage := "input/output error"

theorem parseRecord_standard {r : ConsensusSigningRecord} :
    standard.parseRecord bytes = .ok r ↔ r.json.renderBytes = bytes := by
  have hinj : Function.Injective fun r : ConsensusSigningRecord => r.json.renderBytes :=
    Json.renderBytes_injective.comp ConsensusSigningRecord.json_injective
  rw [← hinj.isPartialInv r bytes, standard]
  dsimp only
  cases Function.partialInv (fun r : ConsensusSigningRecord => r.json.renderBytes) bytes <;> simp

theorem readsBack_standard : standard.ReadsBack where
  whole r := parseRecord_standard.2 rfl
  cut r got hcut hne r' hr' := by
    obtain rfl := parseRecord_standard.1 hr'
    have hfields := Json.eq_of_renderBytes_prefix hcut
    exact hne (congrArg (fun fields => (Json.obj fields).renderBytes) hfields)

variable {env : SigningEnv} {d : Disk StoragePath} {path : StoragePath} {bytes : Bytes}
  {record : ConsensusSigningRecord}

theorem runs_writeJsonCreateNew (hnone : d path = none)
    (hlength : (env.hashing.canonicalBytes record.json).length ≤ maxEncodedBytes) :
    (env.writeJsonCreateNew path record).Runs d
      (Function.update d path (some (env.hashing.canonicalBytes record.json))) (.ok ()) := by
  have hencode : env.encodeJson record.json = .ok (env.hashing.canonicalBytes record.json) := by
    simp [encodeJson, Nat.not_lt.2 hlength]
  refine runs_tryTo.bind ?_
  rw [if_pos rfl, hencode]
  exact (Runs.step (.created hnone) .done).bind ((runs_writeAll _).bind (runs_tryTo.bind .done))

theorem runs_readJson (hsome : d path = some bytes) (hlength : bytes.length ≤ maxEncodedBytes)
    (hparse : env.parseRecord bytes = .ok record) :
    (env.readJson path).Runs d d (.ok record) := by
  refine (runs_lengthOf hsome).bind ?_
  dsimp only
  rw [if_neg (Nat.not_lt.2 hlength)]
  refine (runs_readToEnd hsome).bind ?_
  dsimp only
  rw [hparse]
  exact .done

end SigningEnv

/-- A node signs once the record is committed, if no other block was there. -/
theorem SigningNode.runs_signValidatorMessage {env : SigningEnv} {node : SigningNode}
    {key : ValidatorSigningKey} {message : NetworkMessage} {c : ConsensusSigningCommitment}
    {existing : Option ConsensusSigningRecord} {signed : SignedValidatorMessage}
    {d d' : Disk StoragePath} (hkey : key.validatorId = node.validatorId)
    (hc : consensusSigningCommitment env.hashing node.validatorId message = .ok (some c))
    (hcommit : (env.commitConsensusSigningRecordIfAbsent
      ⟨node.validatorId, c.domain, c.height, c.blockHash⟩).Runs d d' (.ok existing))
    (hsame : ∀ r ∈ existing, r.blockHash = c.blockHash)
    (hsigned : key.signMessage node.networkId node.chainId message = .ok signed) :
    (node.signValidatorMessage env key message).Runs d d' (.ok signed) := by
  have hreserve : (node.reserveConsensusSigningRecord env message).Runs d d' (.ok ()) := by
    simp only [reserveConsensusSigningRecord, hc]
    refine hcommit.bind ?_
    cases existing with
    | none => exact .done
    | some r =>
      dsimp only
      rw [if_neg (not_not.2 (hsame r rfl))]
      exact .done
  rw [signValidatorMessage, if_neg (not_not.2 hkey)]
  refine hreserve.bind ?_
  dsimp only
  rw [hsigned]
  exact .done

namespace Harbour

open FileProgram SigningNode

/-- A validator, with a key whose signatures do not matter. -/
def node : SigningNode := ⟨"alice", "net", "chain"⟩

def key : ValidatorSigningKey := ⟨"alice", "key", fun _ _ _ _ => some "00"⟩

def vote : NetworkMessage := .vote ⟨"alice", 7, "aa"⟩

def record : ConsensusSigningRecord := ⟨"alice", .vote, 7, "aa"⟩

def signedVote : SignedValidatorMessage := ⟨"alice", "key", "net", "chain", .vote, vote, "00"⟩

/-- The disk once the height is reserved. -/
noncomputable def reserved : Disk StoragePath :=
  Function.update (fun _ => none) (consensusSigningRecordPath "alice" .vote 7)
    (some record.json.renderBytes)

theorem length_record : record.json.renderBytes.length ≤ maxEncodedBytes := by
  decide

theorem runs_first :
    (node.signValidatorMessage .standard key vote).Runs (fun _ => none) reserved
      (.ok signedVote) := by
  have hcommit : (SigningEnv.standard.commitConsensusSigningRecordIfAbsent record).Runs
      (fun _ => none) reserved (.ok none) :=
    runs_lengthOf_of_none.bind
      ((SigningEnv.runs_writeJsonCreateNew rfl length_record).bind .done)
  exact runs_signValidatorMessage rfl rfl hcommit (by simp) rfl

theorem runs_second :
    (node.signValidatorMessage .standard key vote).Runs reserved reserved (.ok signedVote) := by
  have hfile : reserved (consensusSigningRecordPath "alice" .vote 7) =
    some record.json.renderBytes := Function.update_self ..
  have hread := SigningEnv.runs_readJson hfile length_record
    (SigningEnv.parseRecord_standard.2 rfl)
  have hcommit : (SigningEnv.standard.commitConsensusSigningRecordIfAbsent record).Runs
      reserved reserved (.ok (some record)) :=
    (runs_lengthOf hfile).bind (hread.bind .done)
  refine runs_signValidatorMessage rfl rfl hcommit (fun r hr => ?_) rfl
  obtain rfl : record = r := Option.some.inj hr
  rfl

/-- The state after both processes of a directory have signed the vote. -/
noncomputable def signedTwice :
    System Bool StoragePath (Except NodeError SignedValidatorMessage) :=
  ⟨reserved, fun _ => none, [.ok signedVote, .ok signedVote]⟩

theorem reachable_signedTwice : System.Reachable (Signs .standard) (fun _ => none) signedTwice := by
  have hfirst : System.Reachable (Signs .standard) (fun _ => none)
      (⟨reserved, fun _ => none, [.ok signedVote]⟩ : System Bool _ _) :=
    System.Reachable.call (i := true) .start rfl ⟨node, key, vote, rfl⟩ runs_first
  exact hfirst.call (i := false) rfl ⟨node, key, vote, rfl⟩ runs_second

theorem no_double_signing_twice :
    System.Reachable (Signs .standard) (fun _ => none) signedTwice ∧
      vote.ballot .standard = some ⟨.vote, 7, "aa"⟩ ∧
      (⟨.vote, 7, "aa"⟩ : ConsensusSigningCommitment).blockHash =
        (⟨.vote, 7, "aa"⟩ : ConsensusSigningCommitment).blockHash :=
  ⟨reachable_signedTwice, rfl,
    no_double_signing SigningEnv.readsBack_standard reachable_signedTwice (.head _)
      (.tail _ (.head _)) rfl rfl rfl rfl rfl⟩

end Harbour

end Detta
