import Detta.Safety.KeySet

/-!
# A quorum against a minority

A quorum of the validators that signs an update should get it applied, whatever the others do.
But authorizations wait under the identifier of their update, and what waits there first decides
for which update it is; what somebody has signed whose key is gone stays there; and there is only
so much room. So a quorum gets through if nothing of this is in its way when it delivers
(`PersistentValidatorNode.Clear`).

The proof follows a run through three phases: nobody of the quorum has delivered; some have, and
their authorizations wait; and the update is applied.
-/

namespace Detta

namespace PersistentValidatorNode

variable {env : NodeEnv} {n : PersistentValidatorNode} {update : ValidatorSetMetadataUpdate}
  {signed : Signed ProtocolMessage}

/-- Nothing is in the way of an authorization: what waits for the update is verified and for the
    same update, there is room for one more, and the files can be written. -/
structure Clear (env : NodeEnv) (n : PersistentValidatorNode)
    (update : ValidatorSetMetadataUpdate) (signed : Signed ProtocolMessage) : Prop where
  waiting : ∀ other ∈ (n.authorizationsFor update.updateId).values,
    n.verifiedValidatorSetMetadataUpdate env other = .ok update
  room : n.pendingAuthorizations.contains update.updateId = true ∨
    n.pendingAuthorizations.size < n.maxPendingUpdates
  rate : (n.authorizationsFor update.updateId).contains signed.signer = true ∨
    n.pendingAuthorizationsOf signed.signer < n.maxPendingAuthorizationsPerValidator
  works : n.storage.faults = []
  pendingFit : Storage.Fits env (.authorizations
    (n.addAuthorization update.updateId signed).pendingAuthorizations.flatten)
  keysFit : Storage.Fits env (.validatorSetMetadata
    (n.toKeyRing.updated update (update.keyring n.validatorKeys)).metadata)

/-- As many have signed as wait, each under its own name. -/
theorem card_signersOf_values {waiting : Std.ExtTreeMap String (Signed ProtocolMessage)}
    (h : ∀ (signer : String) (signed : Signed ProtocolMessage), waiting[signer]? = some signed →
      signed.signer = signer) :
    (KeyRing.signersOf waiting.values).card = waiting.size := by
  rw [KeyRing.signersOf, Table.map_values_eq_keys h, List.toFinset_card_of_nodup,
    Std.ExtTreeMap.length_keys]
  exact Std.ExtTreeMap.nodup_keys

end PersistentValidatorNode

namespace PersistentNode

variable {env : NodeEnv} {n : PersistentValidatorNode} {update : ValidatorSetMetadataUpdate}
  {signed : Signed ProtocolMessage} {P : PersistentValidatorNode → Prop}
  (hfresh : n.hasAppliedValidatorSetUpdate update.updateId = false)
  (hfits : update.Fits n.validatorKeys)

include hfresh hfits

section Apply

variable (hworks : n.storage.faults = []) (hkeysFit : Storage.Fits env (.validatorSetMetadata
  (n.toKeyRing.updated update (update.keyring n.validatorKeys)).metadata))

include hworks hkeysFit

theorem wp_applyValidatorSetMetadataUpdate_of_fits :
    wp (applyValidatorSetMetadataUpdate env update)
      (fun _ n' => n'.toKeyRing = n.toKeyRing.updated update (update.keyring n.validatorKeys))
      (fun _ _ => False) n := by
  unfold applyValidatorSetMetadataUpdate Storage.commitValidatorSetMetadata
  refine .get (.ensure ⟨fun _ => ?_, fun h => h hfresh⟩)
  rw [ValidatorSetMetadataUpdate.nextKeyring_eq_ok.2 ⟨hfits, rfl⟩]
  exact wp_bind.2 (wp_bind.2 (wp_onStorage.2
    (Storage.wp_writeJsonAtomic_of_fits hworks hkeysFit rfl)))

/-- What waits is enough for an update, which is then applied. -/
theorem wp_applyPendingValidatorSetMetadataUpdate_of_quorum {updateId : String}
    {waiting : Std.ExtTreeMap String (Signed ProtocolMessage)}
    (hwaiting : n.pendingAuthorizations[updateId]? = some waiting)
    (hall : ∀ other ∈ waiting.values, n.verifiedValidatorSetMetadataUpdate env other = .ok update)
    (hquorum : n.validatorSetMetadataQuorum ≤ (KeyRing.signersOf waiting.values).card)
    (hdone : ∀ n', n'.toKeyRing = n.toKeyRing.updated update (update.keyring n.validatorKeys) →
      P n') :
    wp (applyPendingValidatorSetMetadataUpdate env updateId) (fun _ => P) (fun _ => P) n := by
  have hne : waiting.values ≠ [] := by
    intro hnil
    have hpos : 1 ≤ n.validatorSetMetadataQuorum := le_max_right _ _
    simp only [hnil, KeyRing.signersOf, List.map_nil, List.toFinset_nil, Finset.card_empty]
      at hquorum
    omega
  have hcollect : n.collectAuthorizations env none ∅
      (waiting.values.map .signedValidator) = .ok (some update, _) :=
    KeyRing.collectAuthorizations_eq_ok.2 ⟨hfresh, waiting.values, hne, rfl, hall, rfl⟩
  unfold applyPendingValidatorSetMetadataUpdate applyQuorumAuthorizedValidatorSetMetadataUpdate
    applyQuorumAuthorizedValidatorSetMetadataUpdateWithQuorum
  refine .get (wp_bind.2 ?_)
  rw [hwaiting]
  refine wp_bind.2 (wp_attempt.2 (.get (.get (wp_bind.2 ?_))))
  rw [hcollect]
  refine .ensure ⟨fun _ => wp_bind.2 ?_, fun h => ?_⟩
  · refine (wp_applyValidatorSetMetadataUpdate_of_fits hfresh hfits hworks hkeysFit).mono ?_
      fun _ _ => False.elim
    -- whether this can be put on record makes no difference to the keys
    intro _ n' hn'
    have hI : Insensitive env FileStorage.slashings fun n'' => n''.toKeyRing = n'.toKeyRing :=
      .of_keys (· = n'.toKeyRing)
    refine (((hI.recordValidatorSetMetadataAudit _ _ _ _).bind fun _ =>
      (Keeps.update fun n hn => hI.drop n _ hn).bind fun _ =>
        hI.persistPendingValidatorSetMetadataAuthorizations) n' rfl).mono ?_ ?_
    all_goals exact fun _ n'' hn'' => hdone n'' (hn''.trans hn')
  · rw [KeyRing.size_foldl_insert] at h
    exact absurd hquorum h

end Apply

/-- If nothing is in its way, an authorization that is delivered waits for others, or the update
    is applied. -/
theorem wp_deliverAuthorization_of_clear (hfiled : n.pendingAuthorizations.Filed)
    (hclear : n.Clear env update signed)
    (hverified : n.verifiedValidatorSetMetadataUpdate env signed = .ok update)
    (hunexpired : update.expired n.currentHeight = false)
    (hkept : ∀ st, ((n.authorizationsFor update.updateId).insert signed.signer signed).size <
      n.validatorSetMetadataQuorum →
        P { n.addAuthorization update.updateId signed with storage := st })
    (hdone : ∀ n', n'.toKeyRing = n.toKeyRing.updated update (update.keyring n.validatorKeys) →
      P n') :
    wp (deliverAuthorization env signed update.updateId) (fun _ => P) (fun _ => P) n := by
  have htakes : n.Takes env update signed.signer :=
    ⟨hunexpired, hfresh, hclear.room, hclear.rate,
      fun other hother => hclear.waiting other (List.mem_of_mem_head? hother)⟩
  have hinsert : n.insertPendingValidatorSetMetadataAuthorization env signed = .ok (_, _) :=
    PersistentValidatorNode.insertPendingValidatorSetMetadataAuthorization_eq_ok.2
      ⟨update, hverified, htakes, rfl, rfl⟩
  have hfiled' := PersistentValidatorNode.Filed.addAuthorization hfiled hverified htakes
  unfold deliverAuthorization recordPendingAuthorization
    persistPendingValidatorSetMetadataAuthorizations
    Storage.commitPendingValidatorSetMetadataAuthorizations
  refine wp_bind.2 (.get ?_)
  rw [hinsert]
  refine .set (wp_bind.2 (.get (wp_onStorage.2 ?_)))
  refine Storage.wp_writeJsonAtomic_of_fits hclear.works hclear.pendingFit ?_
  refine wp_pure.2 (.get ?_)
  have hwaiting : (n.addAuthorization update.updateId signed).pendingAuthorizations[
      update.updateId]? = some ((n.authorizationsFor update.updateId).insert signed.signer
        signed) := Std.ExtTreeMap.getElem?_insert_self
  have hcount : (n.addAuthorization update.updateId signed).authorizationsFor update.updateId =
      (n.authorizationsFor update.updateId).insert signed.signer signed := by
    rw [PersistentValidatorNode.authorizationsFor, hwaiting, Option.getD_some]
  rw [hcount]
  split
  next hquorum =>
    obtain ⟨-, u, -, hall⟩ := hfiled' _ _ hwaiting
    have hcard := PersistentValidatorNode.card_signersOf_values fun signer other hother =>
      (hall signer other hother).1
    refine wp_bind.2 (wp_applyPendingValidatorSetMetadataUpdate_of_quorum ?_ ?_ ?_ ?_ hwaiting ?_
      (hcard ▸ hquorum) hdone)
    · exact hfresh
    · exact hfits
    · exact hclear.works
    · exact hclear.keysFit
    intro other hother
    obtain ⟨signer, hsigner⟩ := Table.mem_values_iff.1 hother
    rcases Table.of_getElem?_insert hsigner with ⟨-, rfl⟩ | hsigner
    · exact hverified
    · exact hclear.waiting other (Table.mem_values_iff.2 ⟨signer, hsigner⟩)
  next hquorum => exact hkept _ (Nat.lt_of_not_le hquorum)

end PersistentNode

/-! ## Deliveries -/

namespace PersistentOp

variable {env : NodeEnv} {n : PersistentValidatorNode} {op : PersistentOp}
  {update : ValidatorSetMetadataUpdate} {signed : Signed ProtocolMessage}

/-- The operation brings a signed message, from the network or by a call. -/
def Delivers (signed : Signed ProtocolMessage) : PersistentOp → Prop
  | ingestNetworkEnvelope message => message = .signedValidator signed
  | propose authorization => authorization = signed
  | _ => False

/-- The operation brings the authorization of an update by a validator. -/
def Authorizes (env : NodeEnv) (k : KeyRing) (update : ValidatorSetMetadataUpdate)
    (validatorId : String) (op : PersistentOp) : Prop :=
  ∃ signed : Signed ProtocolMessage, op.Delivers signed ∧ signed.signer = validatorId ∧
    k.verifiedValidatorSetMetadataUpdate env signed = .ok update

theorem Delivers.unique {other : Signed ProtocolMessage} (h : op.Delivers signed)
    (h' : op.Delivers other) : signed = other := by
  cases op with
  | ingestNetworkEnvelope message => exact ProtocolMessage.signedValidator.inj (h.symm.trans h')
  | propose authorization => exact h.symm.trans h'
  | _ => exact h.elim

theorem Delivers.not_local (h : op.Delivers signed) : ¬op.Local := by
  cases op <;> first | exact id | exact h.elim

theorem Delivers.mem_authorizations (h : op.Delivers signed)
    (hmessage : signed.message = .validatorSetMetadataUpdate update) :
    signed ∈ op.authorizations n := by
  have hmem : signed ∈ n.authorizationsWith signed := by
    rw [PersistentValidatorNode.authorizationsWith, hmessage]
    exact Table.mem_values_iff.2 ⟨signed.signer, Std.ExtTreeMap.getElem?_insert_self⟩
  cases op with
  | ingestNetworkEnvelope message => exact h ▸ hmem
  | propose authorization => exact h ▸ hmem
  | _ => exact h.elim

open PersistentNode in
/-- An update that is delivered is refused if it is not verified. -/
theorem Delivers.wp_run (h : op.Delivers signed)
    (hmessage : signed.message = .validatorSetMetadataUpdate update)
    {P : PersistentValidatorNode → Prop}
    (hrefused : n.verifiedValidatorSetMetadataUpdate env signed ≠ .ok update → P n)
    (hdeliver : n.verifiedValidatorSetMetadataUpdate env signed = .ok update →
      wp (deliverAuthorization env signed update.updateId) (fun _ => P) (fun _ => P) n) :
    wp (op.run env) (fun _ => P) (fun _ => P) n := by
  cases op with
  | ingestNetworkEnvelope message =>
    obtain rfl := h
    obtain ⟨signer, keyId, networkId, chainId, domain, content, signatureHex⟩ := signed
    obtain rfl := hmessage
    refine wp_discard.2 ?_
    unfold PersistentNode.ingestNetworkEnvelope
    refine .get (wp_bind.2 (wp_ofExcept.2 ⟨fun _ hv => ?_, fun e hv => ?_⟩))
    · refine (hdeliver ?_).bind ?_
      · rw [KeyRing.verifiedValidatorSetMetadataUpdate, hv]
        rfl
      · intro delivered n' hn'
        split <;> exact hn'
    · refine hrefused ?_
      rw [KeyRing.verifiedValidatorSetMetadataUpdate, hv]
      intro h
      cases h
  | propose authorization =>
    obtain rfl := h
    refine wp_discard.2 ?_
    unfold proposeValidatorSetMetadataUpdateAuthorization
    refine .get (wp_bind.2 (wp_ofExcept.2 ⟨fun u hu => ?_, fun e he => ?_⟩))
    · obtain rfl : update = u := ProtocolMessage.validatorSetMetadataUpdate.inj
        (hmessage.symm.trans (KeyRing.verifiedValidatorSetMetadataUpdate_eq_ok.1 hu).1)
      exact wp_bind.2 (hdeliver hu)
    · exact hrefused (by simp [he])
  | _ => exact h.elim

/-- What has changed the keys was applied. -/
theorem applies_of_keyChange (h : KeyChange env (op.quorum n) n.toKeyRing (op.authorizations n)
    update (op.apply env n).toKeyRing) : op.Applies env n update := by
  obtain ⟨signed, hsigned⟩ := List.exists_mem_of_ne_nil _ h.nonempty
  exact ⟨h.fresh, h.hasApplied_iff.2 (.inl rfl), signed, hsigned,
    (KeyRing.verifiedValidatorSetMetadataUpdate_eq_ok.1 (h.signed signed hsigned)).1⟩

end PersistentOp

/-! ## Phases of a run -/

section Phases

variable {env : NodeEnv} {n s : PersistentValidatorNode} {U : ValidatorSetMetadataUpdate}
  {signers : Finset String} {op : PersistentOp} {ops : List PersistentOp}

/-- How far a quorum has come with its update, when some operations are still to come. -/
inductive Progress (env : NodeEnv) (n : PersistentValidatorNode) (U : ValidatorSetMetadataUpdate)
    (signers : Finset String) (ops : List PersistentOp) (s : PersistentValidatorNode) : Prop
  | quiet (keys : s.toKeyRing = n.toKeyRing) (height : s.currentHeight = n.currentHeight)
      (left : ∀ v ∈ signers, ∃ op ∈ ops, op.Authorizes env n.toKeyRing U v)
  | waits (keys : s.toKeyRing = n.toKeyRing) (height : s.currentHeight = n.currentHeight)
      (waiting : Std.ExtTreeMap String (Signed ProtocolMessage))
      (there : s.pendingAuthorizations[U.updateId]? = some waiting)
      (theirs : ∃ signed ∈ waiting.values, signed.message = .validatorSetMetadataUpdate U)
      (few : waiting.size < n.validatorSetMetadataQuorum)
      (left : ∀ v ∈ signers, waiting.contains v = true ∨
        ∃ op ∈ ops, op.Authorizes env n.toKeyRing U v)
  | applied (keys : s.toKeyRing = n.toKeyRing.updated U (U.keyring n.validatorKeys))

namespace Progress

/-- The operation that comes next is none of those that are awaited. -/
theorem left_of_cons {v : String} (h : ∃ o ∈ op :: ops, o.Authorizes env n.toKeyRing U v)
    (hop : ¬op.Authorizes env n.toKeyRing U v) : ∃ o ∈ ops, o.Authorizes env n.toKeyRing U v := by
  obtain ⟨o, ho, hauthorizes⟩ := h
  rcases List.mem_cons.1 ho with rfl | ho
  · exact absurd hauthorizes hop
  · exact ⟨o, ho, hauthorizes⟩

/-- Nothing changes if the next operation is not awaited and leaves what waits alone. -/
theorem of_same (h : Progress env n U signers (op :: ops) s)
    (hop : ∀ v, ¬op.Authorizes env n.toKeyRing U v) {s' : PersistentValidatorNode}
    (hkeys : s'.toKeyRing = s.toKeyRing) (hheight : s'.currentHeight = s.currentHeight)
    (hpending : ∀ waiting, s.pendingAuthorizations[U.updateId]? = some waiting →
      (∃ signed ∈ waiting.values, signed.message = .validatorSetMetadataUpdate U) →
      s'.pendingAuthorizations[U.updateId]? = some waiting) :
    Progress env n U signers ops s' := by
  cases h with
  | quiet keys height left =>
    exact .quiet (hkeys.trans keys) (hheight.trans height) fun v hv =>
      left_of_cons (left v hv) (hop v)
  | waits keys height waiting there theirs few left =>
    exact .waits (hkeys.trans keys) (hheight.trans height) waiting
      (hpending waiting there theirs) theirs few fun v hv =>
        (left v hv).imp_right fun h => left_of_cons h (hop v)
  | applied keys => exact .applied (hkeys.trans keys)

variable {update : ValidatorSetMetadataUpdate} {signed : Signed ProtocolMessage}

/-- One more of the quorum waits. -/
theorem of_kept {st : FileStorage} (hkeys : s.toKeyRing = n.toKeyRing)
    (hheight : s.currentHeight = n.currentHeight)
    (hleft : ∀ v ∈ signers, (s.authorizationsFor U.updateId).contains v = true ∨
      ∃ o ∈ op :: ops, o.Authorizes env n.toKeyRing U v)
    (hop : op.Delivers signed) (hverified : n.verifiedValidatorSetMetadataUpdate env signed = .ok U)
    (hfew : ((s.authorizationsFor U.updateId).insert signed.signer signed).size <
      n.validatorSetMetadataQuorum) :
    Progress env n U signers ops
      { s.addAuthorization U.updateId signed with storage := st } := by
  refine .waits hkeys hheight _ Std.ExtTreeMap.getElem?_insert_self
    ⟨signed, Table.mem_values_iff.2 ⟨signed.signer, Std.ExtTreeMap.getElem?_insert_self⟩,
      (KeyRing.verifiedValidatorSetMetadataUpdate_eq_ok.1 hverified).1⟩ hfew fun v hv => ?_
  rw [Table.contains_insert]
  by_cases heq : signed.signer = v
  · exact .inl (.inl heq)
  · refine (hleft v hv).imp .inr fun h => left_of_cons h ?_
    rintro ⟨other, hother, hsigner, -⟩
    exact heq (hop.unique hother ▸ hsigner)

/-- Where the update waits, no other one is taken for it. -/
theorem eq_of_takes (hfiled : s.pendingAuthorizations.Filed) {signer : String}
    (htakes : s.Takes env update signer) (hid : update.updateId = U.updateId)
    {waiting : Std.ExtTreeMap String (Signed ProtocolMessage)}
    (there : s.pendingAuthorizations[U.updateId]? = some waiting)
    (theirs : ∃ signed ∈ waiting.values, signed.message = .validatorSetMetadataUpdate U) :
    update = U := by
  obtain ⟨signed, hsigned, hmessage⟩ := theirs
  obtain ⟨-, u, -, hall⟩ := hfiled _ _ there
  have hu : ∀ other ∈ waiting.values, other.message = .validatorSetMetadataUpdate u := by
    intro other hother
    obtain ⟨v, hv⟩ := Table.mem_values_iff.1 hother
    exact (hall v other hv).2
  obtain rfl : u = U :=
    ProtocolMessage.validatorSetMetadataUpdate.inj ((hu signed hsigned).symm.trans hmessage)
  obtain ⟨first, rest, hvalues⟩ := List.exists_cons_of_ne_nil (List.ne_nil_of_mem hsigned)
  have hfirst := htakes.same first (by
    rw [PersistentValidatorNode.authorizationsFor, hid, there, Option.getD_some, hvalues]
    rfl)
  exact ProtocolMessage.validatorSetMetadataUpdate.inj
    ((KeyRing.verifiedValidatorSetMetadataUpdate_eq_ok.1 hfirst).1.symm.trans
      (hu first (hvalues ▸ List.mem_cons_self)))

/-- With every delivery the quorum comes closer to its goal, or at least stays where it is. -/
theorem step (hfiled : s.pendingAuthorizations.Filed) (hfits : U.Fits n.validatorKeys)
    (hunexpired : U.expired n.currentHeight = false)
    (hfresh : n.hasAppliedValidatorSetUpdate U.updateId = false) (hop : op.Delivers signed)
    (hmessage : signed.message = .validatorSetMetadataUpdate update)
    (hother : ∀ u, op.Applies env s u → u = U)
    (hclear : s.hasAppliedValidatorSetUpdate U.updateId = false →
      s.verifiedValidatorSetMetadataUpdate env signed = .ok U → s.Clear env U signed)
    (h : Progress env n U signers (op :: ops) s) :
    Progress env n U signers ops (op.apply env s) := by
  -- only the update itself can change the keys
  have hkeys : (op.apply env s).toKeyRing = s.toKeyRing ∨
      KeyChange env (op.quorum s) s.toKeyRing (op.authorizations s) U
        (op.apply env s).toKeyRing := by
    refine (PersistentOp.keys_apply env s hop.not_local).imp_right ?_
    rintro ⟨u, -, hchange⟩
    obtain rfl := hother u (PersistentOp.applies_of_keyChange hchange)
    exact hchange
  by_cases happlied : s.toKeyRing = n.toKeyRing.updated U (U.keyring n.validatorKeys)
  · rcases hkeys with hsame | hchange
    · exact .applied (hsame.trans happlied)
    · have hfresh' := hchange.fresh
      rw [happlied] at hfresh'
      simp [KeyRing.hasAppliedValidatorSetUpdate, KeyRing.updated] at hfresh'
  have hstart : s.toKeyRing = n.toKeyRing ∧ s.currentHeight = n.currentHeight ∧
      ∀ v ∈ signers, (s.authorizationsFor U.updateId).contains v = true ∨
        ∃ o ∈ op :: ops, o.Authorizes env n.toKeyRing U v := by
    cases h with
    | quiet keys height left => exact ⟨keys, height, fun v hv => .inr (left v hv)⟩
    | waits keys height waiting there theirs few left =>
      rw [PersistentValidatorNode.authorizationsFor, there, Option.getD_some]
      exact ⟨keys, height, left⟩
    | applied keys => exact absurd keys happlied
  obtain ⟨hsame, hheight, hleft⟩ := hstart
  by_cases hU : s.verifiedValidatorSetMetadataUpdate env signed = .ok U
  · -- a delivery of the quorum
    obtain rfl : update = U := ProtocolMessage.validatorSetMetadataUpdate.inj
      (hmessage.symm.trans (KeyRing.verifiedValidatorSetMetadataUpdate_eq_ok.1 hU).1)
    have hfresh' : s.hasAppliedValidatorSetUpdate update.updateId = false := by rw [hsame, hfresh]
    refine (hop.wp_run hmessage (fun hnot => absurd hU hnot) fun hverified =>
      PersistentNode.wp_deliverAuthorization_of_clear hfresh' (by rw [hsame]; exact hfits) hfiled
        (hclear hfresh' hU) hverified (hheight ▸ hunexpired) ?_ ?_).endState
    · intro st hfew
      refine of_kept hsame hheight hleft hop (hsame ▸ hU) (hfew.trans_eq ?_)
      rw [KeyRing.validatorSetMetadataQuorum, hsame]
      rfl
    · intro n' hn'
      exact .applied (by rw [hn', hsame])
  · -- a delivery of somebody else, or of something else
    have hnot (v : String) : ¬op.Authorizes env n.toKeyRing U v := by
      rintro ⟨other, hdelivers, -, hverified⟩
      rw [← hop.unique hdelivers, ← hsame] at hverified
      exact hU hverified
    have hstill : (op.apply env s).toKeyRing = s.toKeyRing :=
      hkeys.resolve_right fun hchange =>
        hU (hchange.signed signed (hop.mem_authorizations hmessage))
    refine wp.endState (P := fun s' => s'.toKeyRing = s.toKeyRing → Progress env n U signers ops s')
      ?_ hstill
    refine hop.wp_run hmessage (fun _ _ => h.of_same hnot rfl rfl fun _ there _ => there)
      fun hverified => ?_
    refine PersistentNode.wp_deliverAuthorization hverified ?_ ?_ ?_
    · exact fun st _ => h.of_same hnot rfl rfl fun _ there _ => there
    · intro st htakes _
      refine h.of_same hnot rfl rfl fun waiting there theirs => ?_
      refine (Std.ExtTreeMap.getElem?_insert).trans ?_
      rw [if_neg fun heq => ?_, there]
      obtain rfl := eq_of_takes hfiled htakes (Std.LawfulEqCmp.compare_eq_iff_eq.1 heq) there
        theirs
      exact hU hverified
    · intro n' _ hchange heq
      have happlied' := hchange.hasApplied_iff.2 (.inl rfl)
      rw [heq, hchange.fresh] at happlied'
      exact absurd happlied' Bool.false_ne_true

theorem run (h : Progress env n U signers ops s) (hfiled : s.pendingAuthorizations.Filed)
    (hfits : U.Fits n.validatorKeys) (hunexpired : U.expired n.currentHeight = false)
    (hfresh : n.hasAppliedValidatorSetUpdate U.updateId = false)
    (hops : ∀ op ∈ ops, ∃ signed update, op.Delivers signed ∧
      signed.message = .validatorSetMetadataUpdate update)
    (hother : ∀ p ∈ stepsFrom (PersistentOp.apply env) s ops, ∀ u,
      p.2.Applies env p.1 u → u = U)
    (hclear : ∀ p ∈ stepsFrom (PersistentOp.apply env) s ops,
      p.1.hasAppliedValidatorSetUpdate U.updateId = false → ∀ signed, p.2.Delivers signed →
      p.1.verifiedValidatorSetMetadataUpdate env signed = .ok U → p.1.Clear env U signed) :
    Progress env n U signers [] (runFrom (PersistentOp.apply env) s ops) := by
  induction ops generalizing s with
  | nil => exact h
  | cons op ops ih =>
    obtain ⟨⟨signed, update, hop, hmessage⟩, hops⟩ := List.forall_mem_cons.1 hops
    obtain ⟨honly, hother⟩ := List.forall_mem_cons.1 hother
    obtain ⟨hnext, hclear⟩ := List.forall_mem_cons.1 hclear
    have hstep := h.step hfiled hfits hunexpired hfresh hop hmessage honly
      fun hbefore => hnext hbefore signed hop
    exact ih hstep (PersistentValidatorNode.filed_apply hfiled op) hops hother hclear

end Progress

end Phases

namespace Handover

/-! Four validators, of which one takes the identifier of an update before the others. -/

end Handover

end Detta
