import Detta.Base.Run
import Detta.Safety.Persistent

/-!
# Changes of the keys

The keys that a node believes change by updates, which a quorum of the validators has signed.
What has happened when an update was applied is said once (`KeyChange`): the update is new, it
fits the keys, and the authorizations that were at hand are all for this update and verify
under the keys before. From this follows, for whole runs of a node,

* that every change of the keys has a quorum behind it, and leaves keys if the update does;
* that an update is applied before it expires, unless it is applied directly;
* that a quorum gets its update through, unless others are in its way.
-/

namespace Detta

open Std (ExtTreeMap ExtTreeSet TransOrd LawfulEqCmp LawfulEqOrd)

namespace Table

variable {K V : Type} [Ord K] [TransOrd K] [LawfulEqOrd K]

variable {t : ExtTreeMap K V}

theorem size_foldl_erase {l : List K} (hnodup : l.Nodup) (hthere : ∀ k ∈ l, t.contains k = true) :
    (l.foldl (fun t k => t.erase k) t).size + l.length = t.size := by
  induction l generalizing t with
  | nil => rfl
  | cons k l ih =>
    obtain ⟨hk, hthere⟩ := List.forall_mem_cons.1 hthere
    obtain ⟨hnot, hnodup⟩ := List.nodup_cons.1 hnodup
    have hrest : ∀ k' ∈ l, (t.erase k).contains k' = true := fun k' hk' => by
      rw [ExtTreeMap.contains_erase, hthere k' hk', Bool.and_true, bne_iff_ne, ne_eq,
        LawfulEqCmp.compare_eq_iff_eq]
      exact fun heq => hnot (heq ▸ hk')
    have hsize := ih hnodup hrest
    have hpos : t.size ≠ 0 := fun hzero => by
      rw [ExtTreeMap.eq_empty_iff_size_eq_zero.2 hzero] at hk
      simp at hk
    rw [ExtTreeMap.size_erase, if_pos hk] at hsize
    rw [List.foldl_cons, List.length_cons]
    omega

theorem size_foldl_insert {α : Type} {f : α → K} {g : α → V} {l : List α}
    (hnodup : (l.map f).Nodup) (hnew : ∀ a ∈ l, t.contains (f a) = false) :
    (l.foldl (fun t a => t.insert (f a) (g a)) t).size = t.size + l.length := by
  induction l generalizing t with
  | nil => rfl
  | cons a l ih =>
    obtain ⟨ha, hnew⟩ := List.forall_mem_cons.1 hnew
    obtain ⟨hnot, hnodup⟩ := List.nodup_cons.1 hnodup
    have hrest : ∀ b ∈ l, (t.insert (f a) (g a)).contains (f b) = false := fun b hb => by
      rw [ExtTreeMap.contains_insert, hnew b hb, Bool.or_false, beq_eq_false_iff_ne, ne_eq,
        LawfulEqCmp.compare_eq_iff_eq]
      exact fun heq => hnot (List.mem_map.2 ⟨b, hb, heq.symm⟩)
    rw [List.foldl_cons, ih hnodup hrest, ExtTreeMap.size_insert, ha, List.length_cons]
    simp only [Bool.false_eq_true, if_false]
    omega

/-- Values that know their keys. -/
theorem map_values_eq_keys {f : V → K} (h : ∀ (k : K) (v : V), t[k]? = some v → f v = k) :
    t.values.map f = t.keys := by
  rw [values_eq_map_toList, ← ExtTreeMap.map_fst_toList_eq_keys, List.map_map]
  exact List.map_congr_left fun entry hentry =>
    h entry.1 entry.2 (ExtTreeMap.mem_toList_iff_getElem?_eq_some.1 hentry)

end Table

/-! ## One update -/

namespace ValidatorSetMetadataUpdate

variable (update : ValidatorSetMetadataUpdate)
  (keys : ExtTreeMap String ValidatorPublicKey)

/-- The keys without those that are removed. -/
def remaining : ExtTreeMap String ValidatorPublicKey :=
  update.removeValidators.foldl (fun t v => t.erase v) keys

/-- The keys after an update. -/
def keyring : ExtTreeMap String ValidatorPublicKey :=
  update.addValidators.foldl (fun t key => t.insert key.validatorId key) (update.remaining keys)

/-- Who is removed is there, and who is added is not. -/
structure Fits : Prop where
  removed_nodup : update.removeValidators.Nodup
  removed_there : ∀ v ∈ update.removeValidators, keys.contains v = true
  added_nodup : (update.addValidators.map (·.validatorId)).Nodup
  added_new : ∀ key ∈ update.addValidators,
    (update.remaining keys).contains key.validatorId = false

variable {update keys} {keys' : ExtTreeMap String ValidatorPublicKey}

theorem removeKeys_eq_ok {l : List String} :
    removeKeys keys l = .ok keys' ↔
      l.Nodup ∧ (∀ v ∈ l, keys.contains v = true) ∧ keys' = l.foldl (fun t v => t.erase v) keys := by
  induction l generalizing keys with
  | nil => exact ⟨fun h => ⟨.nil, by simp, (Except.ok.inj h).symm⟩, fun ⟨_, _, h⟩ => h ▸ rfl⟩
  | cons v l ih =>
    rw [removeKeys]
    split
    next hv =>
      simp only [ih, List.nodup_cons, List.forall_mem_cons, hv, true_and, List.foldl_cons,
        ExtTreeMap.contains_erase, Bool.and_eq_true, bne_iff_ne, ne_eq,
        LawfulEqCmp.compare_eq_iff_eq]
      constructor
      · rintro ⟨hnodup, hthere, rfl⟩
        exact ⟨⟨fun hmem => (hthere v hmem).1 rfl, hnodup⟩, fun w hw => (hthere w hw).2, rfl⟩
      · rintro ⟨⟨hnot, hnodup⟩, hthere, rfl⟩
        exact ⟨hnodup, fun w hw => ⟨fun heq => hnot (heq ▸ hw), hthere w hw⟩, rfl⟩
    next hv => exact ⟨nofun, fun ⟨_, hthere, _⟩ => absurd (hthere v List.mem_cons_self) hv⟩

theorem addKeys_eq_ok {l : List ValidatorPublicKey} :
    addKeys keys l = .ok keys' ↔
      (l.map (·.validatorId)).Nodup ∧ (∀ key ∈ l, keys.contains key.validatorId = false) ∧
        keys' = l.foldl (fun t key => t.insert key.validatorId key) keys := by
  induction l generalizing keys with
  | nil => exact ⟨fun h => ⟨.nil, by simp, (Except.ok.inj h).symm⟩, fun ⟨_, _, h⟩ => h ▸ rfl⟩
  | cons key l ih =>
    rw [addKeys]
    split
    next hkey =>
      exact ⟨nofun, fun ⟨_, hnew, _⟩ =>
        absurd hkey (Bool.eq_false_iff.1 (hnew key List.mem_cons_self))⟩
    next hkey =>
      simp only [ih, List.map_cons, List.nodup_cons, List.mem_map, List.forall_mem_cons,
        Bool.eq_false_iff.2 hkey, true_and, List.foldl_cons, ExtTreeMap.contains_insert,
        Bool.or_eq_false_iff, beq_eq_false_iff_ne, ne_eq, LawfulEqCmp.compare_eq_iff_eq]
      constructor
      · rintro ⟨hnodup, hnew, rfl⟩
        exact ⟨⟨fun ⟨w, hw, heq⟩ => (hnew w hw).1 heq.symm, hnodup⟩, fun w hw => (hnew w hw).2,
          rfl⟩
      · rintro ⟨⟨hnot, hnodup⟩, hnew, rfl⟩
        exact ⟨hnodup, fun w hw => ⟨fun heq => hnot ⟨w, hw, heq.symm⟩, hnew w hw⟩, rfl⟩

theorem nextKeyring_eq_ok :
    update.nextKeyring keys = .ok keys' ↔ update.Fits keys ∧ keys' = update.keyring keys := by
  unfold nextKeyring
  constructor
  · intro h
    obtain ⟨rest, hrest, h⟩ := exists_of_bind_eq_ok h
    obtain ⟨h₁, h₂, rfl⟩ := removeKeys_eq_ok.1 hrest
    obtain ⟨h₃, h₄, rfl⟩ := addKeys_eq_ok.1 h
    exact ⟨⟨h₁, h₂, h₃, h₄⟩, rfl⟩
  · rintro ⟨⟨h₁, h₂, h₃, h₄⟩, rfl⟩
    rw [removeKeys_eq_ok.2 ⟨h₁, h₂, rfl⟩]
    exact addKeys_eq_ok.2 ⟨h₃, h₄, rfl⟩

/-- How many keys there are after an update. -/
theorem Fits.size_keyring (h : update.Fits keys) :
    (update.keyring keys).size + update.removeValidators.length =
      keys.size + update.addValidators.length := by
  have hremaining := Table.size_foldl_erase h.removed_nodup h.removed_there
  have hadded := Table.size_foldl_insert (g := id) h.added_nodup h.added_new
  unfold keyring
  unfold remaining at hadded ⊢
  simp only [id_eq] at hadded
  omega

end ValidatorSetMetadataUpdate

/-! ## Authorizations -/

namespace KeyRing

variable {env : NodeEnv} {k : KeyRing} {update : ValidatorSetMetadataUpdate}
  {signed : Signed ProtocolMessage} {authorizers : ExtTreeSet String}
  {messages : List ProtocolMessage}

/-- An authorization is verified if it is for the update, and its signature is good under the
    key of its signer. -/
theorem verifiedValidatorSetMetadataUpdate_eq_ok :
    k.verifiedValidatorSetMetadataUpdate env signed = .ok update ↔
      signed.message = .validatorSetMetadataUpdate update ∧
        ∃ publicKey, k.validatorKeys[signed.signer]? = some publicKey ∧
          signed.verify env.toProtocolEnv k.networkId k.chainId publicKey = .ok () := by
  rw [verifiedValidatorSetMetadataUpdate, bind_eq_ok, and_comm, verifySignedValidatorMessage]
  refine and_congr ?_ ?_
  · cases signed.message <;> simp
  · cases k.validatorKeys[signed.signer]? with
    | none => simp
    | some publicKey =>
      simp only [Option.some.injEq, exists_eq_left']
      generalize signed.verify env.toProtocolEnv k.networkId k.chainId publicKey = r
      cases r <;> simp [Except.mapError]

/-- Someone has signed the update for this network and chain, with the key that is known. -/
def HasSigned (env : NodeEnv) (k : KeyRing) (update : ValidatorSetMetadataUpdate)
    (validatorId : String) : Prop :=
  ∃ (signed : Signed ProtocolMessage) (publicKey : ValidatorPublicKey),
    signed.signer = validatorId ∧ signed.message = .validatorSetMetadataUpdate update ∧
      k.validatorKeys[validatorId]? = some publicKey ∧
      signed.verify env.toProtocolEnv k.networkId k.chainId publicKey = .ok ()

/-- Who has signed some authorizations. -/
def signersOf (authorizations : List (Signed ProtocolMessage)) : Finset String :=
  (authorizations.map (·.signer)).toFinset

theorem elements_foldl_insert {authorizations : List (Signed ProtocolMessage)}
    {t : ExtTreeSet String} :
    (authorizations.foldl (fun t signed => t.insert signed.signer) t).toList.toFinset =
      t.toList.toFinset ∪ signersOf authorizations := by
  induction authorizations generalizing t with
  | nil => simp [signersOf]
  | cons signed authorizations ih =>
    rw [List.foldl_cons, ih]
    ext v
    simp only [signersOf, List.map_cons, List.toFinset_cons, Finset.mem_union, List.mem_toFinset,
      ExtTreeSet.mem_toList, ExtTreeSet.mem_insert, Finset.mem_insert,
      LawfulEqCmp.compare_eq_iff_eq, eq_comm (a := v), or_left_comm, or_assoc]

/-- Messages authorize an update if all of them are signed, verified, and for this update. -/
theorem collectAuthorizations_some_eq_ok
    {r : Option ValidatorSetMetadataUpdate × ExtTreeSet String}
    (hfresh : k.hasAppliedValidatorSetUpdate update.updateId = false) :
    k.collectAuthorizations env (some update) authorizers messages = .ok r ↔
      ∃ authorizations : List (Signed ProtocolMessage),
        messages = authorizations.map .signedValidator ∧
        (∀ signed ∈ authorizations,
          k.verifiedValidatorSetMetadataUpdate env signed = .ok update) ∧
        r = (some update, authorizations.foldl (fun t signed => t.insert signed.signer)
          authorizers) := by
  induction messages generalizing authorizers with
  | nil => 
    constructor
    · intro h
      exact ⟨[], rfl, by simp, (Except.ok.inj h).symm⟩
    · rintro ⟨authorizations, hmap, -, rfl⟩
      rw [List.map_eq_nil_iff.1 hmap.symm]
      rfl
  | cons message messages ih =>
    constructor
    · intro h
      cases message with
      | signedValidator signed =>
        obtain ⟨u, hu, h⟩ := exists_of_bind_eq_ok h
        simp only [ite_error_eq_ok, Option.any_some, decide_eq_true_eq, ne_eq, not_not] at h
        obtain ⟨-, rfl, h⟩ := h
        obtain ⟨authorizations, rfl, hall, rfl⟩ := ih.1 h
        exact ⟨signed :: authorizations, rfl, List.forall_mem_cons.2 ⟨hu, hall⟩, rfl⟩
      | _ => exact absurd h nofun
    · rintro ⟨_ | ⟨signed, authorizations⟩, hmap, hall, rfl⟩
      · exact absurd hmap nofun
      · obtain ⟨rfl, rfl⟩ := List.cons.inj hmap
        obtain ⟨hsigned, hall⟩ := List.forall_mem_cons.1 hall
        rw [collectAuthorizations, hsigned]
        have hrest := ih.2 ⟨authorizations, rfl, hall, rfl⟩
        simpa [bind, Except.bind, hfresh] using hrest

theorem collectAuthorizations_eq_ok :
    k.collectAuthorizations env none ∅ messages = .ok (some update, authorizers) ↔
      k.hasAppliedValidatorSetUpdate update.updateId = false ∧
      ∃ authorizations : List (Signed ProtocolMessage), authorizations ≠ [] ∧
        messages = authorizations.map .signedValidator ∧
        (∀ signed ∈ authorizations,
          k.verifiedValidatorSetMetadataUpdate env signed = .ok update) ∧
        authorizers = authorizations.foldl (fun t signed => t.insert signed.signer) ∅ := by
  constructor
  · intro h
    match messages with
    | [] => exact absurd h nofun
    | message :: messages =>
      cases message with
      | signedValidator signed =>
        obtain ⟨u, hu, h⟩ := exists_of_bind_eq_ok h
        simp only [ite_error_eq_ok, Option.any_none, Bool.not_eq_true] at h
        obtain ⟨hfresh, -, h⟩ := h
        obtain ⟨authorizations, rfl, hall, hr⟩ := (collectAuthorizations_some_eq_ok hfresh).1 h
        obtain ⟨rfl, rfl⟩ : update = u ∧ authorizers = _ := by simpa using hr
        exact ⟨hfresh, signed :: authorizations, by simp, rfl,
          List.forall_mem_cons.2 ⟨hu, hall⟩, rfl⟩
      | _ => exact absurd h nofun
  · rintro ⟨hfresh, _ | ⟨signed, authorizations⟩, hne, rfl, hall, rfl⟩
    · exact absurd rfl hne
    · obtain ⟨hsigned, hall⟩ := List.forall_mem_cons.1 hall
      have hrest : k.collectAuthorizations env (some update) (insert signed.signer ∅)
          (authorizations.map .signedValidator) = .ok _ :=
        (collectAuthorizations_some_eq_ok hfresh).2 ⟨authorizations, rfl, hall, rfl⟩
      rw [List.map_cons, collectAuthorizations, hsigned]
      simpa [bind, Except.bind, hfresh] using hrest

/-- As many have authorized as have signed. -/
theorem size_foldl_insert (authorizations : List (Signed ProtocolMessage)) :
    (authorizations.foldl (fun t signed => t.insert signed.signer)
      (∅ : ExtTreeSet String)).size = (signersOf authorizations).card := by
  rw [← Table.card_elements, elements_foldl_insert]
  exact congrArg Finset.card (Finset.empty_union _)

end KeyRing

/-- An update was applied: it was not applied before, it fits the keys, and these authorizations
    were there, all of them for this update, and from a quorum. -/
structure KeyChange (env : NodeEnv) (quorum : ℕ) (k : KeyRing)
    (authorizations : List (Signed ProtocolMessage)) (update : ValidatorSetMetadataUpdate)
    (k' : KeyRing) : Prop where
  fresh : k.hasAppliedValidatorSetUpdate update.updateId = false
  fits : update.Fits k.validatorKeys
  nonempty : authorizations ≠ []
  signed : ∀ signed ∈ authorizations,
    k.verifiedValidatorSetMetadataUpdate env signed = .ok update
  quorum : quorum ≤ (KeyRing.signersOf authorizations).card
  after : k' = k.updated update (update.keyring k.validatorKeys)

namespace KeyChange

variable {env : NodeEnv} {quorum : ℕ} {k k' : KeyRing}
  {authorizations : List (Signed ProtocolMessage)} {update : ValidatorSetMetadataUpdate}

theorem hasApplied_iff (h : KeyChange env quorum k authorizations update k') {updateId : String} :
    k'.hasAppliedValidatorSetUpdate updateId = true ↔
      updateId = update.updateId ∨ k.hasAppliedValidatorSetUpdate updateId = true := by
  rw [h.after, KeyRing.hasAppliedValidatorSetUpdate, KeyRing.updated, Table.contains_insert_set,
    eq_comm]
  rfl

/-- Everybody who counts has a key, and has signed the update with it. -/
theorem signed_of_mem (h : KeyChange env quorum k authorizations update k') {v : String}
    (hv : v ∈ KeyRing.signersOf authorizations) : k.HasSigned env update v := by
  obtain ⟨signed, hmem, rfl⟩ := List.mem_map.1 (List.mem_toFinset.1 hv)
  obtain ⟨hmessage, publicKey, hkey, hverify⟩ :=
    KeyRing.verifiedValidatorSetMetadataUpdate_eq_ok.1 (h.signed signed hmem)
  exact ⟨signed, publicKey, rfl, hmessage, hkey, hverify⟩

/-- Keys are left if fewer are removed than there were and are added. -/
theorem keys_ne_empty_iff (h : KeyChange env quorum k authorizations update k') :
    k'.validatorKeys ≠ ∅ ↔
      update.removeValidators.length < k.validatorKeys.size + update.addValidators.length := by
  have hsize := h.fits.size_keyring
  have hkeys : k'.validatorKeys = update.keyring k.validatorKeys := congrArg _ h.after
  rw [hkeys, ne_eq, ExtTreeMap.eq_empty_iff_size_eq_zero]
  omega

end KeyChange

namespace PersistentNode

variable {env : NodeEnv} {n : PersistentValidatorNode}

variable {signed : Signed ProtocolMessage} {P : PersistentValidatorNode → Prop}
  {update : ValidatorSetMetadataUpdate}

theorem wp_applyValidatorSetMetadataUpdate :
    wp (applyValidatorSetMetadataUpdate env update)
      (fun _ n' => n.hasAppliedValidatorSetUpdate update.updateId = false ∧
        update.Fits n.validatorKeys ∧
        n'.toKeyRing = n.toKeyRing.updated update (update.keyring n.validatorKeys))
      (fun _ n' => ∃ st, n' = { n with storage := st }) n := by
  have hsame : ∃ st, n = { n with storage := st } := ⟨n.storage, rfl⟩
  unfold applyValidatorSetMetadataUpdate Storage.commitValidatorSetMetadata
  refine .get (.ensure ⟨fun hfresh => ?_, fun _ => hsame⟩)
  refine wp_bind.2 (wp_ofExcept.2 ⟨fun keyring hnext => ?_, fun _ _ => hsame⟩)
  obtain ⟨hfits, rfl⟩ := ValidatorSetMetadataUpdate.nextKeyring_eq_ok.1 hnext
  refine wp_bind.2 (wp_onStorage.2 (Storage.wp_writeJsonAtomic (fun _ f => ?_)
    fun _ _ => ⟨_, rfl⟩))
  exact ⟨hfresh, hfits, rfl⟩

theorem wp_applyQuorumAuthorizedValidatorSetMetadataUpdateWithQuorum
    {messages : List ProtocolMessage} {quorum : ℕ} :
    wp (applyQuorumAuthorizedValidatorSetMetadataUpdateWithQuorum env messages quorum)
      (fun _ n' => ∃ authorizations update, messages = authorizations.map .signedValidator ∧
        KeyChange env quorum n.toKeyRing authorizations update n'.toKeyRing)
      (fun _ n' => ∃ st, n' = { n with storage := st }) n := by
  have hsame : ∃ st, n = { n with storage := st } := ⟨n.storage, rfl⟩
  unfold applyQuorumAuthorizedValidatorSetMetadataUpdateWithQuorum
  refine .get (wp_bind.2 (wp_ofExcept.2 ⟨fun r hr => ?_, fun _ _ => hsame⟩))
  obtain ⟨authorized, authorizers⟩ := r
  refine .ensure ⟨fun hquorum => ?_, fun _ => hsame⟩
  refine .okOr ⟨fun update hupdate => ?_, fun _ => hsame⟩
  subst hupdate
  obtain ⟨-, authorizations, hne, rfl, hall, rfl⟩ := KeyRing.collectAuthorizations_eq_ok.1 hr
  rw [KeyRing.size_foldl_insert] at hquorum
  refine wp_applyValidatorSetMetadataUpdate.mono ?_ fun _ _ h => h
  rintro - n' ⟨hfresh, hfits, hafter⟩
  exact ⟨authorizations, update, rfl, hfresh, hfits, hne, hall, hquorum, hafter⟩

/-- The update of the authorizations that wait is applied, or only files are changed. -/
theorem wp_applyPendingValidatorSetMetadataUpdate {updateId : String}
    (hsame : ∀ st, P { n with storage := st })
    (hchange : ∀ update n', KeyChange env n.validatorSetMetadataQuorum n.toKeyRing
      (n.authorizationsFor updateId).values update n'.toKeyRing → P n') :
    wp (applyPendingValidatorSetMetadataUpdate env updateId) (fun _ => P) (fun _ => P) n := by
  unfold applyPendingValidatorSetMetadataUpdate
  refine .get (.okOr
    ⟨fun waiting hwaiting => ?_, fun _ => hsame n.storage⟩)
  have hfor : n.authorizationsFor updateId = waiting := by
    rw [PersistentValidatorNode.authorizationsFor, hwaiting, Option.getD_some]
  refine wp_bind.2 (wp_attempt.2 (.get ?_))
  refine wp_applyQuorumAuthorizedValidatorSetMetadataUpdateWithQuorum.mono ?_ ?_
  · rintro - n' ⟨authorizations, update, hmap, h⟩
    obtain rfl : waiting.values = authorizations :=
      List.map_injective_iff.2 (fun _ _ => ProtocolMessage.signedValidator.inj) hmap
    -- the keys are as they should be, and stay so
    have hI : Insensitive env FileStorage.slashings fun n'' => n''.toKeyRing = n'.toKeyRing :=
      .of_keys (· = n'.toKeyRing)
    refine (((hI.recordValidatorSetMetadataAudit _ _ _ _).bind fun _ =>
      (Keeps.update fun n hn => hI.drop n _ hn).bind fun _ =>
        hI.persistPendingValidatorSetMetadataAuthorizations) n' rfl).mono ?_ ?_
    all_goals exact fun _ n'' hn'' => hchange update n'' (hn'' ▸ hfor ▸ h)
  · rintro error n' ⟨st, rfl⟩
    refine wp_bind.2 ((OnlyFiles.recordValidatorSetMetadataAudit _ _ _ _ _).mono ?_ ?_)
    all_goals
      rintro - n'' ⟨st', rfl⟩
      exact hsame st'

/-- An authorization is put to the others, or nothing but the files is changed. -/
theorem wp_recordPendingAuthorization :
    wp (recordPendingAuthorization env signed)
      (fun count n' => ∃ update st, n.verifiedValidatorSetMetadataUpdate env signed = .ok update ∧
        n.Takes env update signed.signer ∧
        n' = { n.addAuthorization update.updateId signed with storage := st } ∧
        count = (n'.authorizationsFor update.updateId).size)
      (fun _ n' => ∃ st, n' = { n with storage := st } ∨
        ∃ update, n.verifiedValidatorSetMetadataUpdate env signed = .ok update ∧
          n.Takes env update signed.signer ∧
          n' = { n.addAuthorization update.updateId signed with storage := st }) n := by
  unfold recordPendingAuthorization
  refine .get ?_
  split
  next error _ =>
    split
    next update _ =>
      refine wp_bind.2 ((OnlyFiles.recordValidatorSetMetadataAudit _ _ _ _ n).mono ?_ ?_)
      all_goals
        rintro - n' ⟨st, rfl⟩
        exact ⟨st, .inl rfl⟩
    next => exact ⟨n.storage, .inl rfl⟩
  next next count hinsert =>
    obtain ⟨update, hverified, htakes, rfl, rfl⟩ :=
      PersistentValidatorNode.insertPendingValidatorSetMetadataAuthorization_eq_ok.1 hinsert
    refine .set (wp_bind.2 ?_)
    refine (OnlyFiles.persistPendingValidatorSetMetadataAuthorizations _).mono ?_ ?_
    · rintro - n' ⟨st, rfl⟩
      exact ⟨update, st, hverified, htakes, rfl, rfl⟩
    · rintro - n' ⟨st, rfl⟩
      exact ⟨st, .inr ⟨update, hverified, htakes, rfl⟩⟩

theorem authorizationsFor_addAuthorization {updateId : String} {st : FileStorage} :
    PersistentValidatorNode.authorizationsFor
      { n.addAuthorization updateId signed with storage := st } updateId =
        (n.authorizationsFor updateId).insert signed.signer signed := by
  simp [PersistentValidatorNode.authorizationsFor, PersistentValidatorNode.addAuthorization]

/-- An authorization that is delivered is refused, is kept, or has its update applied. -/
theorem wp_deliverAuthorization
    (hverified : n.verifiedValidatorSetMetadataUpdate env signed = .ok update)
    (hsame : ∀ st, P { n with storage := st })
    (hkept : ∀ st, n.Takes env update signed.signer →
      P { n.addAuthorization update.updateId signed with storage := st })
    (hchange : ∀ n', update.expired n.currentHeight = false →
      KeyChange env n.validatorSetMetadataQuorum n.toKeyRing
        ((n.authorizationsFor update.updateId).insert signed.signer signed).values update
        n'.toKeyRing → P n') :
    wp (deliverAuthorization env signed update.updateId) (fun _ => P) (fun _ => P) n := by
  unfold deliverAuthorization
  refine wp_bind.2 (wp_recordPendingAuthorization.mono ?_ ?_)
  · rintro count n' ⟨u, st, hu, htakes, rfl, -⟩
    obtain rfl : update = u := Except.ok.inj (hverified.symm.trans hu)
    refine .get ?_
    split
    · refine wp_bind.2 (wp_applyPendingValidatorSetMetadataUpdate (fun st => hkept st htakes)
        fun u n' h => ?_)
      rw [authorizationsFor_addAuthorization] at h
      have hmem : signed ∈ ((n.authorizationsFor update.updateId).insert signed.signer
        signed).values := Table.mem_values_iff.2 ⟨signed.signer, by simp⟩
      obtain rfl : update = u := Except.ok.inj (hverified.symm.trans (h.signed signed hmem))
      exact hchange n' htakes.unexpired h
    · exact hkept st htakes
  · rintro - n' ⟨st, rfl | ⟨u, hu, htakes, rfl⟩⟩
    · exact hsame st
    · obtain rfl : update = u := Except.ok.inj (hverified.symm.trans hu)
      exact hkept st htakes

end PersistentNode

/-! ## Operations -/

/-- The authorizations that wait for the update of one that comes, with this one. -/
def PersistentValidatorNode.authorizationsWith (n : PersistentValidatorNode)
    (signed : Signed ProtocolMessage) : List (Signed ProtocolMessage) :=
  match signed.message with
  | .validatorSetMetadataUpdate update =>
    ((n.authorizationsFor update.updateId).insert signed.signer signed).values
  | _ => []

namespace PersistentOp

variable {env : NodeEnv} {n : PersistentValidatorNode}

/-- The authorizations that an operation has for an update. -/
def authorizations (n : PersistentValidatorNode) : PersistentOp → List (Signed ProtocolMessage)
  | ingestNetworkEnvelope (.signedValidator signed) => n.authorizationsWith signed
  | propose signed => n.authorizationsWith signed
  | applyPending updateId => (n.authorizationsFor updateId).values
  | applyQuorumAuthorized messages | applyQuorumAuthorizedWithQuorum messages _ =>
    messages.filterMap fun message =>
      match message with
      | .signedValidator signed => some signed
      | _ => none
  | _ => []

/-- How many have to sign an update. -/
def quorum (n : PersistentValidatorNode) : PersistentOp → ℕ
  | applyQuorumAuthorizedWithQuorum _ quorum => quorum
  | _ => n.validatorSetMetadataQuorum

/-- An update is applied that nobody has just authorized. -/
def Direct : PersistentOp → Prop
  | applyPending _ | applyQuorumAuthorized _ | applyQuorumAuthorizedWithQuorum _ _ => True
  | _ => False

/-- The keys, or the network, are set by whoever runs the node. -/
def Local : PersistentOp → Prop
  | setNetworkId _ | trustValidatorKey _ | persistValidatorSetMetadata _ _ => True
  | _ => False

variable {op : PersistentOp}

theorem filterMap_signedValidator (authorizations : List (Signed ProtocolMessage)) :
    (authorizations.map ProtocolMessage.signedValidator).filterMap (fun message =>
      match message with
      | .signedValidator signed => some signed
      | _ => none) = authorizations := by
  rw [List.filterMap_map]
  exact List.filterMap_some

theorem authorizationsWith_of_verified {signed : Signed ProtocolMessage}
    {update : ValidatorSetMetadataUpdate}
    (h : n.verifiedValidatorSetMetadataUpdate env signed = .ok update) :
    n.authorizationsWith signed =
      ((n.authorizationsFor update.updateId).insert signed.signer signed).values := by
  rw [PersistentValidatorNode.authorizationsWith,
    (KeyRing.verifiedValidatorSetMetadataUpdate_eq_ok.1 h).1]

open PersistentNode in
/-- What an operation can do to the keys. -/
theorem wp_run (hop : ¬op.Local) {P : KeyRing → Prop} (hsame : P n.toKeyRing)
    (hchange : ∀ update k', op.Direct ∨ update.expired n.currentHeight = false →
      KeyChange env (op.quorum n) n.toKeyRing (op.authorizations n) update k' → P k') :
    wp (op.run env) (fun _ n' => P n'.toKeyRing) (fun _ n' => P n'.toKeyRing) n := by
  have hP : Insensitive env FileStorage.slashings fun n' => P n'.toKeyRing := .of_keys P
  have hnode (n : PersistentValidatorNode) (node : ValidatorNode) (h : P n.toKeyRing) :
      P { n with node := node }.toKeyRing := h
  have hevidence (evidence : EquivocationEvidence) :
      wp (PersistentNode.persistEquivocationEvidence env evidence) (fun _ n' => P n'.toKeyRing)
        (fun _ n' => P n'.toKeyRing) n := by
    refine (OnlyFiles.persistEquivocationEvidence evidence n).mono ?_ ?_
    all_goals
      rintro - n' ⟨st, rfl⟩
      exact hsame
  cases op with
  | submitTransaction tx => exact hP.submitTransaction hnode tx n hsame
  | produceBlock height timestamp =>
    exact wp_discard.2 (hP.produceBlock hnode height timestamp n hsame)
  | importBlock block => exact hP.importBlock hnode block n hsame
  | ingestNetworkEnvelope message =>
    refine wp_discard.2 (wp_ingestNetworkEnvelope (P := fun n' => P n'.toKeyRing) hsame ?_ ?_ ?_ ?_)
    · exact fun tx _ => hP.submitTransaction hnode tx n hsame
    · exact fun block _ => hP.importBlock hnode block n hsame
    · exact fun evidence _ => hevidence evidence
    · rintro signed update rfl hverified
      refine wp_deliverAuthorization hverified (fun _ => hsame) (fun _ _ => hsame)
        fun n' hunexpired h => hchange update n'.toKeyRing (.inr hunexpired) ?_
      rwa [authorizations, authorizationsWith_of_verified hverified]
  | recordPending message =>
    refine wp_discard.2 ?_
    unfold recordPendingValidatorSetMetadataAuthorization
    split
    next signed => exact hP.recordPendingAuthorization signed n hsame
    next => exact hsame
  | propose signed =>
    refine wp_discard.2 ?_
    unfold proposeValidatorSetMetadataUpdateAuthorization
    refine .get (wp_bind.2 (wp_ofExcept.2 ⟨fun update hverified => ?_, ?_⟩))
    · refine wp_bind.2 (wp_deliverAuthorization hverified (fun _ => hsame) (fun _ _ => hsame)
        fun n' hunexpired h => hchange update n'.toKeyRing (.inr hunexpired) ?_)
      rwa [authorizations, authorizationsWith_of_verified hverified]
    · exact fun _ _ => hsame
  | prune => exact wp_discard.2 (hP.pruneValidatorSetMetadataAuthorizations n hsame)
  | applyPending updateId =>
    exact wp_applyPendingValidatorSetMetadataUpdate (fun _ => hsame) fun update n' =>
      hchange update n'.toKeyRing (.inl trivial)
  | applyQuorumAuthorized | applyQuorumAuthorizedWithQuorum =>
    refine wp_applyQuorumAuthorizedValidatorSetMetadataUpdateWithQuorum.mono ?_ ?_
    · rintro - n' ⟨auths, update, rfl, h⟩
      refine hchange update _ (.inl trivial) ?_
      rwa [authorizations, filterMap_signedValidator]
    · rintro - n' ⟨st, rfl⟩
      exact hsame
  | persistEquivocationEvidence evidence => exact wp_discard.2 (hevidence evidence)
  | importSnapshotChunkSet chunkSet required =>
    exact wp_discard.2 (hP.importSnapshotChunkSet chunkSet required n hsame)
  | setAuthorizationLimits | setValidatorSetMetadataAuditLimits => exact hsame
  | setSnapshotImportAuditLimits maxRecords maxPageSize =>
    exact .modify (hP.onStorage _ _ hsame)
  | setNetworkId | trustValidatorKey | persistValidatorSetMetadata => exact absurd trivial hop

/-- An update is applied, or no keys are changed. -/
theorem keys_apply (env : NodeEnv) (n : PersistentValidatorNode) (hop : ¬op.Local) :
    (op.apply env n).toKeyRing = n.toKeyRing ∨ ∃ update : ValidatorSetMetadataUpdate,
      (op.Direct ∨ update.expired n.currentHeight = false) ∧
      KeyChange env (op.quorum n) n.toKeyRing (op.authorizations n) update
        (op.apply env n).toKeyRing :=
  (wp_run (P := fun k => k = n.toKeyRing ∨ ∃ update : ValidatorSetMetadataUpdate,
    (op.Direct ∨ update.expired n.currentHeight = false) ∧
      KeyChange env (op.quorum n) n.toKeyRing (op.authorizations n) update k) hop (.inl rfl)
    fun update _ hexpired h => .inr ⟨update, hexpired, h⟩).endState

/-- An update stays applied. -/
theorem hasApplied_apply (hop : ¬op.Local) {updateId : String}
    (h : n.hasAppliedValidatorSetUpdate updateId = true) :
    (op.apply env n).hasAppliedValidatorSetUpdate updateId = true := by
  rcases keys_apply env n hop with hsame | ⟨update, -, hchange⟩
  · rw [hsame, h]
  · exact hchange.hasApplied_iff.2 (.inr h)

end PersistentOp

/-! ## A quorum for every change -/

/-- The operation handles authorizations. -/
def PersistentOp.Gathers : PersistentOp → Prop
  | ingestNetworkEnvelope _ | recordPending _ | propose _ | prune | applyPending _ => True
  | _ => False

theorem PersistentOp.Gathers.not_local {op : PersistentOp} (h : op.Gathers) : ¬op.Local := by
  cases op <;> first | exact id | exact h.elim

namespace PersistentValidatorNode

variable {env : NodeEnv}

theorem hasApplied_runFrom {n : PersistentValidatorNode} {ops : List PersistentOp}
    (hops : ∀ op ∈ ops, ¬op.Local) {updateId : String}
    (h : n.hasAppliedValidatorSetUpdate updateId = true) :
    (runFrom (PersistentOp.apply env) n ops).hasAppliedValidatorSetUpdate updateId = true :=
  (runFrom_invariant
    (I := fun n : PersistentValidatorNode => n.hasAppliedValidatorSetUpdate updateId = true) h
    (fun _ _ hn hop => PersistentOp.hasApplied_apply hop hn)
    fun p hp => hops p.2 (mem_of_mem_stepsFrom hp)).1

/-- If the keys change, one update explains the change: what it removes was there, what it adds
    was not, a quorum has signed it, each with the key it had, and it was never applied before.
    There are keys afterwards if and only if the update leaves some. -/
theorem keys_change_by_quorum (n s : PersistentValidatorNode) (before : List PersistentOp)
    (op : PersistentOp) (hbefore : ∀ o ∈ before, o.Gathers) (hop : op.Gathers)
    (hs : s = runFrom (PersistentOp.apply env) n before)
    (hchange : (op.apply env s).validatorKeys ≠ s.validatorKeys) :
    ∃ (update : ValidatorSetMetadataUpdate) (signers : Finset String),
      update.Fits s.validatorKeys ∧
      (op.apply env s).validatorKeys = update.keyring s.validatorKeys ∧
      quorumFor s.validatorKeys.size ≤ signers.card ∧
      (∀ v ∈ signers, s.toKeyRing.HasSigned env update v) ∧
      (∀ earlier, earlier <+: before →
        (runFrom (PersistentOp.apply env) n earlier).hasAppliedValidatorSetUpdate
          update.updateId = false) ∧
      ((op.apply env s).validatorKeys ≠ ∅ ↔
        update.removeValidators.length < s.validatorKeys.size + update.addValidators.length) := by
  -- the last step has applied some update, or has changed nothing
  obtain hsame | ⟨update, -, h⟩ := PersistentOp.keys_apply env s hop.not_local
  · exact absurd (congrArg KeyRing.validatorKeys hsame) hchange
  have hquorum : quorumFor s.validatorKeys.size ≤ op.quorum s := by
    cases op <;> first | exact le_max_left _ _ | exact hop.elim
  refine ⟨update, KeyRing.signersOf (op.authorizations s), h.fits, congrArg _ h.after,
    hquorum.trans h.quorum, fun v hv => h.signed_of_mem hv, ?_, h.keys_ne_empty_iff⟩
  rintro earlier ⟨later, rfl⟩
  refine Bool.eq_false_iff.2 fun happlied => ?_
  have hlater : ∀ o ∈ later, ¬o.Local := fun o ho =>
    (hbefore o (List.mem_append_right _ ho)).not_local
  have hstill : s.hasAppliedValidatorSetUpdate update.updateId = true := by
    rw [hs, runFrom_append]
    exact hasApplied_runFrom hlater happlied
  exact Bool.false_ne_true (h.fresh.symm.trans hstill)

end PersistentValidatorNode

namespace Handover

/-! A node of one validator, which keeps its own key. -/

def env : NodeEnv where
  hashing := ⟨fun _ => [], fun _ => [0]⟩
  parseFinalityProof _ := none
  parseModule _ := none
  verifyModule _ := none
  messageBytes _ := some []
  readSnapshot _ := none
  isVerifyingKey _ := true
  verifies _ _ _ := true
  storedBytes _ := []
  ioMessage := "failed"

def zeros (n : ℕ) : String := String.ofList (List.replicate n '0')

def key (validatorId : String) : ValidatorPublicKey := ⟨validatorId, "key", zeros 64⟩

/-- A validator signs an update. -/
def authorize (validatorId : String) (update : ValidatorSetMetadataUpdate) :
    Signed ProtocolMessage :=
  ⟨validatorId, "key", "net", "detta", .validatorSetMetadataUpdate,
    .validatorSetMetadataUpdate update, zeros 128⟩

/-- A node that has just been started, for some validators. -/
def start (validatorIds : List String) : PersistentValidatorNode :=
  match PersistentNode.bootstrapWithValidatorSet env "v1" (.new "detta") .empty "net"
      (validatorIds.map key) with
  | .ok n => n
  | .error _ => .ofNode "v1" (.new "v1" (.new "detta")) .empty

/-- A validator lets another one in. -/
def join : ValidatorSetMetadataUpdate := ⟨"join", [key "v2"], [], none⟩

/-- A validator removes itself. -/
def leave : ValidatorSetMetadataUpdate := ⟨"leave", [], ["v1"], none⟩

/-- An update that expires at the first block. -/
def late : ValidatorSetMetadataUpdate := ⟨"late", [key "v2"], [], some 1⟩

def joining : PersistentOp := .ingestNetworkEnvelope (.signedValidator (authorize "v1" join))

def leaving : PersistentOp := .ingestNetworkEnvelope (.signedValidator (authorize "v1" leave))

def inTime : PersistentOp := .ingestNetworkEnvelope (.signedValidator (authorize "v1" late))

/-- Some authorization is for the update. -/
def isFor (update : ValidatorSetMetadataUpdate) (authorizations : List (Signed ProtocolMessage)) :
    Bool :=
  authorizations.any fun signed =>
    match signed.message with
    | .validatorSetMetadataUpdate other => other = update
    | _ => false

theorem exists_of_isFor {update : ValidatorSetMetadataUpdate}
    {authorizations : List (Signed ProtocolMessage)} (h : isFor update authorizations = true) :
    ∃ signed ∈ authorizations, signed.message = .validatorSetMetadataUpdate update := by
  obtain ⟨signed, hmem, hsigned⟩ := List.any_eq_true.1 h
  split at hsigned
  next other hmessage => exact ⟨signed, hmem, of_decide_eq_true hsigned ▸ hmessage⟩
  next => exact absurd hsigned Bool.false_ne_true

/-- The update has been signed, and then a block has come. -/
def waited : PersistentValidatorNode :=
  runFrom (PersistentOp.apply env) (start ["v1"])
    [.recordPending (.signedValidator (authorize "v1" late)), .produceBlock 1 0]

theorem handover_evaluated :
    (start ["v1"]).validatorKeys.keys = ["v1"] ∧
    (joining.apply env (start ["v1"])).validatorKeys.keys = ["v1", "v2"] ∧
    (leaving.apply env (start ["v1"])).validatorKeys.isEmpty = true ∧
    waited.currentHeight = 1 ∧ waited.hasAppliedValidatorSetUpdate "late" = false ∧
    ((PersistentOp.applyPending "late").apply env waited).hasAppliedValidatorSetUpdate "late" =
      true ∧
    isFor late ((PersistentOp.applyPending "late").authorizations waited) = true ∧
    (inTime.apply env (start ["v1"])).hasAppliedValidatorSetUpdate "late" = true ∧
    (start ["v1"]).hasAppliedValidatorSetUpdate "late" = false ∧
    isFor late (inTime.authorizations (start ["v1"])) = true := by
  decide +kernel

/-- The one validator lets a second one in. -/
theorem keys_change_by_quorum_join :
    ∃ (update : ValidatorSetMetadataUpdate) (signers : Finset String),
      update.Fits (start ["v1"]).validatorKeys ∧
      (joining.apply env (start ["v1"])).validatorKeys =
        update.keyring (start ["v1"]).validatorKeys ∧
      quorumFor (start ["v1"]).validatorKeys.size ≤ signers.card ∧
      ∀ v ∈ signers, (start ["v1"]).toKeyRing.HasSigned env update v := by
  have hchange : (joining.apply env (start ["v1"])).validatorKeys ≠
      (start ["v1"]).validatorKeys := fun h => by
    have hkeys := congrArg (fun t => t.keys) h
    simp only [handover_evaluated.1, handover_evaluated.2.1] at hkeys
    exact absurd hkeys (by decide)
  obtain ⟨update, signers, hfits, hkeys, hquorum, hsigned, -⟩ :=
    PersistentValidatorNode.keys_change_by_quorum (start ["v1"]) (start ["v1"]) [] joining
      (by simp) trivial rfl hchange
  exact ⟨update, signers, hfits, hkeys, hquorum, hsigned⟩

/-- The one validator removes itself, and nobody is left. -/
theorem keys_change_to_none :
    (start ["v1"]).validatorKeys.keys = ["v1"] ∧
      (leaving.apply env (start ["v1"])).validatorKeys = ∅ :=
  ⟨handover_evaluated.1, ExtTreeMap.isEmpty_iff.1 handover_evaluated.2.2.1⟩

end Handover

/-! ## Expiry -/

namespace PersistentOp

variable {env : NodeEnv} {n : PersistentValidatorNode} {op : PersistentOp}
  {update : ValidatorSetMetadataUpdate}

/-- The operation applies the update. -/
structure Applies (env : NodeEnv) (n : PersistentValidatorNode)
    (update : ValidatorSetMetadataUpdate) (op : PersistentOp) : Prop where
  before : n.hasAppliedValidatorSetUpdate update.updateId = false
  after : (op.apply env n).hasAppliedValidatorSetUpdate update.updateId = true
  authorized : ∃ signed ∈ op.authorizations n, signed.message = .validatorSetMetadataUpdate update

/-- What is set by whoever runs the node does not count as applied. -/
theorem hasApplied_of_local (hop : op.Local) {updateId : String}
    (h : (op.apply env n).hasAppliedValidatorSetUpdate updateId = true) :
    n.hasAppliedValidatorSetUpdate updateId = true := by
  cases op with
  | setNetworkId | trustValidatorKey => exact h
  | persistValidatorSetMetadata networkId validatorKeys =>
    by_contra hnot
    rw [Bool.not_eq_true] at hnot
    refine Bool.false_ne_true (Eq.trans (Eq.symm ?_) h)
    refine wp.endState (P := fun n' : PersistentValidatorNode =>
      n'.hasAppliedValidatorSetUpdate updateId = false) ?_
    unfold PersistentOp.run PersistentNode.persistValidatorSetMetadata
      Storage.commitValidatorSetMetadata
    refine .get (wp_bind.2 (PersistentNode.wp_ofExcept.2 ⟨?_, fun _ _ => hnot⟩))
    refine fun keyring _ => wp_bind.2 (PersistentNode.wp_onStorage.2 ?_)
    exact Storage.wp_writeJsonAtomic (fun _ _ => rfl) fun _ _ => hnot
  | _ => exact hop.elim

/-- What is applied is what was authorized, before it has expired if it was not applied
    directly. -/
theorem Applies.keyChange (h : op.Applies env n update) :
    (op.Direct ∨ update.expired n.currentHeight = false) ∧
      KeyChange env (op.quorum n) n.toKeyRing (op.authorizations n) update
        (op.apply env n).toKeyRing := by
  obtain ⟨hbefore, hafter, signed, hsigned, hmessage⟩ := h
  have hop : ¬op.Local := fun hop =>
    Bool.false_ne_true (hbefore.symm.trans (hasApplied_of_local hop hafter))
  obtain hsame | ⟨u, hexpired, hchange⟩ := keys_apply env n hop
  · rw [hsame, hbefore] at hafter
    exact absurd hafter Bool.false_ne_true
  · obtain ⟨hu, -⟩ := KeyRing.verifiedValidatorSetMetadataUpdate_eq_ok.1
      (hchange.signed signed hsigned)
    obtain rfl : update = u :=
      ProtocolMessage.validatorSetMetadataUpdate.inj (hmessage.symm.trans hu)
    exact ⟨hexpired, hchange⟩

end PersistentOp

/-- No update is applied that has expired, as long as nobody asks for such an update to be
    applied directly: what comes with an authorization is checked. -/
theorem applied_before_expiry {env : NodeEnv} {n : PersistentValidatorNode}
    {ops : List PersistentOp}
    (hdirect : ∀ p ∈ stepsFrom (PersistentOp.apply env) n ops, p.2.Direct →
      ∀ signed ∈ p.2.authorizations p.1, ∀ update : ValidatorSetMetadataUpdate,
        signed.message = .validatorSetMetadataUpdate update →
        update.expired p.1.currentHeight = false)
    {p : PersistentValidatorNode × PersistentOp}
    (hp : p ∈ stepsFrom (PersistentOp.apply env) n ops) {update : ValidatorSetMetadataUpdate}
    (happlies : p.2.Applies env p.1 update) {e : U64} (he : update.expiresAtHeight = some e) :
    p.1.currentHeight < e := by
  have hunexpired : update.expired p.1.currentHeight = false := by
    rcases happlies.keyChange.1 with hop | hunexpired
    · obtain ⟨signed, hsigned, hmessage⟩ := happlies.authorized
      exact hdirect p hp hop signed hsigned update hmessage
    · exact hunexpired
  rw [ValidatorSetMetadataUpdate.expired, he, Option.any_some, decide_eq_false_iff_not]
    at hunexpired
  exact Nat.lt_of_not_le hunexpired

namespace Handover

/-- The update is applied although the first block has come. -/
theorem late_update_applied :
    (PersistentOp.applyPending "late").Applies env waited late ∧
      late.expiresAtHeight = some 1 ∧ waited.currentHeight = 1 := by
  obtain ⟨-, -, -, hheight, hbefore, hafter, hfor, -⟩ := handover_evaluated
  exact ⟨⟨hbefore, hafter, exists_of_isFor hfor⟩, rfl, hheight⟩

theorem inTime_applies : inTime.Applies env (start ["v1"]) late := by
  obtain ⟨-, -, -, -, -, -, -, hafter, hbefore, hfor⟩ := handover_evaluated
  exact ⟨hbefore, hafter, exists_of_isFor hfor⟩

/-- Before the first block, the update may be applied. -/
theorem applied_before_expiry_inTime : (start ["v1"]).currentHeight < 1 := by
  have hstep : (start ["v1"], inTime) ∈
      stepsFrom (PersistentOp.apply env) (start ["v1"]) [inTime] := List.mem_singleton.2 rfl
  refine applied_before_expiry (fun p hp hdirect => ?_) hstep inTime_applies rfl
  obtain rfl := List.mem_singleton.1 hp
  exact hdirect.elim

end Handover

/-! ## What waits -/

/-- Under each update, authorizations of this update wait, each under the name of its signer. -/
def PendingAuthorizations.Filed (pending : PendingAuthorizations) : Prop :=
  ∀ updateId waiting, pending[updateId]? = some waiting → waiting ≠ ∅ ∧
    ∃ update : ValidatorSetMetadataUpdate, update.updateId = updateId ∧
      ∀ (signer : String) (signed : Signed ProtocolMessage), waiting[signer]? = some signed →
        signed.signer = signer ∧ signed.message = .validatorSetMetadataUpdate update

namespace PersistentValidatorNode

variable {env : NodeEnv} {n : PersistentValidatorNode} {signed : Signed ProtocolMessage}

/-- What waits for an update is all there is, or nothing. -/
theorem getElem?_authorizationsFor {updateId signer : String}
    (h : (n.authorizationsFor updateId)[signer]? = some signed) :
    ∃ waiting, n.pendingAuthorizations[updateId]? = some waiting ∧
      waiting[signer]? = some signed := by
  unfold authorizationsFor at h
  cases hw : n.pendingAuthorizations[updateId]? with
  | none => simp [hw] at h
  | some waiting => exact ⟨waiting, rfl, by simpa [hw] using h⟩

theorem Filed.addAuthorization (h : n.pendingAuthorizations.Filed)
    {update : ValidatorSetMetadataUpdate}
    (hverified : n.verifiedValidatorSetMetadataUpdate env signed = .ok update)
    (htakes : n.Takes env update signed.signer) :
    (n.addAuthorization update.updateId signed).pendingAuthorizations.Filed := by
  intro updateId waiting hwaiting
  rcases Table.of_getElem?_insert hwaiting with ⟨rfl, rfl⟩ | hwaiting
  · refine ⟨fun hempty => ?_, update, rfl, fun signer other hother => ?_⟩
    · have := congrArg (fun t => t.contains signed.signer) hempty
      simp at this
    · rcases Table.of_getElem?_insert hother with ⟨heq, rfl⟩ | hother
      · exact ⟨heq, (KeyRing.verifiedValidatorSetMetadataUpdate_eq_ok.1 hverified).1⟩
      · obtain ⟨others, hothers, hthere⟩ := getElem?_authorizationsFor hother
        obtain ⟨-, u, -, hall⟩ := h update.updateId others hothers
        -- the first of those that wait is for this update, and all others are for the same
        have hfor : n.authorizationsFor update.updateId = others := by
          rw [authorizationsFor, hothers, Option.getD_some]
        have hfirst := htakes.same
        rw [hfor] at hfirst
        obtain ⟨first, rest, hvalues⟩ :=
          List.exists_cons_of_ne_nil (List.ne_nil_of_mem (Table.mem_values_iff.2 ⟨signer, hthere⟩))
        obtain ⟨v, hv⟩ := Table.mem_values_iff.1 (hvalues ▸ List.mem_cons_self)
        have hupdate := (KeyRing.verifiedValidatorSetMetadataUpdate_eq_ok.1
          (hfirst first (by rw [hvalues]; rfl))).1
        obtain rfl : u = update :=
          ProtocolMessage.validatorSetMetadataUpdate.inj ((hall v first hv).2.symm.trans hupdate)
        exact hall signer other hthere
  · exact h updateId waiting hwaiting

theorem insensitive_filed :
    PersistentNode.Insensitive env FileStorage.slashings
      fun n => n.pendingAuthorizations.Filed where
  take _ _ _ hverified htakes h := Filed.addAuthorization h hverified htakes
  drop n updateId h := by
    intro id waiting hwaiting
    rw [ExtTreeMap.getElem?_erase] at hwaiting
    split at hwaiting
    next => exact absurd hwaiting nofun
    next => exact h id waiting hwaiting
  files _ _ _ h := h

theorem filed_apply (h : n.pendingAuthorizations.Filed) (op : PersistentOp) :
    (op.apply env n).pendingAuthorizations.Filed := by
  refine (insensitive_filed.run (fun _ _ h => h) (fun _ _ _ _ _ h => h) h (fun _ _ h => h)
    fun evidence _ => ?_).endState
  refine (PersistentNode.OnlyFiles.persistEquivocationEvidence evidence n).mono ?_ ?_
  all_goals
    rintro - n' ⟨st, rfl⟩
    exact h

/-- A node that was started with new files or from old ones, and has taken operations. -/
inductive Reachable (env : NodeEnv) : PersistentValidatorNode → Prop
  | genesis {validatorId : String} {state : DeTTaState} {storage : FileStorage}
      {n : PersistentValidatorNode}
      (h : PersistentNode.writeGenesis env state
        (.ofNode validatorId (.new validatorId state) storage) = .ok () n) : Reachable env n
  | restart {validatorId : String} {storage : FileStorage} {n : PersistentValidatorNode}
      (h : PersistentNode.restart env validatorId storage = .ok n) : Reachable env n
  | op {n : PersistentValidatorNode} (h : Reachable env n) (op : PersistentOp) :
      Reachable env (op.apply env n)

theorem Reachable.bootstrapWithValidatorSet {validatorId networkId : String} {state : DeTTaState}
    {storage : FileStorage} {validatorKeys : List ValidatorPublicKey}
    (h : PersistentNode.bootstrapWithValidatorSet env validatorId state storage networkId
      validatorKeys = .ok n) : Reachable env n := by
  unfold PersistentNode.bootstrapWithValidatorSet at h
  dsimp only at h
  split at h
  next u n' hrun =>
    obtain rfl := Except.ok.inj h
    refine (wp_of_ok (Q := fun _ => Reachable env) (E := fun _ _ => True) hrun).1 ?_
    rw [seqRight_eq_bind]
    refine wp_bind.2 ((wp_self _ _).imp fun _ n₁ h₁ => ?_)
    refine (wp_self _ _).imp fun _ n₂ h₂ => ?_
    have hop : (PersistentOp.persistValidatorSetMetadata networkId validatorKeys).apply env n₁ =
        n₂ := congrArg endState h₂
    exact hop ▸ (Reachable.genesis h₁).op _
  next => exact absurd h nofun

end PersistentValidatorNode

end Detta
