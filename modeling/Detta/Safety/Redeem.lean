import Detta.Safety.History

/-!
# Redeemed messages

A bridge redeems a message of another chain: it checks the certificate, creates the amount of
the message for its recipient, and marks the message.

* A call that redeems a message does exactly this (`redeems_of_returned`). Its certificate holds
  a proof that has the message of the call, with a quorum of trusted signers
  (`Redemption.BackedBy`), and the tokens it creates are those of the message
  (`Redemption.MintsExactly`).
* Over a run, the marks count the calls that have redeemed a message
  (`historyInvariant_redeem`), so that there is at most one for each.
-/

namespace Detta

open Kernel DeTTaState

/-! ## One call -/

/-- What a call to redeem a message asks for. -/
structure Redemption where
  messageId : String
  recipient : Principal
  asset : AssetId
  amount : Amount
  certificate : String
deriving DecidableEq, Repr

def Frame.redemption (f : Frame) : Option Redemption :=
  match f.tx.args with
  | [.text messageId, .principal recipient, .asset asset, .amount amount,
      .certificate certificate] =>
    if f.tx.method = .redeemBridgeMessage then
      some ⟨messageId, recipient, asset, amount, certificate⟩
    else none
  | _ => none

/-- The message that a bridge expects, as a state has it. -/
def Redemption.expected (x : Redemption) (s : DeTTaState) (bridge : ContractId)
    (sourceChain : ChainId) : ExpectedBridgeMessage :=
  ⟨s.chainId, bridge, sourceChain, x.messageId, x.recipient, x.asset, x.amount⟩

/-- A state in which the message is marked, which is reported. -/
def DeTTaState.redeem (s : DeTTaState) (tx : Transaction) (x : Redemption) : DeTTaState :=
  let s := s.put (.bridgeMessageConsumed tx.target x.messageId) 1
  { s with
    events := s.events ++ [⟨tx.target, tx.txHash, Word.ofNat 64 s.events.length,
      .bridgeMessageRedeemed x.messageId x.recipient x.asset x.amount⟩] }

theorem DeTTaState.uintAt_redeem (s : DeTTaState) (tx : Transaction) (x : Redemption)
    (key : StateKey) : (s.redeem tx x).uintAt key =
      if StateKey.bridgeMessageConsumed tx.target x.messageId = key then 1 else s.uintAt key :=
  uintAt_put s _ key 1

/-- What the code of a frame does that redeems a message. -/
structure Frame.Redeems (env : Env) (f : Frame) (x : Redemption)
    (own : List (DeTTaState × DeTTaState)) : Prop where
  asked : f.redemption = some x
  positive : x.amount ≠ 0
  unused : f.start.uintAt (.bridgeMessageConsumed f.tx.target x.messageId) = 0
  proven : ∃ record sourceChain validators proof,
    f.start.contracts[f.tx.target]? = some record ∧ record.kind = .bridge sourceChain ∧
    f.start.trustedBridgeValidatorSets[sourceChain]? = some validators ∧
    env.parseFinalityProof x.certificate = some proof ∧
    proof.verifyMessageWithValidatorSet env.hashing
      (x.expected f.start f.tx.target sourceChain) validators = true
  mints : ∃ token s, f.start.resolveAssetLedger x.asset = some (.nativeToken token) ∧
    f.start.mint token x.recipient x.asset x.amount = some s ∧
    own = [(f.start, s.redeem f.tx x)]

section Redeem

variable {env : Env} {f : Frame} {m : Machine}

theorem redemption_of_args {messageId certificate : String} {recipient : Principal}
    {asset : AssetId} {amount : Amount} (hm : f.tx.method = .redeemBridgeMessage)
    (hn : f.tx.args.length = 5) (h₀ : f.tx.args[0]? = some (.text messageId))
    (h₁ : f.tx.args[1]? = some (.principal recipient))
    (h₂ : f.tx.args[2]? = some (.asset asset)) (h₃ : f.tx.args[3]? = some (.amount amount))
    (h₄ : f.tx.args[4]? = some (.certificate certificate)) :
    f.redemption = some ⟨messageId, recipient, asset, amount, certificate⟩ := by
  have hargs : f.tx.args = [.text messageId, .principal recipient, .asset asset, .amount amount,
      .certificate certificate] := by
    apply List.ext_getElem?
    intro i
    rcases i with - | - | - | - | - | i
    · exact h₀
    · exact h₁
    · exact h₂
    · exact h₃
    · exact h₄
    · rw [List.getElem?_eq_none (by omega), List.getElem?_eq_none (by simp)]
  rw [Frame.redemption, hargs]
  exact if_pos hm

/-- A message is redeemed as a whole, or not at all. -/
theorem leads_redeemBridgeMessage (hm : f.tx.method = .redeemBridgeMessage)
    (hs : m.state = f.start) {record : ContractRecord} {sourceChain : ChainId}
    (hr : f.start.contracts[f.tx.target]? = some record)
    (hk : record.kind = .bridge sourceChain) :
    Leads (fun s' => ∃ x, f.Redeems env x [(f.start, s')])
      (redeemBridgeMessage env f.tx sourceChain) m := by
  unfold redeemBridgeMessage expectArgs verifyBridgeFinalityProof
  refine .ensure fun hn => .expectText fun messageId h₀ => .expectPrincipal fun recipient h₁ => ?_
  refine .expectAsset fun asset h₂ => .expectAmount fun amount h₃ => ?_
  refine .expectCertificate fun certificate h₄ => .ensure fun hpos => ?_
  -- the certificate
  refine .read <| .assoc <| .read <| .assoc <| .okOr fun validators hv => ?_
  refine .assoc <| .okOr fun proof hp => .ensure fun hproof => ?_
  -- the mark and the tokens
  refine .uintAt <| .ensure fun hunused => .assoc <| .read <| .okOr fun ledger hl => ?_
  rw [hs] at hv hproof hunused hl
  cases ledger with
  | aspectToken contract => exact wp_bind.2 (wp_throw.2 trivial)
  | nativeToken token =>
    refine wp_bind.2 (wp_mintNativeAssetBalance (fun s' hmint _ => ?_) (fun _ _ => trivial)
      fun _ => trivial)
    rw [hs] at hmint
    refine Leads.stateSet (P := fun s' => ∃ x, f.Redeems env x [(f.start, s')]) ?_
    refine .write <| .pure ⟨⟨messageId, recipient, asset, amount, certificate⟩, ?_⟩
    exact
      { asked := redemption_of_args hm hn h₀ h₁ h₂ h₃ h₄
        positive := hpos
        unused := hunused
        proven := ⟨record, sourceChain, validators, proof, hr, hk, hv, hp, hproof⟩
        mints := ⟨token, s', hl, hmint, rfl⟩ }

/-- A frame that has redeemed a message has done nothing else. -/
theorem redeems_of_returned {r : FrameRecord} (h : r.Returned env)
    (hm : r.frame.tx.method = .redeemBridgeMessage) : ∃ x, r.frame.Redeems env x r.own := by
  obtain ⟨s', hown, hx⟩ := h.quiet
    (P := fun s' => ∃ x, r.frame.Redeems env x [(r.frame.start, s')])
    (fun s tx msgSender hspawn => by cases hspawn <;> simp_all [Method.settles])
    fun call m record hs hr ho => by
      cases hk : record.kind with
      | bridge sourceChain =>
        rw [kindMethod, bridgeMethod, hm]
        exact leads_redeemBridgeMessage hm hs hr hk
      | _ => simp [hk, hm, ContractKind.offers] at ho
  exact hown ▸ hx

end Redeem

/-! ## What stands behind a call -/

/-- The proof has the message of the call, under the root it states, and as many distinct signers
    as the source chain asks for, all of which are its trusted validators. -/
structure Redemption.BackedBy (x : Redemption) (h : Hashing) (s : DeTTaState)
    (bridge : ContractId) (sourceChain : ChainId) (validators : BridgeValidatorSet)
    (proof : CrossShardFinalityProof) : Prop where
  trusted : s.trustedBridgeValidatorSets[sourceChain]? = some validators
  signers : ∀ signer ∈ proof.signers, validators.validators.contains signer = true
  distinct : proof.signers.Nodup
  quorum : 0 < validators.quorum ∧ validators.quorum ≤ proof.signers.length
  message : proof.messageProof.message = ⟨sourceChain, proof.messageProof.message.sourceContract,
    proof.sourceHeight, s.chainId, bridge, x.messageId, x.recipient, x.asset, x.amount⟩
  proves : proof.messageProof.proof.verify h proof.messageProof.message.json = true
  root : proof.messageProof.proof.root = proof.outboxRoot

/-- The balance of the recipient and the supply of the token grow by the amount of the message,
    the message is marked, an event reports it, and nothing else changes. -/
structure Redemption.MintsExactly (x : Redemption) (bridge token : ContractId)
    (s s' : DeTTaState) : Prop where
  balance : s'.held token x.recipient x.asset = s.held token x.recipient x.asset + x.amount.val
  supply : (s'.uintAt (.totalSupply token x.asset)).val =
    (s.uintAt (.totalSupply token x.asset)).val + x.amount.val
  mark : s'.uintAt (.bridgeMessageConsumed bridge x.messageId) = 1
  storage : ∀ key : StateKey, key ≠ .balance token x.recipient x.asset →
    key ≠ .totalSupply token x.asset → key ≠ .bridgeMessageConsumed bridge x.messageId →
    s'.storage[key]? = s.storage[key]?
  rest : ∃ event, s' = { s with storage := s'.storage, events := s.events ++ [event] }

/-- What a call to redeem a message has to be: it creates exactly what the message says, on the
    token of its asset, and the certificate is a proof of the message. -/
def FrameRecord.ExactlyBacked (env : Env) (r : FrameRecord) : Prop :=
  ∃ x token s', r.frame.redemption = some x ∧
    r.frame.start.resolveAssetLedger x.asset = some (.nativeToken token) ∧
    r.own = [(r.frame.start, s')] ∧ x.MintsExactly r.frame.tx.target token r.frame.start s' ∧
    ∃ record sourceChain validators proof,
      r.frame.start.contracts[r.frame.tx.target]? = some record ∧
      record.kind = .bridge sourceChain ∧ env.parseFinalityProof x.certificate = some proof ∧
      x.BackedBy env.hashing r.frame.start r.frame.tx.target sourceChain validators proof

section Backed

variable {env : Env} {f : Frame} {x : Redemption} {s s' : DeTTaState}

theorem Redemption.backedBy_of_verify {h : Hashing} {bridge : ContractId} {sourceChain : ChainId}
    {validators : BridgeValidatorSet} {proof : CrossShardFinalityProof}
    (ht : s.trustedBridgeValidatorSets[sourceChain]? = some validators)
    (hv : proof.verifyMessageWithValidatorSet h (x.expected s bridge sourceChain) validators =
      true) : x.BackedBy h s bridge sourceChain validators proof := by
  obtain ⟨hmessage, hfinal⟩ := Bool.and_eq_true_iff.1 hv
  simp only [CrossShardFinalityProof.verifyMessage, Redemption.expected, Bool.and_eq_true,
    beq_iff_eq, decide_eq_true_eq, and_assoc] at hmessage
  simp only [BridgeValidatorSet.verifiesFinality, Bool.and_eq_true, beq_iff_eq,
    decide_eq_true_eq, List.all_eq_true, and_assoc] at hfinal
  obtain ⟨-, -, hnodup, -, hproves, hroot, hsource, hchain, hheight, hdest, hbridge, hid,
    hrecipient, hasset, hamount⟩ := hmessage
  obtain ⟨-, -, hpos, -, -, -, hsigners, -, hquorum⟩ := hfinal
  refine ⟨ht, hsigners, hnodup, ⟨Nat.pos_of_ne_zero hpos, hquorum⟩, ?_, hproves, hroot⟩
  rw [CrossShardMessage.mk.injEq]
  exact ⟨hchain.trans hsource, rfl, hheight, hdest, hbridge, hid, hrecipient, hasset, hamount⟩

/-- The tokens are those that the message is about. -/
theorem Redemption.mintsExactly {token : ContractId} (tx : Transaction)
    (h : s.mint token x.recipient x.asset x.amount = some s') :
    x.MintsExactly tx.target token s (s'.redeem tx x) := by
  obtain ⟨supply, hs, received, hr, rfl⟩ := mint_eq_some.1 h
  have hs' := Word.checkedAdd_eq_some.1 hs
  have hr' := Word.checkedAdd_eq_some.1 hr
  refine ⟨?_, ?_, ?_, fun key hb hsup hmark => ?_, ⟨_, rfl⟩⟩
  · rw [DeTTaState.held, uintAt_redeem, if_neg (by simp), uintAt_put_self]
    exact hr'
  · rw [uintAt_redeem, if_neg (by simp), uintAt_put, if_neg (by simp), uintAt_put_self]
    exact hs'
  · rw [uintAt_redeem, if_pos rfl]
  · simp [DeTTaState.redeem, DeTTaState.put, Std.ExtTreeMap.getElem?_insert, hb.symm, hsup.symm,
      hmark.symm]

theorem Frame.Redeems.exactlyBacked {r : FrameRecord} (h : r.frame.Redeems env x r.own) :
    r.ExactlyBacked env := by
  obtain ⟨token, s, hl, hmint, hown⟩ := h.mints
  obtain ⟨record, sourceChain, validators, proof, hr, hk, hv, hp, hproof⟩ := h.proven
  exact ⟨x, token, s.redeem r.frame.tx x, h.asked, hl, hown, Redemption.mintsExactly _ hmint,
    record, sourceChain, validators, proof, hr, hk, hp, Redemption.backedBy_of_verify hv hproof⟩

end Backed

/-! ## Marks -/

/-- The frame is a call of a bridge to redeem a message. -/
def Frame.redeems (f : Frame) (bridge : ContractId) (messageId : String) : Bool :=
  f.tx.method = .redeemBridgeMessage ∧ f.tx.target = bridge ∧
    f.tx.args[0]? = some (.text messageId)

/-- The frames that redeem messages. -/
def Frame.isRedeem (f : Frame) : Bool := f.tx.method = .redeemBridgeMessage

section Marks

variable {f : Frame} {s s' : DeTTaState} {bridge : ContractId} {messageId : String}
  {entries : List (StateKey × Amount)}

theorem Frame.redeems_of_redemption {x : Redemption} (h : f.redemption = some x) :
    f.redeems bridge messageId = true ↔ f.tx.target = bridge ∧ x.messageId = messageId := by
  unfold Frame.redemption at h
  split at h
  next hargs =>
    split at h
    next hm =>
      cases h
      simp [Frame.redeems, hm, hargs]
    next => cases h
  next => cases h

theorem Frame.method_of_redemption {x : Redemption} (h : f.redemption = some x) :
    f.tx.method = .redeemBridgeMessage := by
  have hredeems : f.redeems f.tx.target x.messageId = true :=
    (redeems_of_redemption h).2 ⟨rfl, rfl⟩
  exact (of_decide_eq_true hredeems).1

/-- New contracts have no marks. -/
theorem Founded.ne_mark {contract : ContractId} {kind : ContractKind}
    (h : Founded s contract kind entries) :
    ∀ e ∈ entries, e.1 ≠ .bridgeMessageConsumed bridge messageId := by
  intro e he
  cases h <;>
    simp only [initialBalances, initialPool, initialStaking, List.mem_append, List.mem_map,
      List.mem_cons, List.not_mem_nil, or_false] at he <;>
    grind

theorem uintAt_mark_founded {contract : ContractId} {record : ContractRecord}
    (h : Founded s contract record.kind entries) :
    ((s.withContract contract record).puts entries).uintAt
      (.bridgeMessageConsumed bridge messageId) =
        s.uintAt (.bridgeMessageConsumed bridge messageId) :=
  uintAt_puts_of_ne _ h.ne_mark

/-- Only a call to redeem a message sets marks. -/
theorem OwnStep.uintAt_mark (h : OwnStep f s s') (hm : f.tx.method ≠ .redeemBridgeMessage) :
    s'.uintAt (.bridgeMessageConsumed bridge messageId) =
      s.uintAt (.bridgeMessageConsumed bridge messageId) := by
  cases h with
  | put value _ hw =>
    refine uintAt_put_of_ne _ _ ?_
    rintro rfl
    have hwrites := hw.method
    unfold Method.writes at hwrites
    split at hwrites <;> simp_all
  | tokens ha =>
    obtain ⟨_, _, _, _, rfl | ⟨_, rfl⟩, rfl⟩ := ha.exists_put
    all_goals simp [uintAt_put]
  | deploy _ _ hf => exact uintAt_mark_founded hf
  | _ => rfl

end Marks

section Runs

variable (env : Env)

/-- The marks count the calls, of which there is at most one. -/
theorem historyInvariant_redeem : HistoryInvariant env Frame.isRedeem fun past s =>
    ∀ bridge messageId, past.countP (fun r => r.frame.redeems bridge messageId) =
      (s.uintAt (.bridgeMessageConsumed bridge messageId)).val ∧
      (s.uintAt (.bridgeMessageConsumed bridge messageId)).val ≤ 1 where
  own {f past s s'} hw _ _ hJ hs bridge messageId := by
    rw [hs.uintAt_mark (by simpa [Frame.isRedeem] using hw)]
    exact hJ bridge messageId
  leave {r past s} hw _ _ hJ bridge messageId := by
    have hm : r.frame.tx.method ≠ .redeemBridgeMessage := by simpa [Frame.isRedeem] using hw
    have hnot : r.frame.redeems bridge messageId = false := by simp [Frame.redeems, hm]
    rw [List.countP_append, List.countP_singleton, hnot]
    exact hJ bridge messageId
  idle hw hr := by
    obtain ⟨x, hx⟩ := redeems_of_returned hr (by simpa [Frame.isRedeem] using hw)
    obtain ⟨token, s, -, -, hown⟩ := hx.mints
    simp [hown]
  step {r past s s'} hw hr _ hl hJ bridge messageId := by
    obtain ⟨x, hx⟩ := redeems_of_returned hr (by simpa [Frame.isRedeem] using hw)
    obtain ⟨token, s₁, -, hmint, hown⟩ := hx.mints
    obtain ⟨rfl, rfl⟩ : r.frame.start = s ∧ s₁.redeem r.frame.tx x = s' := by
      simpa [hown] using hl
    have hexact := Redemption.mintsExactly r.frame.tx hmint
    have hJ := hJ bridge messageId
    rw [List.countP_append, List.countP_singleton]
    -- the mark of the message is set, where there was none, and no other
    by_cases hmark : r.frame.tx.target = bridge ∧ x.messageId = messageId
    · rw [if_pos ((Frame.redeems_of_redemption hx.asked).2 hmark)]
      obtain ⟨rfl, rfl⟩ := hmark
      rw [hx.unused] at hJ
      rw [hexact.mark, hJ.1]
      exact ⟨rfl, le_refl _⟩
    · rw [if_neg fun h => hmark ((Frame.redeems_of_redemption hx.asked).1 h)]
      have hkey := hexact.storage (.bridgeMessageConsumed bridge messageId) nofun nofun
        fun he => hmark (by simpa [eq_comm] using he)
      rw [DeTTaState.uintAt, hkey]
      exact hJ
  nonce _ h := h
  timeless _ _ _ _ h := h
  deploy hJ hd bridge messageId := by
    cases hd with
    | contract _ hf =>
      rw [uintAt_mark_founded hf]
      exact hJ bridge messageId
    | _ => exact hJ bridge messageId

/-- No message is redeemed twice. -/
theorem countP_redeems_le_one (chainId : ChainId) (ops : List Op) (bridge : ContractId)
    (messageId : String) :
    (runFrames env (.new chainId) ops).countP (fun r => r.frame.redeems bridge messageId) ≤ 1 := by
  have hcount := (historyInvariant_redeem env).runFrames (s := .new chainId)
    (fun _ _ => by simp [DeTTaState.uintAt, DeTTaState.new]) ops bridge messageId
  exact hcount.1 ▸ hcount.2

/-- Over every run of a chain, a bridge redeems a message at most once, and every call that does
    so creates exactly what the message says, with a certificate that proves the message. -/
theorem redeemed_once_and_backed (chainId : ChainId) (ops : List Op) :
    (∀ bridge messageId, (runFrames env (.new chainId) ops).countP
      (fun r => r.frame.redeems bridge messageId) ≤ 1) ∧
    ∀ r ∈ runFrames env (.new chainId) ops, r.frame.tx.method = .redeemBridgeMessage →
      r.ExactlyBacked env := by
  refine ⟨countP_redeems_le_one env chainId ops, fun r hr hm => ?_⟩
  obtain ⟨x, hx⟩ := redeems_of_returned (returned_of_mem_runFrames hr) hm
  exact hx.exactlyBacked

end Runs

end Detta
