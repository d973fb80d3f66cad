import Detta.Safety.Deploy
import Detta.Safety.Resolve

/-!
# The methods of the kernel, step by step

Every method is made of the steps of its frame: an invariant that each step keeps
(`Handles`) is kept by the method, and so by the body of a frame
(`Handles.callBody`). The proofs follow the code of the methods. What only reads is
skipped (`Handles.skip`), and each write is shown to be a step.
-/

namespace Detta

open Kernel

/-! ## Steps and invariants -/

/-- The invariant `I` is kept by the steps of the frame `f` and by the calls it makes,
    and a failure leads to `E`. -/
structure Handles (I : Machine → Prop) (E : ExecutionError → Machine → Prop) (f : Frame)
    (call : ContractCall) : Prop where
  own : ∀ {m : Machine} {s' : DeTTaState}, I m → OwnStep f m.state s' → I (m.withState s')
  attempt : ∀ {m : Machine} {s' : DeTTaState} {token : ContractId} {asset : AssetId}
    (e : ExecutionError), I m → Attempt f m.state token asset s' → E e (m.withState s')
  fail : ∀ (m : Machine) (e : ExecutionError), I m → E e m
  spawn : ∀ {m : Machine} {tx : Transaction} {msgSender : Principal}, I m →
    Spawns f m.state tx msgSender →
    wp (call tx msgSender) (fun _ m' => I m' ∧ Grows m.state m'.state) E m

/-- The ledgers are those of the start of the frame. -/
def Frame.Early (f : Frame) (s : DeTTaState) : Prop :=
  ∀ asset, s.resolveAssetLedger asset = f.start.resolveAssetLedger asset

/-- The invariant `I` is kept by what the frame `f` writes for its own contract, and a failure
    leads to `E`. -/
structure Sets (I : Machine → Prop) (E : ExecutionError → Machine → Prop) (f : Frame) : Prop where
  put : ∀ {m : Machine} {key : StateKey} (value : Amount), I m →
    key.ownerContract = f.tx.target → f.Writes key → I (m.withState (m.state.put key value))
  fail : ∀ (m : Machine) (e : ExecutionError), I m → E e m

theorem writeScopeContains_ofList {key : StateKey} {keys : List StateKey} (h : key ∈ keys) :
    writeScopeContains (.ofList keys) key = true := by
  simp [writeScopeContains, h]

/-! ## Movements of tokens -/

section Tokens

variable {Q : Unit → Machine → Prop} {E : ExecutionError → Machine → Prop} {m : Machine}
  {token : ContractId} {payer receiver : Principal} {asset : AssetId} {amount : Amount}

theorem wp_transferNativeAssetBalance
    (hok : ∀ s', m.state.move token payer receiver asset amount = some s' →
      s'.tokenInvariantsHold token asset = true → Q () (m.withState s'))
    (hbad : ∀ s', m.state.move token payer receiver asset amount = some s' →
      E .invariantViolation (m.withState s'))
    (hfail : ∀ e, E e m) :
    wp (transferNativeAssetBalance token payer receiver asset amount) Q E m := by
  simp only [transferNativeAssetBalance, wp_bind, wp_uintAt, wp_ensure, checkedAdd, wp_okOr]
  refine ⟨fun ha => ⟨fun received hc => ?_, fun _ => hfail _⟩, fun _ => hfail _⟩
  rw [wp_stateSet rfl (writeScopeContains_ofList (by simp)), wp_bind,
    wp_stateSet rfl (writeScopeContains_ofList (by simp)), wp_check]
  have hmove := DeTTaState.move_eq_some.2 ⟨ha, received, hc, rfl⟩
  exact ⟨hok _ hmove, fun _ => hbad _ hmove⟩

theorem wp_mintNativeAssetBalance
    (hok : ∀ s', m.state.mint token receiver asset amount = some s' →
      s'.tokenInvariantsHold token asset = true → Q () (m.withState s'))
    (hbad : ∀ s', m.state.mint token receiver asset amount = some s' →
      E .invariantViolation (m.withState s'))
    (hfail : ∀ e, E e m) :
    wp (mintNativeAssetBalance token receiver asset amount) Q E m := by
  simp only [mintNativeAssetBalance, wp_bind, wp_uintAt, checkedAdd, wp_okOr]
  refine ⟨fun supply hs => ⟨fun received hc => ?_, fun _ => hfail _⟩, fun _ => hfail _⟩
  rw [wp_stateSet rfl (writeScopeContains_ofList (by simp)), wp_bind,
    wp_stateSet rfl (writeScopeContains_ofList (by simp)), wp_check]
  have hmint := DeTTaState.mint_eq_some.2 ⟨supply, hs, received, hc, rfl⟩
  exact ⟨hok _ hmint, fun _ => hbad _ hmint⟩

end Tokens

/-! ## Numbers of the frame's own contract -/

namespace Sets

variable {I : Machine → Prop} {E : ExecutionError → Machine → Prop} {f : Frame} {α β : Type}
  {frame : AuthorizedFrame}

/-- Skip what only reads. -/
theorem skip (h : Sets I E f) {p : Kernel α} [Reads p] {k : α → Kernel β}
    (hk : ∀ a, Keeps I E (k a)) : Keeps I E (p >>= k) :=
  .bind (.reads h.fail) hk

theorem done (h : Sets I E f) {p : Kernel α} [Reads p] : Keeps I E p := .reads h.fail

/-- A write into the storage of the frame's own contract. -/
theorem set (h : Sets I E f) {key : StateKey} {value : Amount} (hf : frame.contract = f.tx.target)
    (hk : f.Writes key) :
    Keeps I E (stateSet frame key value) := by
  unfold stateSet
  intro m hm
  simp only [wp_bind, wp_ensure, wp_write]
  refine ⟨fun hc => ⟨fun _ => ?_, fun _ => h.fail m _ hm⟩, fun _ => h.fail m _ hm⟩
  exact h.put value hm (hc.trans hf) hk

theorem accrueLendingDebt (h : Sets I E f) (hf : frame.contract = f.tx.target)
    (hm : f.tx.method = .borrow ∨ f.tx.method = .liquidate) (contract : ContractId)
    (borrower : Principal) (config : LendingConfig) :
    Keeps I E (Detta.accrueLendingDebt frame contract borrower config) := by
  unfold Detta.accrueLendingDebt
  repeat refine h.skip fun _ => ?_
  refine .bind (.onlyIf (h.set hf ?_)) fun _ => .bind (h.set hf ?_) fun _ => h.done
  all_goals rcases hm with hm | hm <;> exact .of hm rfl rfl

theorem settleDebt (h : Sets I E f) (hf : frame.contract = f.tx.target)
    (hm : f.tx.method = .liquidate) {contract : ContractId} {asset : AssetId}
    (config : LendingConfig) (price collateralAfter debtAfter : Amount) :
    Keeps I E (Detta.settleDebt frame (.badDebt contract asset) config price collateralAfter
      debtAfter) := by
  unfold Detta.settleDebt
  split
  · refine h.skip fun _ => h.skip fun _ => ?_
    exact .bind (h.set hf (.of hm rfl rfl)) fun _ => h.done
  · exact h.done

theorem accrueStakingRewards (h : Sets I E f) (hf : frame.contract = f.tx.target)
    (contract : ContractId) (staker : Principal) (asset : AssetId) (rewardPerBlock : Amount)
    (hr : f.Writes (.stakingRewardBalance contract staker asset))
    (hl : f.Writes (.stakingLastRewardHeight contract staker asset)) :
    Keeps I E (Detta.accrueStakingRewards frame contract staker asset rewardPerBlock) := by
  unfold Detta.accrueStakingRewards
  repeat refine h.skip fun _ => ?_
  refine .bind (.onlyIf ?_) fun _ => .bind (h.set hf hl) fun _ => h.done
  exact h.skip fun _ => h.skip fun _ => h.set hf hr

end Sets

namespace Handles

variable {I : Machine → Prop} {E : ExecutionError → Machine → Prop} {f : Frame}
  {call : ContractCall} {α β : Type} {m : Machine} {record : ContractRecord}
  {frame : AuthorizedFrame} {assetA assetB : AssetId}

variable (h : Handles I E f call)

include h

theorem sets : Sets I E f where
  put value hI hc hk := h.own hI (.put value hc hk)
  fail := h.fail

/-- The numbers of a contract change no ledger. -/
theorem early : Sets (fun m => I m ∧ f.Early m.state) E f where
  put value hI hc hk :=
    ⟨h.own hI.1 (.put value hc hk), fun asset =>
      (resolveAssetLedger_put (hk.ne_totalSupply · asset)).trans (hI.2 asset)⟩
  fail m e hI := h.fail m e hI.1

/-- What lasts may be added to an invariant. -/
theorem lasting {P : DeTTaState → Prop} (hP : Lasts P) :
    Handles (fun m => I m ∧ P m.state) E f call where
  own hm hs := ⟨h.own hm.1 hs, hP hs.grows hm.2⟩
  attempt e hm ha := h.attempt e hm.1 ha
  fail m e hm := h.fail m e hm.1
  spawn hm hs := (h.spawn hm.1 hs).mono (fun _ _ h' => ⟨⟨h'.1, hP h'.2 hm.2⟩, h'.2⟩)
    fun _ _ h' => h'

/-- Skip what only reads. -/
theorem skip {p : Kernel α} [Reads p] {k : α → Kernel β}
    (hk : ∀ a, Keeps I E (k a)) : Keeps I E (p >>= k) :=
  .bind (.reads h.fail) hk

theorem done {p : Kernel α} [Reads p] : Keeps I E p := .reads h.fail

/-- A write that is a step. -/
theorem write {g : DeTTaState → DeTTaState}
    (hg : ∀ s, OwnStep f s (g s)) : Keeps I E (Kernel.write g) := fun _ hm =>
  wp_write.2 (h.own hm (hg _))

theorem emit (payload : EventPayload) :
    Keeps I E (Kernel.emit f.tx.target f.tx.txHash payload) :=
  h.write fun _ => .event payload

/-- An event, and what only reads. -/
theorem report {payload : EventPayload} {k : Unit → Kernel β} [∀ a, Reads (k a)] :
    Keeps I E (Kernel.emit f.tx.target f.tx.txHash payload >>= k) :=
  .bind (h.emit payload) fun _ => h.done

theorem set {key : StateKey} {value : Amount}
    (hf : frame.contract = f.tx.target) (hk : f.Writes key) :
    Keeps I E (stateSet frame key value) :=
  h.sets.set hf hk

theorem transferNative {token : ContractId} {payer : Principal}
    (receiver : Principal) {asset : AssetId} (amount : Amount)
    (ht : ∀ m, I m → m.state.IsToken token) (hp : f.Spends payer)
    (hd : ∀ m, I m →
      token = f.tx.target ∨ m.state.KeepsAsset token asset ∧ f.SettlesOn token asset) :
    Keeps I E (transferNativeAssetBalance token payer receiver asset amount) := fun m hm =>
  wp_transferNativeAssetBalance
    (fun _ hs hi => h.own hm (.tokens (.move (ht m hm) (.spends hp) hs (hd m hm)) hi))
    (fun _ hs => h.attempt _ hm (Attempt.move (ht m hm) (.spends hp) hs (hd m hm)))
    fun e => h.fail m e hm

theorem mint {ledger : AssetLedger} (e : ExecutionError)
    (receiver : Principal) {asset : AssetId} (amount : Amount)
    (hl : ∀ m, I m → ledger.Known m.state asset) (hd : f.Moves asset)
    (hf : f.start.resolveAssetLedger asset = some ledger) :
    Keeps I E (mintOnLedger e ledger receiver asset amount) := by
  cases ledger with
  | aspectToken contract => exact h.done (p := (throw e : Kernel Unit))
  | nativeToken token =>
    intro m hm
    exact wp_mintNativeAssetBalance
      (fun _ hs hi => h.own hm (.tokens (.mint (hl m hm) hs ⟨hd, hf⟩) hi))
      (fun _ hs => h.attempt _ hm (Attempt.mint (hl m hm) hs ⟨hd, hf⟩))
      fun e => h.fail m e hm

/-- A call, of which only the invariant is kept. -/
theorem call_keeps {tx : Transaction} {msgSender : Principal}
    (hs : ∀ m, I m → Spawns f m.state tx msgSender) : Keeps I E (call tx msgSender) := fun m hm =>
  (h.spawn hm (hs m hm)).mono (fun _ _ h' => h'.1) fun _ _ h' => h'

/-- Moving an asset is a step, or a call. -/
theorem transferAsset {ledger : AssetLedger} {payer : Principal}
    (receiver : Principal) {asset : AssetId} (amount : Amount)
    (hl : ∀ m, I m → ledger.Known m.state asset) (hp : f.Spends payer)
    (hm : f.tx.method.settles = true) (hd : f.Moves asset)
    (hf : f.start.resolveAssetLedger asset = some ledger) :
    Keeps I E (transferAssetBalance call f.tx ledger payer receiver asset amount) := by
  cases ledger with
  | nativeToken token =>
    exact h.transferNative receiver amount (fun m hm => (hl m hm).isToken) hp fun m hm =>
      .inr ⟨hl m hm, hd, hf⟩
  | aspectToken contract =>
    unfold transferAssetBalance transferAspectAssetBalance
    refine h.skip fun _ => h.skip fun _ => h.skip fun _ => h.skip fun _ => ?_
    refine .bind (h.call_keeps fun m hI => ?_) fun _ => h.done
    obtain ⟨record, hr, hk⟩ := hl m hI
    exact .settle receiver amount hp hm hr hk

/-- Once the ledger of an asset is found, it is known for good. It is the one of the start of
    the frame, if nothing has happened that changes ledgers. -/
theorem resolving {asset : AssetId} {k : AssetLedger → Kernel β} (hI : I m)
    (he : f.Early m.state)
    (hk : ∀ ledger, f.start.resolveAssetLedger asset = some ledger →
      Handles (fun m => I m ∧ ledger.Known m.state asset) E f call →
      I m ∧ ledger.Known m.state asset →
      wp (k ledger) (fun _ m => I m ∧ ledger.Known m.state asset) E m) :
    wp (Kernel.resolveAssetLedger asset >>= k) (fun _ => I) E m := by
  simp only [Kernel.resolveAssetLedger, wp_bind, wp_read, wp_okOr]
  refine ⟨fun ledger hl => ?_, fun _ => h.fail m _ hI⟩
  exact (hk ledger (he asset ▸ hl) (h.lasting (lasts_known asset ledger))
    ⟨hI, known_of_resolve hl⟩).mono (fun _ _ h' => h'.1) fun _ _ h' => h'

/-- The same, if what follows keeps the invariant wherever it starts. -/
theorem resolve {asset : AssetId} {k : AssetLedger → Kernel β} (hI : I m)
    (he : f.Early m.state)
    (hk : ∀ ledger, f.start.resolveAssetLedger asset = some ledger →
      Handles (fun m => I m ∧ ledger.Known m.state asset) E f call →
      Keeps (fun m => I m ∧ ledger.Known m.state asset) E (k ledger)) :
    wp (Kernel.resolveAssetLedger asset >>= k) (fun _ => I) E m :=
  h.resolving hI he fun ledger hl h' hI' => hk ledger hl h' m hI'

/-- An argument that is a principal. -/
theorem principal {i : ℕ} {k : Principal → Kernel β}
    (hk : ∀ p, f.tx.args[i]? = some (.principal p) → Keeps I E (k p)) :
    Keeps I E (expectPrincipal f.tx.args i >>= k) := fun m hm =>
  wp_bind.2 (wp_expectPrincipal (fun p hp => hk p hp m hm) fun e => h.fail m e hm)

/-- An argument that is an asset. -/
theorem asset {i : ℕ} {k : AssetId → Kernel β}
    (hk : ∀ a, f.tx.args[i]? = some (.asset a) → Keeps I E (k a)) :
    Keeps I E (expectAsset f.tx.args i >>= k) := fun m hm =>
  wp_bind.2 (wp_expectAsset (fun a ha => hk a ha m hm) fun e => h.fail m e hm)

/-! ## Tokens -/

theorem transfer (hm : f.tx.method = .transfer)
    (ht : ∀ m, I m → m.state.IsToken f.tx.target) :
    Keeps I E (Detta.transfer f.tx f.msgSender) := by
  unfold Detta.transfer
  repeat refine h.skip fun _ => ?_
  refine .bind (h.transferNative _ _ ht (.caller (hm ▸ rfl)) fun _ _ => .inl rfl) fun _ => ?_
  exact h.report

theorem approve (hm : f.tx.method = .approve) :
    Keeps I E (Detta.approve f.tx f.msgSender) := by
  unfold Detta.approve
  repeat refine h.skip fun _ => ?_
  refine .bind (h.write fun _ => .approve _ _ _ hm) fun _ => ?_
  exact h.report

variable {asset : AssetId}

theorem usePermitCertificate {contract : ContractId}
    {owner spender : Principal} {amount : Amount} {certificate : String} :
    Keeps I E (Kernel.usePermitCertificate contract owner spender asset amount certificate) := by
  unfold Kernel.usePermitCertificate
  repeat refine h.skip fun _ => ?_
  exact h.write fun _ => .certificate _

theorem permit (hm : f.tx.method = .permit) :
    Keeps I E (Detta.permit f.tx) := by
  unfold Detta.permit
  refine h.skip fun _ => h.principal fun owner ha => ?_
  repeat refine h.skip fun _ => ?_
  refine .bind h.usePermitCertificate fun _ => ?_
  refine .bind (h.write fun _ => .permit _ _ _ hm ha) fun _ => ?_
  exact h.report

/-- The allowance is that of the start of the frame, since nothing happens before. -/
theorem transferFrom (hm : f.tx.method = .transferFrom)
    (ht : ∀ m, I m → m.state.IsToken f.tx.target) (hI : I m)
    (hs : m.state = f.start) : wp (Detta.transferFrom f.tx f.msgSender) (fun _ => I) E m := by
  have hfail : ∀ e, E e m := fun e => h.fail m e hI
  unfold Detta.transferFrom
  refine .skip (fun _ => ?_) hfail
  refine wp_bind.2 (wp_expectPrincipal (fun owner ha => ?_) hfail)
  refine .skip (fun receiver => ?_) hfail
  refine .skip (fun asset => ?_) hfail
  refine .skip (fun amount => ?_) hfail
  refine wp_bind.2 (wp_consumeAllowance (fun g spent hg hga hgr hle hsp => ?_) hfail)
  have hI' := h.own hI (.consume hm hg hsp)
  have hstorage : m.state.storage = f.start.storage := congrArg DeTTaState.storage hs
  have hallowed : f.Allowed f.tx.target owner asset amount := ⟨g, hs ▸ hg, hga, hgr, hle⟩
  refine wp_bind.2 (wp_transferNativeAssetBalance
    (fun s' hmove hi => ?_) (fun s' hmove => ?_) fun e => h.fail _ e hI')
  · refine h.report _ (h.own hI' (.tokens ?_ hi))
    exact .move (ht _ hI') (.allowed hm rfl ha hstorage hallowed) hmove (.inl rfl)
  · exact h.attempt _ hI'
      (.move (ht _ hI') (.allowed hm rfl ha hstorage hallowed) hmove (.inl rfl))

/-! ## Pools, oracles and bridges -/

theorem addLiquidity (hm : f.tx.method = .addLiquidity)
    (ha : f.Moves assetA) (hb : f.Moves assetB) (hI : I m) (he : f.Early m.state) :
    wp (Detta.addLiquidity call f.tx f.msgSender assetA assetB) (fun _ => I) E m := by
  unfold Detta.addLiquidity
  repeat refine .skip (fun _ => ?_) fun e => h.fail m e hI
  refine h.resolving hI he fun ledgerA hA h hI => h.resolve hI he fun ledgerB hB h => ?_
  repeat refine h.skip fun _ => ?_
  refine .bind (h.transferAsset _ _ (fun _ hI => hI.1.2) (.caller (hm ▸ rfl)) (hm ▸ rfl) ha hA)
    fun _ => ?_
  refine .bind (h.transferAsset _ _ (fun _ hI => hI.2) (.caller (hm ▸ rfl)) (hm ▸ rfl) hb hB)
    fun _ => ?_
  repeat first
    | refine h.skip fun _ => ?_
    | refine .bind (h.set rfl (.of hm rfl rfl)) fun _ => ?_
  exact h.report

omit h in
/-- Both assets of a swap are assets of the pool. -/
theorem moves_of_outputAssetOf {assetA assetB input output : AssetId} (ha : f.Moves assetA)
    (hb : f.Moves assetB) (ho : outputAssetOf input assetA assetB = some output) :
    f.Moves input ∧ f.Moves output := by
  unfold outputAssetOf at ho
  split at ho
  next hi =>
    cases ho
    exact ⟨hi ▸ ha, hb⟩
  next =>
    split at ho
    next hi =>
      cases ho
      exact ⟨hi ▸ hb, ha⟩
    next => cases ho

theorem swap (hm : f.tx.method = .swap) (ha : f.Moves assetA)
    (hb : f.Moves assetB) (swapFeeBps : U64) (hI : I m) (he : f.Early m.state) :
    wp (Detta.swap call f.tx f.msgSender assetA assetB swapFeeBps) (fun _ => I) E m := by
  unfold Detta.swap
  iterate 5 refine .skip (fun _ => ?_) fun e => h.fail m e hI
  refine .okOr ⟨fun outputAsset ho => ?_, fun _ => h.fail m _ hI⟩
  obtain ⟨hin, hout⟩ := moves_of_outputAssetOf ha hb ho
  refine h.resolving hI he fun ledgerIn hIn h hI => h.resolve hI he fun ledgerOut hOut h => ?_
  repeat refine h.skip fun _ => ?_
  refine .bind (h.transferAsset _ _ (fun _ hI => hI.1.2) (.caller (hm ▸ rfl)) (hm ▸ rfl) hin hIn)
    fun _ => ?_
  refine .bind (h.transferAsset _ _ (fun _ hI => hI.2) (.self (hm ▸ rfl)) (hm ▸ rfl) hout hOut)
    fun _ => ?_
  refine h.skip fun _ => .bind (h.set rfl (.of hm rfl rfl)) fun _ => ?_
  refine .bind (.onlyIf ?_) fun _ => ?_
  · exact h.skip fun _ => h.skip fun _ => h.set rfl (.of hm rfl rfl)
  · refine .bind (h.set rfl (.of hm rfl rfl)) fun _ => h.skip fun _ => ?_
    exact h.report

theorem submitPrice (hm : f.tx.method = .submitPrice) (asset : AssetId)
    (maxAge : U64) : Keeps I E (Detta.submitPrice f.tx f.msgSender asset maxAge) := by
  unfold Detta.submitPrice
  repeat first
    | refine h.skip fun _ => ?_
    | refine .bind (h.set rfl (.of hm rfl rfl)) fun _ => ?_
  exact h.report

theorem appendOutbox
    (hm : f.tx.method = .queueBridgeMessage ∨ ∃ projection, f.tx.method = .other projection)
    {destinationChain : ChainId} {destinationContract : ContractId} {messageId : String}
    {recipient : Principal} {amount : Amount} (hI : I m)
    (hn : f.tx.method ≠ .queueBridgeMessage →
      m.state.outboundMessageIds.contains messageId = false) :
    wp (Kernel.appendOutbox f.tx destinationChain destinationContract messageId recipient
      asset amount) (fun _ => I) E m :=
  .write (h.emit _ _ (h.own hI (.outbox ⟨m.state.chainId, f.tx.target,
    m.state.height, destinationChain, destinationContract, messageId, recipient, asset, amount⟩
    rfl hm hn)))

theorem queueBridgeMessage (hm : f.tx.method = .queueBridgeMessage)
    (hI : I m) (he : f.Early m.state) :
    wp (Detta.queueBridgeMessage call f.tx f.msgSender) (fun _ => I) E m := by
  unfold Detta.queueBridgeMessage
  have hfail : ∀ e, E e m := fun e => h.fail m e hI
  iterate 5 refine .skip (fun _ => ?_) hfail
  refine wp_bind.2 (wp_expectAsset (fun asset ha => ?_) hfail)
  repeat refine .skip (fun _ => ?_) hfail
  refine h.resolve hI he fun ledger hl h => ?_
  refine .bind (h.transferAsset _ _ (fun _ hI => hI.2) (.caller (hm ▸ rfl)) (hm ▸ rfl)
    (.inr ⟨.inl hm, List.mem_of_getElem? ha⟩) hl) fun _ => ?_
  exact .bind (fun _ hI => h.appendOutbox (.inl hm) hI fun hne => absurd hm hne) fun _ => h.done

theorem redeemBridgeMessage (hm : f.tx.method = .redeemBridgeMessage)
    (env : Env) (sourceChain : ChainId) (hI : I m) (he : f.Early m.state) :
    wp (Detta.redeemBridgeMessage env f.tx sourceChain) (fun _ => I) E m := by
  unfold Detta.redeemBridgeMessage
  have hfail : ∀ e, E e m := fun e => h.fail m e hI
  iterate 3 refine .skip (fun _ => ?_) hfail
  refine wp_bind.2 (wp_expectAsset (fun asset ha => ?_) hfail)
  repeat refine .skip (fun _ => ?_) hfail
  refine h.resolve hI he fun ledger hl h => ?_
  refine .bind (h.mint _ _ _ (fun _ hI => hI.2) (.inr ⟨.inr hm, List.mem_of_getElem? ha⟩) hl)
    fun _ => ?_
  refine .bind (h.set rfl (.of hm rfl rfl)) fun _ => ?_
  exact h.report

/-! ## Lending -/

theorem depositCollateral (hm : f.tx.method = .depositCollateral)
    (hd : f.Moves asset) (hI : I m) (he : f.Early m.state) :
    wp (Detta.depositCollateral call f.tx asset) (fun _ => I) E m := by
  unfold Detta.depositCollateral
  have hfail : ∀ e, E e m := fun e => h.fail m e hI
  iterate 3 refine .skip (fun _ => ?_) hfail
  refine .ensure ⟨fun ha => ?_, fun _ => hfail _⟩
  subst ha
  refine .skip (fun _ => ?_) hfail
  refine h.resolve hI he fun ledger hl h => h.skip fun _ => ?_
  refine .bind (h.transferAsset _ _ (fun _ hI => hI.2) (.depositor hm) (hm ▸ rfl) hd hl)
    fun _ => ?_
  refine h.skip fun _ => .bind (h.set rfl (.of hm rfl rfl)) fun _ => ?_
  exact h.report

theorem borrow (hm : f.tx.method = .borrow) {config : LendingConfig}
    (hd : f.Moves config.debtAsset) (hI : I m) (he : f.Early m.state) :
    wp (Detta.borrow call f.tx f.msgSender config) (fun _ => I) E m := by
  unfold Detta.borrow
  repeat refine .skip (fun _ => ?_) fun e => h.fail m e hI
  refine (h.early.accrueLendingDebt rfl (.inl hm) _ _ _ m ⟨hI, he⟩).bind fun debt m hJ => ?_
  repeat refine .skip (fun _ => ?_) fun e => h.fail m e hJ.1
  refine h.resolve hJ.1 hJ.2 fun ledger hl h => ?_
  refine .bind (h.transferAsset _ _ (fun _ hI => hI.2) (.self (hm ▸ rfl)) (hm ▸ rfl) hd hl)
    fun _ => ?_
  refine .bind (h.set rfl (.of hm rfl rfl)) fun _ => ?_
  exact h.report

theorem liquidate (hm : f.tx.method = .liquidate) {config : LendingConfig}
    (hc : f.Moves config.collateralAsset) (hd : f.Moves config.debtAsset) (hI : I m)
    (he : f.Early m.state) :
    wp (Detta.liquidate call f.tx f.msgSender config) (fun _ => I) E m := by
  unfold Detta.liquidate
  repeat refine .skip (fun _ => ?_) fun e => h.fail m e hI
  refine (h.early.accrueLendingDebt rfl (.inr hm) _ _ _ m ⟨hI, he⟩).bind fun debt m hJ => ?_
  repeat refine .skip (fun _ => ?_) fun e => h.fail m e hJ.1
  refine (h.early.settleDebt rfl hm _ _ _ _ m hJ).bind fun settled m hJ => ?_
  refine h.resolving hJ.1 hJ.2 fun debtLedger hD h hI => ?_
  refine h.resolve hI hJ.2 fun collateralLedger hC h => ?_
  refine .bind (h.transferAsset _ _ (fun _ hI => hI.1.2) (.caller (hm ▸ rfl)) (hm ▸ rfl) hd hD)
    fun _ => ?_
  refine .bind (.onlyIf
    (h.transferAsset _ _ (fun _ hI => hI.2) (.self (hm ▸ rfl)) (hm ▸ rfl) hc hC)) fun _ => ?_
  repeat first
    | refine h.skip fun _ => ?_
    | refine .bind (h.set rfl (.of hm rfl rfl)) fun _ => ?_
  exact h.report

/-! ## Staking -/

theorem collectPenalty {key : StateKey} (hf : frame.contract = f.tx.target)
    (hk : f.Writes key) (penalty : Amount) :
    Keeps I E (Detta.collectPenalty frame key penalty) :=
  .onlyIf (h.skip fun _ => h.skip fun _ => h.set hf hk)

theorem reportPenalty (staker : Principal) (asset : AssetId)
    (amount penalty released : Amount) :
    Keeps I E (Detta.reportPenalty f.tx staker asset amount penalty released) :=
  .onlyIf (h.emit _)

theorem stake (hm : f.tx.method = .stake) (hs : f.Stakes asset)
    (hd : f.Moves asset) (rewardPerBlock : Amount) (hI : I m) (he : f.Early m.state) :
    wp (Detta.stake call f.tx f.msgSender asset rewardPerBlock) (fun _ => I) E m := by
  unfold Detta.stake
  refine .skip (fun _ => ?_) fun e => h.fail m e hI
  refine (h.early.accrueStakingRewards rfl _ _ _ _ (.of hm rfl rfl) (.of hm rfl rfl) m
    ⟨hI, he⟩).bind fun _ m hJ => ?_
  repeat refine .skip (fun _ => ?_) fun e => h.fail m e hJ.1
  refine h.resolve hJ.1 hJ.2 fun ledger hl h => ?_
  refine .bind (h.transferAsset _ _ (fun _ hI => hI.2) (.caller (hm ▸ rfl)) (hm ▸ rfl) hd hl)
    fun _ => ?_
  repeat first
    | refine h.skip fun _ => ?_
    | refine .bind (h.set rfl (.stake hm rfl rfl hs)) fun _ => ?_
  exact h.report

theorem unstake (hm : f.tx.method = .unstake) (hs : f.Stakes asset)
    (hd : f.Moves asset) (parameters : StakingParameters) (hI : I m) (he : f.Early m.state) :
    wp (Detta.unstake call f.tx f.msgSender asset parameters) (fun _ => I) E m := by
  unfold Detta.unstake
  iterate 2 refine .skip (fun _ => ?_) fun e => h.fail m e hI
  refine (h.early.accrueStakingRewards rfl _ _ _ _ (.of hm rfl rfl) (.of hm rfl rfl) m
    ⟨hI, he⟩).bind fun _ m hJ => ?_
  repeat refine .skip (fun _ => ?_) fun e => h.fail m e hJ.1
  refine h.resolve hJ.1 hJ.2 fun ledger hl h => ?_
  iterate 2 refine .bind (h.set rfl (.stake hm rfl rfl hs)) fun _ => ?_
  refine .bind (h.collectPenalty rfl (.of hm rfl rfl) _) fun _ => ?_
  refine .bind (.onlyIf
    (h.transferAsset _ _ (fun _ hI => hI.2) (.self (hm ▸ rfl)) (hm ▸ rfl) hd hl)) fun _ =>
    h.skip fun _ => ?_
  exact .bind (h.reportPenalty _ _ _ _ _) fun _ => h.report

theorem requestUnstake (hm : f.tx.method = .requestUnstake)
    (hs : f.Stakes asset) (rewardPerBlock : Amount) (unbondingDelay unstakePenaltyBps : U64) :
    Keeps I E (Detta.requestUnstake f.tx f.msgSender asset rewardPerBlock unbondingDelay
      unstakePenaltyBps) := by
  unfold Detta.requestUnstake
  refine h.skip fun _ => ?_
  refine .bind (h.sets.accrueStakingRewards rfl _ _ _ _ (.of hm rfl rfl) (.of hm rfl rfl))
    fun _ => ?_
  repeat first
    | refine h.skip fun _ => ?_
    | refine .bind (h.set rfl (.stake hm rfl rfl hs)) fun _ => ?_
  refine .bind (h.collectPenalty rfl (.of hm rfl rfl) _) fun _ => ?_
  refine .bind (h.set rfl (.of hm rfl rfl)) fun _ => h.skip fun _ => ?_
  exact .bind (h.reportPenalty _ _ _ _ _) fun _ => h.report

theorem completeUnstake (hm : f.tx.method = .completeUnstake)
    (hs : f.Stakes asset) (hd : f.Moves asset) (hI : I m) (he : f.Early m.state) :
    wp (Detta.completeUnstake call f.tx f.msgSender asset) (fun _ => I) E m := by
  unfold Detta.completeUnstake
  repeat refine .skip (fun _ => ?_) fun e => h.fail m e hI
  refine (h.early.set rfl (.stake hm rfl rfl hs) m ⟨hI, he⟩).bind fun _ m hJ => ?_
  refine (h.early.set rfl (.stake hm rfl rfl hs) m hJ).bind fun _ m hJ => ?_
  refine h.resolve hJ.1 hJ.2 fun ledger hl h => ?_
  refine .bind (h.transferAsset _ _ (fun _ hI => hI.2) (.self (hm ▸ rfl)) (hm ▸ rfl) hd hl)
    fun _ => ?_
  exact h.skip fun _ => h.report

theorem claimStakingRewards (hm : f.tx.method = .claimStakingRewards)
    (hd : f.Moves asset) (rewardPerBlock : Amount) (hI : I m) (he : f.Early m.state) :
    wp (Detta.claimStakingRewards f.tx f.msgSender asset rewardPerBlock) (fun _ => I) E m := by
  unfold Detta.claimStakingRewards
  iterate 2 refine .skip (fun _ => ?_) fun e => h.fail m e hI
  refine .ensure ⟨fun ha => ?_, fun _ => h.fail m _ hI⟩
  subst ha
  refine (h.early.accrueStakingRewards rfl _ _ _ _ (.of hm rfl rfl) (.of hm rfl rfl) m
    ⟨hI, he⟩).bind fun _ m hJ => ?_
  refine .skip (fun _ => ?_) fun e => h.fail m e hJ.1
  refine (h.early.set rfl (.of hm rfl rfl) m hJ).bind fun _ m hJ => ?_
  refine wp_bind.2 (wp.mono (Q := fun _ => I) (wp_onlyIf.2 ⟨fun _ => ?_, fun _ => hJ.1⟩)
    (fun _ m hI => h.report m hI) fun _ _ hE => hE)
  refine h.resolve hJ.1 hJ.2 fun ledger hl h => ?_
  exact h.mint _ _ _ (fun _ hI => hI.2) hd hl

/-! ## Governance -/

theorem pauseContract (hm : f.tx.method = .pauseContract)
    (contract : ContractId) : Keeps I E (Detta.pauseContract f.tx f.msgSender contract) := by
  refine h.skip fun _ => .bind (h.write fun s => .pause _ (.inl hm) fun c hc => .inl ?_) fun _ =>
    h.report
  rw [Std.ExtTreeSet.contains_insert, hc, Bool.or_true]

/-- No other contract than the governed one is unpaused. -/
theorem unpauseContract {contract : ContractId}
    (hu : f.Unpauses contract) :
    Keeps I E (Detta.unpauseContract f.tx f.msgSender contract) := by
  refine h.skip fun _ => .bind (h.write fun s => .pause _ (.inr hu.1) fun c hc => ?_) fun _ =>
    h.report
  by_cases he : contract = c
  · exact .inr (he ▸ hu)
  · refine .inl ?_
    rw [Std.ExtTreeSet.contains_erase, hc, Bool.and_true]
    simpa using he

theorem scheduleUpgrade (hm : f.tx.method = .scheduleUpgrade)
    (contract : ContractId) (timelockDelay : U64) :
    Keeps I E (Detta.scheduleUpgrade f.tx f.msgSender contract timelockDelay) := by
  unfold Detta.scheduleUpgrade
  repeat refine h.skip fun _ => ?_
  exact .bind (h.write fun s => .schedule _ s.scheduledPolicyUpdates (hm ▸ rfl)
    (fun hne => absurd hm hne) fun _ _ => rfl) fun _ => h.report

theorem schedulePolicyUpdate (hm : f.tx.method = .schedulePolicyUpdate)
    (contract : ContractId) (timelockDelay : U64) :
    Keeps I E (Detta.schedulePolicyUpdate f.tx f.msgSender contract timelockDelay) := by
  unfold Detta.schedulePolicyUpdate
  repeat refine h.skip fun _ => ?_
  exact .bind (h.write fun s => .schedule s.scheduledUpgrades _ (hm ▸ rfl) (fun _ _ => rfl)
    fun hne => absurd hm hne) fun _ => h.report

omit h in
/-- An entry that is there may be written again. -/
theorem contains_insert_of_getElem? {V : Type} {t : Std.ExtTreeMap String V} {key : String}
    {old : V} (h : t[key]? = some old) (new : V) (id : String) :
    (t.insert key new).contains id = t.contains id := by
  rw [Std.ExtTreeMap.contains_insert]
  by_cases he : key = id
  · subst he
    simp [Table.contains_iff.2 ⟨_, h⟩]
  · simp [he]

/-- The entry and the record that are written back are those just read. -/
theorem executeUpgrade (hm : f.tx.method = .executeUpgrade) (env : Env)
    (contract : ContractId) :
    Keeps I E (Detta.executeUpgrade env f.tx f.msgSender contract) := by
  unfold Detta.executeUpgrade
  refine h.skip fun _ => h.skip fun upgradeId => h.skip fun _ => h.skip fun _ => ?_
  intro m hI
  have hfail : ∀ e, E e m := fun e => h.fail m e hI
  refine .read (.okOr ⟨fun upgrade hu => ?_, fun _ => hfail _⟩)
  iterate 4 refine .skip (fun _ => ?_) hfail
  refine .read (.okOr ⟨fun target ht => ?_, fun _ => hfail _⟩)
  refine .write ?_
  refine Keeps.bind h.done (fun _ => h.skip fun _ => h.report) _ ?_
  have hstep : OwnStep f m.state (m.state.withContract contract
      { target with codeHash := upgrade.newCodeHash }) :=
    .govern ht rfl rfl (.upgrade hm rfl) (fun _ policy hp => ⟨policy, hp, fun _ he => he⟩)
      fun _ policy hp => ⟨policy, hp, rfl⟩
  have hI' := h.own hI hstep
  have hI'' := h.own hI' (.schedule
    (m.state.scheduledUpgrades.insert upgradeId { upgrade with executed := true })
    m.state.scheduledPolicyUpdates (hm ▸ rfl) (fun _ => contains_insert_of_getElem? hu _)
    fun _ _ => rfl)
  exact hI''

omit h in
/-- One effect is added to a policy. -/
theorem policiesWithin_insert {method : Method} {policy : MethodPolicy}
    (hp : record.methodPolicy method = some policy) (effect : PolicyEffect) :
    record.PoliciesWithin
      { record with
        methodPolicies := record.methodPolicies.insert method
          { policy with effects := policy.effects.insert effect } } := by
  intro other policy' h
  rcases Table.of_getElem?_insert h with ⟨rfl, rfl⟩ | h
  · exact ⟨policy, hp, fun e he => Table.contains_insert_set.2 (.inr he)⟩
  · exact ⟨policy', h, fun _ he => he⟩

omit h in
theorem keepsAuthority_insert {method : Method} {policy : MethodPolicy}
    (hp : record.methodPolicy method = some policy) (effect : PolicyEffect) :
    record.KeepsAuthority
      { record with
        methodPolicies := record.methodPolicies.insert method
          { policy with effects := policy.effects.insert effect } } := by
  intro other policy' h
  simp only [Table.getElem?_insert]
  split
  next he =>
    subst he
    cases hp.symm.trans h
    exact ⟨_, rfl, rfl⟩
  next => exact ⟨policy', h, rfl⟩

theorem executePolicyUpdate (hm : f.tx.method = .executePolicyUpdate)
    (env : Env) (contract : ContractId) :
    Keeps I E (Detta.executePolicyUpdate env f.tx f.msgSender contract) := by
  unfold Detta.executePolicyUpdate
  refine h.skip fun _ => h.skip fun updateId => h.skip fun _ => h.skip fun _ => h.skip fun _ => ?_
  intro m hI
  have hfail : ∀ e, E e m := fun e => h.fail m e hI
  refine .read (.okOr ⟨fun update hu => ?_, fun _ => hfail _⟩)
  iterate 4 refine .skip (fun _ => ?_) hfail
  refine .read (.okOr ⟨fun target ht => ?_, fun _ => hfail _⟩)
  refine .okOr ⟨fun policy hp => ?_, fun _ => hfail _⟩
  refine .write ?_
  refine Keeps.bind h.done
    (fun _ => h.skip fun _ => h.skip fun _ => h.report) _ ?_
  have hstep : OwnStep f m.state (m.state.withContract contract
      { target with
        methodPolicies := target.methodPolicies.insert update.method
          { policy with effects := policy.effects.insert update.effect } }) :=
    .govern ht rfl rfl (.policy hm rfl) (policiesWithin_insert hp _) (keepsAuthority_insert hp _)
  have hI' := h.own hI hstep
  have hI'' := h.own hI' (.schedule m.state.scheduledUpgrades
    (m.state.scheduledPolicyUpdates.insert updateId { update with executed := true }) (hm ▸ rfl)
    (fun _ _ => rfl) fun _ => contains_insert_of_getElem? hu _)
  exact hI''

/-! ## Routers, factories and accounts -/

theorem routeTransferFrom (hm : f.tx.method = .routeTransferFrom)
    (token : ContractId) : Keeps I E (Detta.routeTransferFrom call f.tx token) :=
  h.skip fun _ => h.call_keeps fun _ _ => .route token hm

theorem reportDeployment (contract : ContractId) (kind : String) :
    Keeps I E (Detta.reportDeployment f.tx contract kind) :=
  h.skip fun _ => h.skip fun _ => h.emit _

theorem deployToken (hm : f.tx.method = .deployToken) (env : Env)
    (contract : ContractId) (ha : f.tx.args[1]? = some (.asset asset)) (owner : Principal)
    (supply : Amount) :
    Keeps I E (Detta.deployToken env contract asset [(owner, supply)]) := by
  intro m hI
  refine wp_deployToken (fun codeHash total hn hd ht hs => ?_) fun e => h.fail m e hI
  have hstep : OwnStep f m.state
      (m.state.withToken contract codeHash asset [(owner, supply)] total) :=
    .deploy hn (.token hm rfl) (.token hd ht hs) (fun e he token asset' hkey => by
      simp only [initialBalances, List.map_cons, List.map_nil, List.cons_append,
        List.nil_append, List.mem_cons, List.not_mem_nil, or_false] at he
      rcases he with rfl | rfl
      · cases hkey
      · cases hkey
        exact ⟨hm, ha⟩) (.of_policies (by decide) (by rintro ⟨⟩ h <;> first | rfl | cases h))
  exact ⟨h.own hI hstep, h.fail _ _ (h.own hI hstep)⟩

theorem deployTokenFromFactory (hm : f.tx.method = .deployToken)
    (env : Env) : Keeps I E (Detta.deployTokenFromFactory env f.tx) := by
  unfold Detta.deployTokenFromFactory
  refine h.skip fun _ => h.skip fun _ => h.asset fun asset ha => ?_
  repeat refine h.skip fun _ => ?_
  refine .bind (h.deployToken hm env _ ha _ _) fun _ => ?_
  exact .bind (h.reportDeployment _ _) fun _ => h.done

theorem deployAmmPool (hm : f.tx.method = .deployAmmPool) (env : Env)
    (contract : ContractId) (assetA assetB : AssetId) :
    Keeps I E (Detta.deployAmmPool env contract assetA assetB) := by
  intro m hI
  refine wp_deployAmmPoolWithParameters (fun codeHash hn hab => ?_) fun e => h.fail m e hI
  have hstep : OwnStep f m.state ((m.state.withContract contract
      (ContractRecord.ammPool contract codeHash assetA assetB ⟨30⟩)).puts
        (initialPool contract assetA assetB)) :=
    .deploy hn (.ammPool hm rfl) (.ammPool hab) (fun e he token asset hkey => by
      simp only [initialPool, List.mem_cons, List.not_mem_nil, or_false] at he
      rcases he with rfl | rfl | rfl | rfl | rfl <;> cases hkey)
      (.of_policies (by decide) (by rintro ⟨⟩ h <;> first | rfl | cases h))
  exact ⟨h.own hI hstep, h.fail _ _ (h.own hI hstep)⟩

theorem deployAmmPoolFromFactory (hm : f.tx.method = .deployAmmPool)
    (env : Env) : Keeps I E (Detta.deployAmmPoolFromFactory env f.tx) := by
  unfold Detta.deployAmmPoolFromFactory
  repeat refine h.skip fun _ => ?_
  refine .bind (h.deployAmmPool hm env _ _ _) fun _ => ?_
  exact .bind (h.reportDeployment _ _) fun _ => h.done

theorem registerAspectModule (hm : f.tx.method = .submitAspectModule)
    (env : Env) (module : AspectModuleRecord) :
    Keeps I E (Detta.registerAspectModule env module) := by
  unfold Detta.registerAspectModule
  refine h.skip fun _ => h.skip fun _ => h.skip fun _ => fun m hI => ?_
  simp only [wp_bind, wp_read, wp_ensure, wp_write, wp_pure]
  exact ⟨fun hn => h.own hI (.module module hm hn), fun _ => h.fail m _ hI⟩

theorem submitAspectModuleFromFactory
    (hm : f.tx.method = .submitAspectModule) (env : Env) :
    Keeps I E (Detta.submitAspectModuleFromFactory env f.tx) :=
  h.skip fun _ => .bind (h.registerAspectModule hm env _) fun _ =>
    h.report

/-- A new aspect contract is there to be initialized. -/
theorem deployAspectContractFromFactory
    (hm : f.tx.method = .deployAspectContract) (hI : I m) (hs : m.state = f.start) :
    wp (Detta.deployAspectContractFromFactory call f.tx) (fun _ => I) E m := by
  unfold Detta.deployAspectContractFromFactory
  have hfail : ∀ e, E e m := fun e => h.fail m e hI
  refine .skip (fun _ => ?_) hfail
  refine wp_bind.2 (wp_expectText (fun contract ha => ?_) hfail)
  refine wp_bind.2 (wp_expectText (fun moduleHash hh => ?_) hfail)
  refine wp_bind.2 (wp_expectText (fun bundleId hb => ?_) hfail)
  refine wp_bind.2 (wp_deployAspectContract (fun module record hn hmod hr => ?_) hfail)
  have hk := isAspectModule_of_aspectModuleContract hr
  have hstep : OwnStep f m.state ((m.state.withContract contract record).puts []) :=
    .deploy hn (.aspectModule hm ha hh hb hmod hr) (.bare (hk ▸ rfl))
      (fun e he => absurd he (by simp)) (byManifest_aspectModuleContract hr)
  have hI' := h.own hI hstep
  have hc : (m.state.withContract contract record).contracts.contains contract = true := by
    simp [DeTTaState.withContract]
  refine .write ?_
  have hI'' := h.own hI' (.admin hm ha (hs ▸ hn) hc)
  have h' := h.lasting (lasts_known contract (.aspectToken contract))
  refine (Keeps.bind (h'.reportDeployment _ _) (fun _ => ?_) _ ⟨hI'', record, ?_, ?_⟩).mono
    (fun _ _ hQ => hQ.1) fun _ _ hE => hE
  · refine .bind (.onlyIf (h'.skip fun _ => ?_)) fun _ => h'.done
    refine .bind (h'.call_keeps fun m hI => ?_) fun _ => h'.done
    obtain ⟨record, hr, hk⟩ := hI.2
    exact .setUp _ hm hr hk
  · simp [DeTTaState.puts, DeTTaState.withContract, DeTTaState.grant]
  · rw [hk]
    rfl

theorem registerAccountKeyFromContract
    (hm : f.tx.method = .registerAccountKey) :
    Keeps I E (Detta.registerAccountKeyFromContract f.tx f.msgSender) := by
  unfold Detta.registerAccountKeyFromContract registerAccountKey
  refine h.skip fun _ => h.skip fun _ => .bind ?_ fun _ => h.skip fun _ => ?_
  · exact h.skip fun _ => h.write fun _ => .accountKey _ (.inl hm)
  · exact h.report

theorem revokeAccountKeyFromContract
    (hm : f.tx.method = .revokeAccountKey) :
    Keeps I E (Detta.revokeAccountKeyFromContract f.tx f.msgSender) := by
  unfold Detta.revokeAccountKeyFromContract
  repeat refine h.skip fun _ => ?_
  refine .bind (h.write fun _ => .accountKey _ (.inr hm)) fun _ => h.skip fun _ => ?_
  exact h.report

end Handles

/-! ## Aspect contracts -/

/-- A state of an aspect contract is kept under its own keys. -/
theorem aspectStateKey_eq_ok {contract : ContractId} {bundleId : String} {ir : AspectModuleIr}
    {state : String} {params : List String} {key : StateKey}
    (h : aspectStateKey contract bundleId ir state params = .ok key) :
    ∃ aspect, key = .aspectState contract aspect state params := by
  obtain ⟨closure, -, h⟩ := exists_of_bind_eq_ok h
  split at h
  next => cases h
  next schema hs =>
    have hmem : schema ∈ (bundleSchemas ir closure).filter fun schema =>
        schema.state == state := by
      simp [hs]
    have hstate : schema.state = state := by simpa using (List.mem_filter.1 hmem).2
    cases h
    exact ⟨schema.aspect, by rw [hstate]⟩
  next => cases h

/-- Of native contracts, an aspect contract may only call methods with a fixed list of
    arguments. -/
theorem nativeMethodArgKinds_isSome {s : DeTTaState} {record : ContractRecord} {method : Method}
    {values : List AspectValue} {args : List Argument}
    (h : aspectValuesToHostCallArgs s record method values = .ok args)
    (hk : record.kind.isAspectModule = false) : (nativeMethodArgKinds method).isSome = true := by
  unfold aspectValuesToHostCallArgs at h
  cases hkind : record.kind <;> simp only [hkind, ContractKind.isAspectModule, reduceCtorEq] at h hk
  all_goals
    cases hn : nativeMethodArgKinds method with
    | none => simp [hn, bind, Except.bind] at h
    | some kinds => rfl

namespace Handles

variable {I : Machine → Prop} {E : ExecutionError → Machine → Prop} {f : Frame}
  {call : ContractCall} {host : AspectHostContext} {projection : String} {m : Machine}

theorem applyAspectCallContract (h : Handles I E f call) (hm : f.tx.method = .other projection)
    (hf : host.frame.contract = f.tx.target) (contract : ContractId) (method : String)
    (args : List AspectValue) :
    Keeps I E (Detta.applyAspectCallContract call f.tx host contract method args) := by
  unfold Detta.applyAspectCallContract
  refine h.skip fun _ => h.skip fun _ => fun m hI => ?_
  have hfail : ∀ e, E e m := fun e => h.fail m e hI
  refine .read (.okOr ⟨fun record hr => ?_, fun _ => hfail _⟩)
  refine .okOr ⟨fun method hh => ?_, fun _ => hfail _⟩
  refine .read (wp_bind.2 (wp_ofExcept.2 ⟨fun args ha => ?_, fun _ _ => hfail _⟩))
  rw [hf]
  have hspawn := h.spawn hI (.host projection args hm hr hh (nativeMethodArgKinds_isSome ha))
  exact wp_bind.2 (hspawn.mono (fun _ _ h' => h'.1) fun _ _ h' => h')

theorem applyAspectStateSet (h : Handles I E f call) (hm : f.tx.method = .other projection)
    (hf : host.frame.contract = f.tx.target) (state : String) (params : List String)
    (value : AspectValue) :
    Keeps I E (Detta.applyAspectStateSet f.tx host state params value) := by
  unfold Detta.applyAspectStateSet
  intro m hI
  refine wp_bind.2 (wp_ofExcept.2 ⟨fun key hk => ?_, fun _ _ => h.fail m _ hI⟩)
  obtain ⟨aspect, rfl⟩ := aspectStateKey_eq_ok hk
  exact h.skip (fun _ => h.set hf (.of hm rfl rfl)) m hI

/-- The identifier of the message is not used when the message is appended. -/
theorem applyAspectCrossShardOutboxAppend (h : Handles I E f call)
    (hm : f.tx.method = .other projection)
    {destinationChain destinationContract messageId recipient asset : String} {amount : Amount} :
    Keeps I E (Detta.applyAspectCrossShardOutboxAppend f.tx destinationChain destinationContract
      messageId recipient asset amount) := by
  refine h.skip fun _ => fun m hI => ?_
  refine .read (.ensure ⟨fun hn => ?_, fun _ => h.fail m _ hI⟩)
  exact h.appendOutbox (.inr ⟨_, hm⟩) hI fun _ => hn

theorem applyAspectHostOp (h : Handles I E f call) (hm : f.tx.method = .other projection)
    (hf : host.frame.contract = f.tx.target) (env : Env) (op : AspectHostOp) :
    Keeps I E (Detta.applyAspectHostOp env call f.tx host op) := by
  cases op with
  | stateGet => exact h.done (p := (pure () : Kernel Unit))
  | contractStateGet => exact h.done (p := ensure _ _)
  | stateSet => exact h.applyAspectStateSet hm hf _ _ _
  | emit => exact h.emit _
  | registryGet | registrySet | registryConsume => exact h.done (p := (throw _ : Kernel Unit))
  | callContract => exact h.applyAspectCallContract hm hf _ _ _
  | permitVerify => exact h.usePermitCertificate
  | bridgeVerify =>
    exact h.skip fun _ => h.done (p := verifyBridgeFinalityProof _ _ _)
  | crossShardOutboxAppend => exact h.applyAspectCrossShardOutboxAppend hm

theorem executeAspectModuleMethod (h : Handles I E f call) (env : Env)
    (moduleHash bundleId : String) :
    Keeps I E (Detta.executeAspectModuleMethod env call f.tx f.msgSender moduleHash bundleId) := by
  unfold Detta.executeAspectModuleMethod
  intro m hI
  refine .okOr ⟨fun projection hp => ?_, fun _ => h.fail m _ hI⟩
  have hm : f.tx.method = .other projection := by
    split at hp
    next name hn => cases hp; exact hn
    next => cases hp
  revert m
  repeat refine h.skip fun _ => ?_
  refine .bind (.forEach fun op _ => h.applyAspectHostOp hm rfl env op) fun _ => ?_
  exact h.skip fun _ => h.skip fun _ => h.done

/-! ## The body of a frame -/

theorem kindMethod (h : Handles I E f call) (env : Env) (hI : I m) (hs : m.state = f.start)
    {record : ContractRecord} (hr : f.start.contracts[f.tx.target]? = some record) :
    wp (Detta.kindMethod env call f.tx f.msgSender record.kind) (fun _ => I) E m := by
  have hd : ∀ {kind : ContractKind}, record.kind = kind → ∀ asset {method : Method},
      f.tx.method = method → asset ∈ kind.moves method → f.Moves asset :=
    fun hk asset _ hm ha => .inl ⟨record, hr, hk ▸ hm ▸ ha⟩
  have he : f.Early m.state := fun asset => by rw [hs]
  cases hk : record.kind with
  | token =>
    have h' := h.lasting (lasts_isToken f.tx.target)
    have ht : m.state.IsToken f.tx.target := by simp [DeTTaState.IsToken, hs, hr, hk]
    refine wp.mono (Q := fun _ m => I m ∧ m.state.IsToken f.tx.target) ?_ (fun _ _ hQ => hQ.1)
      fun _ _ hE => hE
    rw [Detta.kindMethod, tokenMethod]
    split
    next hm => exact h'.transfer hm (fun _ hI => hI.2) m ⟨hI, ht⟩
    next hm => exact h'.approve hm m ⟨hI, ht⟩
    next hm => exact h'.transferFrom hm (fun _ hI => hI.2) ⟨hI, ht⟩ hs
    next hm => exact h'.permit hm m ⟨hI, ht⟩
    next => exact h'.done m ⟨hI, ht⟩
  | ammPool assetA assetB fee =>
    rw [Detta.kindMethod, ammPoolMethod]
    split
    next hm =>
      exact h.addLiquidity hm (hd hk _ hm (.head _)) (hd hk _ hm (.tail _ (.head _))) hI he
    next hm => exact h.swap hm (hd hk _ hm (.head _)) (hd hk _ hm (.tail _ (.head _))) _ hI he
    next => exact h.done m hI
  | oracle asset maxAge =>
    rw [Detta.kindMethod, oracleMethod]
    split
    next hm => exact h.submitPrice hm _ _ m hI
    next => exact h.done m hI
  | bridge sourceChain =>
    rw [Detta.kindMethod, bridgeMethod]
    split
    next hm => exact h.queueBridgeMessage hm hI he
    next hm => exact h.redeemBridgeMessage hm _ _ hI he
    next => exact h.done m hI
  | governance governed delay =>
    rw [Detta.kindMethod, governanceMethod]
    split
    next hm => exact h.pauseContract hm _ m hI
    next hm => exact h.unpauseContract ⟨hm, record, delay, hr, hk⟩ m hI
    next hm => exact h.scheduleUpgrade hm _ _ m hI
    next hm => exact h.executeUpgrade hm _ _ m hI
    next hm => exact h.schedulePolicyUpdate hm _ _ m hI
    next hm => exact h.executePolicyUpdate hm _ _ m hI
    next => exact h.done m hI
  | lendingVault =>
    rw [Detta.kindMethod, lendingVaultMethod]
    split
    next hm => exact h.depositCollateral hm (hd hk _ hm (.head _)) hI he
    next hm => exact h.borrow hm (hd hk _ hm (.head _)) hI he
    next hm =>
      exact h.liquidate hm (hd hk _ hm (.head _)) (hd hk _ hm (.tail _ (.head _))) hI he
    next => exact h.done m hI
  | staking asset =>
    have hst : f.Stakes asset := ⟨record, hr, by rw [hk]; rfl⟩
    rw [Detta.kindMethod, stakingMethod]
    split
    next hm => exact h.stake hm hst (hd hk _ hm (.head _)) _ hI he
    next hm => exact h.unstake hm hst (hd hk _ hm (.head _)) _ hI he
    next hm => exact h.requestUnstake hm hst _ _ _ m hI
    next hm => exact h.completeUnstake hm hst (hd hk _ hm (.head _)) hI he
    next hm => exact h.claimStakingRewards hm (hd hk _ hm (.head _)) _ hI he
    next => exact h.done m hI
  | router token =>
    rw [Detta.kindMethod, routerMethod]
    split
    next hm => exact h.routeTransferFrom hm _ m hI
    next => exact h.done m hI
  | factory =>
    rw [Detta.kindMethod, factoryMethod]
    split
    next hm => exact h.deployTokenFromFactory hm _ m hI
    next hm => exact h.deployAmmPoolFromFactory hm _ m hI
    next hm => exact h.submitAspectModuleFromFactory hm _ m hI
    next hm => exact h.deployAspectContractFromFactory hm hI hs
    next => exact h.done m hI
  | accountRegistry =>
    rw [Detta.kindMethod, accountRegistryMethod]
    split
    next hm => exact h.registerAccountKeyFromContract hm m hI
    next hm => exact h.revokeAccountKeyFromContract hm m hI
    next => exact h.done m hI
  | aspectModule moduleHash bundleId => exact h.executeAspectModuleMethod _ _ _ m hI

/-- A method that the kind of the contract does not have fails at once. -/
theorem wp_kindMethod_of_not_offers {Q : ReturnValue → Machine → Prop} (env : Env)
    {kind : ContractKind} (ho : kind.offers f.tx.method = false) (hfail : ∀ e, E e m) :
    wp (Detta.kindMethod env call f.tx f.msgSender kind) Q E m := by
  -- each kind has its own branch for every method it offers, and one for the rest
  cases kind with
  | aspectModule =>
    refine .okOr ⟨fun projection hp => ?_, fun _ => hfail _⟩
    split at hp
    next name hm => simp [hm, ContractKind.offers] at ho
    next => cases hp
  | _ =>
    simp only [Detta.kindMethod, tokenMethod, ammPoolMethod, oracleMethod, bridgeMethod,
      governanceMethod, lendingVaultMethod, stakingMethod, routerMethod, factoryMethod,
      accountRegistryMethod]
    split <;> first | exact hfail _ | (rename_i hm; simp [hm, ContractKind.offers] at ho)

/-- The body of a frame keeps what its steps keep. -/
theorem callBody (h : f.Live → Handles I E f call) (env : Env) (hI : I m) (hs : m.state = f.start)
    (hfail : ∀ e, E e m) :
    wp (Detta.callBody env call f.tx f.msgSender) (fun _ => I) E m := by
  unfold Detta.callBody
  refine .read (.okOr ⟨fun record hr => ?_, fun _ => hfail _⟩)
  rw [hs] at hr
  iterate 3 refine .skip (fun _ => ?_) hfail
  refine wp_bind.2 (wp_check.2 ⟨fun hp => ?_, fun _ => hfail _⟩)
  rw [hs, Bool.not_eq_true'] at hp
  cases ho : record.kind.offers f.tx.method with
  | false => exact wp_kindMethod_of_not_offers env ho hfail
  | true => exact (h ⟨record, hr, ho, hp⟩).kindMethod env hI hs hr

end Handles

end Detta
