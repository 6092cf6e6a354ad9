import Raftel.Equiv.Runs
import Raftel.Safety.LeaderAccum

/-!
# Proposals that fail

`processQC` takes the waiting transactions out of the queue when it creates the block, and only then asks
the component for a signature.  When the identifier of the block is no `int`, or when the component refuses
the proposal, the block is dropped with its transactions: nothing puts them back.

* `processQC_eq` : a view that has not been processed gets a block
* `queueKept_iff` : exactly when a failed proposal keeps the queue
* `not_queueKept_refused` : a start after which a refused proposal loses a transaction
-/

namespace Raftel

open Lib

section Statement

variable {Key : Type} (cfg : HandlerConfig Key) (o : Oracle Key) (s : HandlerState)
  (newviews : List MsgNewViewComb) (qcType : QcType)

/-- A proposal is sent between the two states. -/
def Multicasts (s s' : HandlerState) : Prop :=
  ∃ msg recipients, s'.out = s.out ++ [(.ldrprepare msg, recipients)]

/-- If no proposal is sent, the waiting transactions are the same as before. -/
def QueueKept : Prop :=
  ¬ Multicasts s (endState (processQC cfg o newviews qcType s)) →
    (endState (processQC cfg o newviews qcType s)).transactions = s.transactions

/-! ### The condition -/

/-- The size that is required of the new-views. -/
def QcType.size : QcType → ℕ
  | .tee => cfg.tqsize
  | .normal => cfg.qsize

/-- The call for the accumulator of the new-views. -/
def accumCall : Call :=
  if (sameNewViewSigns newviews).size ≥ qcType.size cfg then
    .accumSp ⟨true, (newviews.head?.map MsgNewViewComb.data).getD RData.none, sameNewViewSigns newviews⟩
  else
    .accum (newViewJusts newviews)

/-- The block of the waiting transactions. -/
def waitingBlock (hash : Hash) : Block :=
  ⟨concatDigits cfg.myid s.view, true, hash, (s.transactions.take maxNumTransactions).length,
    Vector.ofFn fun i => (s.transactions.take maxNumTransactions).getD i.val .dummy⟩

/-- The checks of `TEEprepare`, in the enclave and in the host's component. -/
def Component.prepareChecks (cr : Crypto Key) (block : Block) (acc : Accum) (proof : NewViews)
    (st : CombState) : Component Key → Bool
  | .enclave vars => (combHashBlock cr.sha256 block).set
      && combValidateNewViews cr vars st.view proof acc && safeParent block acc st
  | .host vars => trustedValidProof cr vars st.view proof acc && safeParent block acc st
      && (Signs.one acc.sign).verify cr.verifySign vars.nodes (.accum acc.toAccumData)

/-- The proposal that would be made has an identifier and passes the component's checks. -/
def ProposalPasses : Prop :=
  let asked := s.called cfg o (accumCall cfg newviews qcType)
  let acc := asked.1.toAccum
  concatDigits cfg.myid s.view < 2 ^ 31 ∧
    cfg.component.prepareChecks (o.crypto asked.2.calls) (waitingBlock cfg s acc.hash) acc
      (setNewViews (.ofMsgs newviews)) s.tc = true

end Statement

/-! ### The steps of `processQC` -/

section Steps

variable {Key : Type} {cfg : HandlerConfig Key} {o : Oracle Key} {s : HandlerState}
  {newviews : List MsgNewViewComb} {qcType : QcType}

/-- The accumulator is made by one call of the component. -/
theorem newviews2accComb_eq : newviews2accComb cfg o newviews (qcType.size cfg) =
    Reply.toAccum <$> callTEE cfg o (accumCall cfg newviews qcType) := by
  unfold newviews2accComb accumCall
  dsimp only
  split
  · rfl
  · show Reply.toAccum <$> callTEE cfg o (.accum _) = Reply.toAccum <$> callTEE cfg o (.accum _)
    unfold newViewJusts
    congr 4
    funext i
    cases newviews[i.val]? <;> rfl

theorem newviews2accComb_run : newviews2accComb cfg o newviews (qcType.size cfg) s =
    .ok (s.called cfg o (accumCall cfg newviews qcType)).1.toAccum
      (s.called cfg o (accumCall cfg newviews qcType)).2 := by
  rw [newviews2accComb_eq]
  rfl

variable (cfg o s newviews qcType) in
/-- A component's accumulator is always set, and the call leaves the component as it was. -/
theorem accumCall_spec : (s.called cfg o (accumCall cfg newviews qcType)).1.toAccum.set = true ∧
    (s.called cfg o (accumCall cfg newviews qcType)).2.tc = s.tc := by
  show (cfg.component.call (o.crypto s.calls) s.tc _).1.toAccum.set = true ∧
    (cfg.component.call (o.crypto s.calls) s.tc _).2 = s.tc
  unfold accumCall
  split
  · cases cfg.component <;> exact ⟨rfl, rfl⟩
  · cases cfg.component <;> exact ⟨rfl, rfl⟩

variable (cfg s) in
theorem createNewBlock_run (hash : Hash) : createNewBlock cfg hash s =
    if concatDigits cfg.myid s.view < 2 ^ 31 then
      .ok (waitingBlock cfg s hash)
        { s with transactions := s.transactions.drop maxNumTransactions }
    else
      .error .outOfRange { s with transactions := s.transactions.drop maxNumTransactions } := by
  show (if concatDigits cfg.myid s.view < 2 ^ 31 then pure _ else throw _ : HandlerM Block)
    { s with transactions := s.transactions.drop maxNumTransactions } = _
  split
  · rfl
  · rfl

/-- **The component's reply to a proposal** is set exactly when its checks pass, and then has one
signature. -/
theorem Component.call_prepare (cr : Crypto Key) (comp : Component Key) (st : CombState)
    (block : Block) (acc : Accum) (proof : NewViews) :
    (comp.call cr st (.prepare block acc proof)).1.toJust.set =
        comp.prepareChecks cr block acc proof st ∧
      ((comp.call cr st (.prepare block acc proof)).1.toJust.set = true →
        (comp.call cr st (.prepare block acc proof)).1.toJust.signs.size = 1) := by
  cases comp with
  | enclave vars =>
    show (combTEEprepare cr vars block acc proof st).1.set =
        ((combHashBlock cr.sha256 block).set && combValidateNewViews cr vars st.view proof acc
          && safeParent block acc st) ∧
      ((combTEEprepare cr vars block acc proof st).1.set = true →
        (combTEEprepare cr vars block acc proof st).1.signs.size = 1)
    unfold combTEEprepare
    dsimp only
    split
    · next h => exact ⟨h.symm, fun _ => rfl⟩
    · next h => exact ⟨(Bool.not_eq_true _ ▸ h).symm, fun hset => absurd hset Bool.false_ne_true⟩
  | host vars =>
    show (trustedTEEprepare cr vars block acc proof st).1.set =
        (trustedValidProof cr vars st.view proof acc && safeParent block acc st
          && (Signs.one acc.sign).verify cr.verifySign vars.nodes (.accum acc.toAccumData)) ∧
      ((trustedTEEprepare cr vars block acc proof st).1.set = true →
        (trustedTEEprepare cr vars block acc proof st).1.signs.size = 1)
    unfold trustedTEEprepare
    dsimp only
    split
    · next h => exact ⟨h.symm, fun _ => rfl⟩
    · next h => exact ⟨(Bool.not_eq_true _ ▸ h).symm, fun hset => absurd hset Bool.false_ne_true⟩

/-- The part of `processQC` after the block has been created. -/
def proposeBlock (cfg : HandlerConfig Key) (o : Oracle Key) (newviews : List MsgNewViewComb)
    (acc : Accum) (block : Block) : HandlerM Unit := do
  let justPrep ← callTEEprepareComb cfg o block acc (NewViewProofComb.ofMsgs newviews)
  if !justPrep.set then pure ()
  else
    modify fun s => { s with
      processedNewViews := viewInsert s.view s.processedNewViews
      blocks := s.blocks.insert s.view block }
    if justPrep.signs.size = 1 then
      sendMsg (.ldrprepare ⟨acc, block, NewViewProofComb.ofMsgs newviews, justPrep.signs.get 0⟩)
        (cfg.removeFromPeersPure cfg.myid)
      modify fun s => { s with
        log := if cfg.isTEE cfg.myid then (s.log.storeTEEPrepComb ⟨justPrep.rdata, justPrep.signs⟩).2
          else (s.log.storePrepComb ⟨justPrep.rdata, justPrep.signs⟩).2 }
    else pure ()

/-- A view that has not been processed gets a block. -/
theorem processQC_eq (hnew : s.view ∉ s.processedNewViews) :
    processQC cfg o newviews qcType s =
      (createNewBlock cfg (s.called cfg o (accumCall cfg newviews qcType)).1.toAccum.hash >>=
        proposeBlock cfg o newviews (s.called cfg o (accumCall cfg newviews qcType)).1.toAccum)
          (s.called cfg o (accumCall cfg newviews qcType)).2 := by
  have hset := (accumCall_spec cfg o s newviews qcType).1
  have hbody : ∀ {acc s'}, newviews2accComb cfg o newviews (qcType.size cfg) s = .ok acc s' →
      acc.set = true → processQC cfg o newviews qcType s =
        (createNewBlock cfg acc.hash >>= proposeBlock cfg o newviews acc) s' := by
    intro acc s' hrun hacc
    have hskip : (!acc.set) ≠ true := by simp [hacc]
    show (if s.view ∈ s.processedNewViews then pure () else
      newviews2accComb cfg o newviews (qcType.size cfg) >>= _ : HandlerM Unit) s = _
    rw [if_neg hnew, bind_of_ok hrun, if_neg hskip]
    rfl
  exact hbody newviews2accComb_run hset

/-- A proposal that is refused is not sent, and the queue stays as it is. -/
theorem proposeBlock_of_refused {acc : Accum} {block : Block}
    (hrefused : cfg.component.prepareChecks (o.crypto s.calls) block acc
      (setNewViews (.ofMsgs newviews)) s.tc = false) :
    (endState (proposeBlock cfg o newviews acc block s)).out = s.out ∧
      (endState (proposeBlock cfg o newviews acc block s)).transactions = s.transactions := by
  have hset : (s.called cfg o (.prepare block acc (setNewViews (.ofMsgs newviews)))).1.toJust.set =
      false := (Component.call_prepare _ _ _ _ _ _).1.trans hrefused
  have hrun : proposeBlock cfg o newviews acc block s =
      .ok () (s.called cfg o (.prepare block acc (setNewViews (.ofMsgs newviews)))).2 := by
    have hcall : callTEEprepareComb cfg o block acc (.ofMsgs newviews) s = .ok
        (s.called cfg o (.prepare block acc (setNewViews (.ofMsgs newviews)))).1.toJust
        (s.called cfg o (.prepare block acc (setNewViews (.ofMsgs newviews)))).2 := rfl
    unfold proposeBlock
    rw [bind_of_ok hcall, hset]
    rfl
  rw [hrun]
  exact ⟨rfl, rfl⟩

/-- A proposal that passes is sent. -/
theorem proposeBlock_of_passes {acc : Accum} {block : Block}
    (hpasses : cfg.component.prepareChecks (o.crypto s.calls) block acc
      (setNewViews (.ofMsgs newviews)) s.tc = true) :
    Multicasts s (endState (proposeBlock cfg o newviews acc block s)) := by
  obtain ⟨hiff, hone⟩ := Component.call_prepare (o.crypto s.calls) cfg.component s.tc block acc
    (setNewViews (.ofMsgs newviews))
  have hset : (s.called cfg o (.prepare block acc (setNewViews (.ofMsgs newviews)))).1.toJust.set =
      true := hiff.trans hpasses
  have hsize : (s.called cfg o
      (.prepare block acc (setNewViews (.ofMsgs newviews)))).1.toJust.signs.size = 1 := hone hset
  have hcall : callTEEprepareComb cfg o block acc (.ofMsgs newviews) s = .ok
      (s.called cfg o (.prepare block acc (setNewViews (.ofMsgs newviews)))).1.toJust
      (s.called cfg o (.prepare block acc (setNewViews (.ofMsgs newviews)))).2 := rfl
  refine ⟨⟨acc, block, .ofMsgs newviews, (s.called cfg o (.prepare block acc
    (setNewViews (.ofMsgs newviews)))).1.toJust.signs.get 0⟩, cfg.removeFromPeersPure cfg.myid, ?_⟩
  unfold proposeBlock
  rw [bind_of_ok hcall, hset, if_neg (by simp), if_pos hsize]
  rfl

end Steps

/-! ### The condition is exact -/

/-- **Exactly when a failed proposal keeps the queue.**  For every state, every list of new-views and both
kinds of quorum: if `processQC` sends no proposal, the waiting transactions are as before, if and only if
the view has been processed, or none are waiting, or the proposal passes. -/
theorem queueKept_iff {Key : Type} (cfg : HandlerConfig Key) (o : Oracle Key) (s : HandlerState)
    (newviews : List MsgNewViewComb) (qcType : QcType) :
    QueueKept cfg o s newviews qcType ↔
      s.view ∈ s.processedNewViews ∨ s.transactions = [] ∨
        ProposalPasses cfg o s newviews qcType := by
  by_cases hdone : s.view ∈ s.processedNewViews
  · have hrun : processQC cfg o newviews qcType s = .ok () s := by
      show (if s.view ∈ s.processedNewViews then pure () else _ : HandlerM Unit) s = _
      rw [if_pos hdone]
      rfl
    refine iff_of_true (fun _ => ?_) (Or.inl hdone)
    rw [hrun]
    rfl
  · rw [or_iff_right hdone]
    -- the queue after a block has been created
    have hdrop : s.transactions.drop maxNumTransactions = s.transactions ↔ s.transactions = [] := by
      constructor
      · intro h
        have hlength := congrArg List.length h
        rw [List.length_drop] at hlength
        have hpos : 0 < maxNumTransactions := by decide
        exact List.eq_nil_of_length_eq_zero (by omega)
      · intro h
        rw [h, List.drop_nil]
    have htc := (accumCall_spec cfg o s newviews qcType).2
    have hnone : ∀ {s' : HandlerState}, s'.out = s.out → ¬ Multicasts s s' := by
      rintro s' hout ⟨msg, recipients, hsent⟩
      rw [hout] at hsent
      exact absurd (congrArg List.length hsent) (by simp)
    set asked := s.called cfg o (accumCall cfg newviews qcType) with hasked
    have hblock := createNewBlock_run cfg asked.2 asked.1.toAccum.hash
    unfold QueueKept ProposalPasses
    rw [processQC_eq hdone, ← hasked]
    by_cases hid : concatDigits cfg.myid s.view < 2 ^ 31
    · have hid' : concatDigits cfg.myid asked.2.view < 2 ^ 31 := hid
      rw [if_pos hid'] at hblock
      rw [bind_of_ok hblock]
      set s₂ : HandlerState :=
        { asked.2 with transactions := asked.2.transactions.drop maxNumTransactions } with hs₂
      have hout : s₂.out = s.out := rfl
      have hqueue : s₂.transactions = s.transactions.drop maxNumTransactions := rfl
      have hchecks : cfg.component.prepareChecks (o.crypto s₂.calls)
            (waitingBlock cfg asked.2 asked.1.toAccum.hash) asked.1.toAccum
            (setNewViews (.ofMsgs newviews)) s₂.tc =
          cfg.component.prepareChecks (o.crypto asked.2.calls)
            (waitingBlock cfg s asked.1.toAccum.hash) asked.1.toAccum
            (setNewViews (.ofMsgs newviews)) s.tc := by
        rw [show s₂.tc = s.tc from htc]
        rfl
      cases hpass : cfg.component.prepareChecks (o.crypto asked.2.calls)
          (waitingBlock cfg s asked.1.toAccum.hash) asked.1.toAccum
          (setNewViews (.ofMsgs newviews)) s.tc with
      | true =>
        obtain ⟨msg, recipients, hsent⟩ := proposeBlock_of_passes (hchecks.trans hpass)
        exact iff_of_true (fun hnot => absurd ⟨msg, recipients, hsent⟩ hnot) (Or.inr ⟨hid, hpass⟩)
      | false =>
        obtain ⟨hsent, hkept⟩ := proposeBlock_of_refused (hchecks.trans hpass)
        rw [or_iff_left (fun h => absurd (hpass.symm.trans h.2) Bool.false_ne_true), ← hdrop,
          hkept, hqueue]
        exact ⟨fun h => h (hnone (hsent.trans hout)), fun h _ => h⟩
    · have hid' : ¬ concatDigits cfg.myid asked.2.view < 2 ^ 31 := hid
      rw [if_neg hid'] at hblock
      rw [bind_of_error hblock, or_iff_left (fun h => hid h.1), ← hdrop]
      exact ⟨fun h => h (hnone rfl), fun h _ => h⟩

/-! ### A refused proposal -/

/-- The leader of view 1 has been started and has one waiting transaction. -/
def FlaggedNewView.waiting : HandlerState :=
  [.start 0, .transaction ⟨0, 1, Vector.replicate _ 1⟩].foldl
    (HandlerState.react cfg oracle · 1) .init

/-- **The transaction is lost.**  The new-views of replicas 1, 2 and 3 are a quorum, and replica 3 has set
the flag of the dummy hash: the component refuses the proposal, nothing is sent, and the queue is
empty. -/
theorem not_queueKept_refused :
    HostRun FlaggedNewView.cfg FlaggedNewView.oracle.sha256 FlaggedNewView.waiting ∧
      NewViewQuorum FlaggedNewView.cfg (FlaggedNewView.oracle.crypto []) 1
        (FlaggedNewView.newviews [1, 2, 3]) ∧
      ¬ QueueKept FlaggedNewView.cfg FlaggedNewView.oracle FlaggedNewView.waiting
        (FlaggedNewView.newviews [1, 2, 3]) .normal := by
  have hrun : HostRun FlaggedNewView.cfg FlaggedNewView.oracle.sha256 FlaggedNewView.waiting :=
    HostRun.init.foldl (o := FlaggedNewView.oracle) rfl 1 _
  refine ⟨hrun, FlaggedNewView.newViewQuorum (by decide) rfl (by decide), fun hkept => ?_⟩
  -- the call adds nothing to the messages and leaves no transaction
  have hsent : (endState (processQC FlaggedNewView.cfg FlaggedNewView.oracle
      (FlaggedNewView.newviews [1, 2, 3]) .normal FlaggedNewView.waiting)).out.length =
        FlaggedNewView.waiting.out.length := by decide +kernel
  have hqueue : (endState (processQC FlaggedNewView.cfg FlaggedNewView.oracle
      (FlaggedNewView.newviews [1, 2, 3]) .normal FlaggedNewView.waiting)).transactions.length =
        0 := by decide +kernel
  have hone : FlaggedNewView.waiting.transactions.length = 1 := by decide +kernel
  have hnot : ¬ Multicasts FlaggedNewView.waiting (endState (processQC FlaggedNewView.cfg
      FlaggedNewView.oracle (FlaggedNewView.newviews [1, 2, 3]) .normal FlaggedNewView.waiting)) := by
    rintro ⟨msg, recipients, hout⟩
    rw [hout, List.length_append] at hsent
    simp at hsent
  have heq := congrArg List.length (hkept hnot)
  rw [hqueue, hone] at heq
  exact absurd heq (by decide)

end Raftel
