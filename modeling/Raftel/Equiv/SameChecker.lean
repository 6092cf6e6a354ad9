import Raftel.Component
import Raftel.Message

/-!
# The two components compared

A replica with a TEE asks its enclave, one without asks the host's copy of the checker.  Both are given
the arguments of the same calls of the handler.  They differ in `TEEprepare`: only the enclave refuses a
block that is not set or exceeds its array, and an accumulator that is not set or whose signature is not.

* `combValidateNewViews_eq`, `certified_iff` : where the checks agree
* `sameChecker_iff` : the two give the same replies along a run exactly when none of its calls meets the
  difference
-/

namespace Raftel

/-! ### The calls of the handler -/

/-- The arguments of `callTEEsignComb`, `callTEEprepareComb` and `callTEEstoreComb`. -/
inductive HandlerCall
  | sign
  | prepare (block : Block) (acc : Accum) (proof : NewViewProofComb)
  | store (just : Just)

/-- The converted arguments; `setBasicBlock`, `setAccum` and `setJust` copy every field. -/
def HandlerCall.toCall : HandlerCall → Call
  | sign => .sign
  | prepare block acc proof => .prepare block acc (setNewViews proof)
  | store just => .store just

variable {Key : Type}

/-- The data that a component signs when it accepts the call, and its next state. -/
def Component.check (cr : Crypto Key) (comp : Component Key) (st : CombState) (c : HandlerCall) :
    Option RData × CombState :=
  ((comp.call cr st c.toCall).1.rdata?, (comp.call cr st c.toCall).2)

/-- An enclave and a host's component with the same identifier, quorum sizes and nodes. -/
structure SameConfig (ev : EnclaveVars Key) (tv : TrustedVars Key) : Prop where
  id : ev.id = tv.id
  qsize : ev.qsize = tv.qsize
  tqsize : ev.tqsize = tv.tqsize
  pubs : ∀ pid, ev.pubs.lookup pid = (tv.nodes.lookup pid).map HostNode.pub
  nodeIsTEE : ∀ pid, ev.nodeIsTEE.lookup pid = (tv.nodes.lookup pid).map HostNode.isTEE

/-- What only the enclave asks of a proposal. -/
def enclaveOnly (block : Block) (acc : Accum) : Bool :=
  block.set && block.size ≤ maxNumTransactions && acc.set && acc.sign.set

/-- The checks of `TrustedComb::TEEprepare`. -/
def trustedChecks (cr : Crypto Key) (tv : TrustedVars Key) (st : CombState) (block : Block)
    (acc : Accum) (nvs : NewViews) : Bool :=
  trustedValidProof cr tv st.view nvs acc && safeParent block acc st
    && (Signs.one acc.sign).verify cr.verifySign tv.nodes (.accum acc.toAccumData)

/-- A proposal that passes the checks of the host's component and not those of the enclave only. -/
def HandlerCall.MeetsDifference (cr : Crypto Key) (tv : TrustedVars Key) (st : CombState) :
    HandlerCall → Prop
  | prepare block acc proof =>
    trustedChecks cr tv st block acc (setNewViews proof) = true ∧ enclaveOnly block acc = false
  | _ => False

section Compare

variable {cr : Crypto Key} {ev : EnclaveVars Key} {tv : TrustedVars Key} (h : SameConfig ev tv)

include h

/-! ### Signatures and certificates -/

theorem SameConfig.isTEE_eq : (ev.env cr).isTEE = (tv.env cr).isTEE := funext h.nodeIsTEE

/-- The enclave also looks at the flag of a signature. -/
theorem SameConfig.verified_iff {s : Sign} {t : SignedText} :
    (ev.env cr).verified s t ↔ s.set = true ∧ (tv.env cr).verified s t := by
  show (s.set = true ∧ ∃ pub, ev.pubs.lookup s.signer = some pub ∧ _) ↔
    s.set = true ∧ ∃ nd, tv.nodes.lookup s.signer = some nd ∧ _
  rw [h.pubs]
  cases tv.nodes.lookup s.signer <;> simp

/-- **The same certificates.** -/
theorem SameConfig.certified_iff {rd : RData} {signs : Signs} :
    Certified (ev.env cr) rd signs ↔ Certified (tv.env cr) rd signs := by
  constructor
  · rintro ⟨hpos, hle, hnodup, hknown, hverified, hkind⟩
    rw [h.isTEE_eq] at hknown hkind
    refine ⟨hpos, hle, hnodup, hknown, fun s hs => (h.verified_iff.mp (hverified s hs)).2, ?_⟩
    exact hkind.imp (And.imp_left fun htq => htq.trans h.tqsize) fun hq => hq.trans h.qsize
  · rintro ⟨hpos, hle, hnodup, hknown, hverified, hkind⟩
    rw [← h.isTEE_eq] at hknown hkind
    refine ⟨hpos, hle, hnodup, hknown,
      fun s hs => h.verified_iff.mpr ⟨(hknown s hs).1, hverified s hs⟩, ?_⟩
    exact hkind.imp (And.imp_left fun htq => htq.trans h.tqsize.symm) fun hq => hq.trans h.qsize.symm

/-! ### New-view proofs -/

theorem SameConfig.validateFrom_eq {view : View} {es : List OneJust} {allTEE : Bool}
    {signers : List PID} {v : View} {hash : Hash} :
    combValidateFrom cr ev view es allTEE signers v hash =
      trustedProofFrom cr tv view es allTEE signers v hash := by
  apply Option.ext
  rintro ⟨r, v', hash'⟩
  rw [combValidateFrom_eq_some, trustedProofFrom_eq_some]
  have hentries : ∀ e : OneJust,
      (e.set = true ∧ (ev.nodeIsTEE.lookup e.sign.signer).isSome ∧
        e.rdata.phase = Phase1.newview.byte ∧ e.rdata.propv = view ∧
        (ev.env cr).verified e.sign (.rdata e.rdata)) ↔
      (e.set = true ∧ e.sign.set = true ∧ ((tv.env cr).isTEE e.sign.signer).isSome ∧
        e.rdata.phase = Phase1.newview.byte ∧ e.rdata.propv = view ∧
        (tv.env cr).verified e.sign (.rdata e.rdata)) := by
    intro e
    rw [h.verified_iff, ← h.isTEE_eq]
    show (_ ∧ _ ∧ _ ∧ _ ∧ _ ∧ _) ↔ (_ ∧ _ ∧ (ev.nodeIsTEE.lookup e.sign.signer).isSome ∧ _)
    tauto
  have htee : (ev.env cr).isTEE = (tv.env cr).isTEE := h.isTEE_eq
  simp only [hentries, ← htee]
  rfl

/-- **The same proofs**, but for the two flags that only the enclave looks at. -/
theorem SameConfig.validateNewViews_eq {view : View} {nvs : NewViews} {acc : Accum} :
    combValidateNewViews cr ev view nvs acc =
      (trustedValidProof cr tv view nvs acc
        && (Signs.one acc.sign).verify cr.verifySign tv.nodes (.accum acc.toAccumData)
        && (acc.set && acc.sign.set)) := by
  have hacc : ev.verifyAccum cr acc =
      ((Signs.one acc.sign).verify cr.verifySign tv.nodes (.accum acc.toAccumData)
        && acc.sign.set) := by
    rw [Bool.eq_iff_iff, Bool.and_eq_true, Signs.verify_eq_true, and_comm]
    simp only [Signs.entries_one, List.forall_mem_singleton]
    exact EnclaveVars.verifyText_one.trans h.verified_iff
  unfold combValidateNewViews trustedValidProof
  rw [h.validateFrom_eq, h.qsize, h.tqsize, hacc]
  by_cases hsize : nvs.size > 0 ∧ nvs.size ≤ maxNumSignatures ∧
      (nvs.size = tv.qsize ∨ nvs.size = tv.tqsize)
  · rw [if_pos hsize, if_neg (by omega)]
    cases trustedProofFrom cr tv view nvs.entries true [] 0 newHash with
    | none => rfl
    | some r =>
      obtain ⟨allTEE, highest, highestHash⟩ := r
      rw [Bool.eq_iff_iff]
      simp only [Bool.and_eq_true, Bool.or_eq_true, decide_eq_true_eq]
      tauto
  · rw [if_neg hsize, if_pos (by omega)]
    rfl

/-! ### The calls -/

theorem SameConfig.prepared_eq (st : CombState) (block : Block) (acc : Accum) :
    st.prepared (ev.env cr) block acc = st.prepared (tv.env cr) block acc := by
  unfold CombState.prepared
  rw [h.isTEE_eq]
  rfl

omit h in
theorem set_combHashBlock (sha : Text → Digest) (block : Block) :
    (combHashBlock sha block).set = (block.set && block.size ≤ maxNumTransactions) := by
  unfold combHashBlock
  split
  · next hbad =>
    simp only [Bool.or_eq_true, Bool.not_eq_true', decide_eq_true_eq] at hbad
    rcases hbad with hbad | hbad
    · simp [noHash, hbad]
    · simp [noHash, hbad]
  · next hgood =>
    simp only [Bool.or_eq_true, Bool.not_eq_true', decide_eq_true_eq, not_or, not_lt,
      Bool.not_eq_false] at hgood
    simp [hgood]

/-- The checks of `COMB_TEEprepare` are those of the host's component and its own. -/
theorem SameConfig.combChecks_eq {st : CombState} {block : Block} {acc : Accum} {nvs : NewViews} :
    ((combHashBlock cr.sha256 block).set && combValidateNewViews cr ev st.view nvs acc
        && safeParent block acc st) =
      (trustedChecks cr tv st block acc nvs && enclaveOnly block acc) := by
  rw [set_combHashBlock, h.validateNewViews_eq, Bool.eq_iff_iff]
  unfold trustedChecks enclaveOnly
  simp only [Bool.and_eq_true]
  tauto

omit h in
theorem trustedTEEprepare_eq {st : CombState} {block : Block} {acc : Accum} {nvs : NewViews} :
    trustedTEEprepare cr tv block acc nvs st =
      if trustedChecks cr tv st block acc nvs then
        trustedSign cr tv (block.hash cr.sha256) acc.hash acc.prepv
          (st.prepared (tv.env cr) block acc)
      else (Just.none, st) := by
  unfold trustedTEEprepare
  simp only [any_isTEE_iff]
  rfl

theorem SameConfig.combTEEprepare_eq {st : CombState} {block : Block} {acc : Accum}
    {nvs : NewViews} :
    combTEEprepare cr ev block acc nvs st =
      if trustedChecks cr tv st block acc nvs && enclaveOnly block acc then
        combSign cr ev (block.hash cr.sha256) acc.hash acc.prepv (st.prepared (tv.env cr) block acc)
      else (Just.none, st) := by
  unfold combTEEprepare
  dsimp only
  rw [h.combChecks_eq]
  split
  · next hchecks =>
    have hset : (combHashBlock cr.sha256 block).set = true := by
      rw [set_combHashBlock]
      simp only [enclaveOnly, Bool.and_eq_true] at hchecks
      simp [hchecks]
    rw [combHashBlock_of_set hset, ← h.prepared_eq]
    rfl
  · rfl

/-- **One call.**  The two components agree on it exactly when it does not meet the difference. -/
theorem SameConfig.check_eq_iff (st : CombState) (c : HandlerCall) :
    (Component.enclave ev).check cr st c = (Component.host tv).check cr st c ↔
      ¬ c.MeetsDifference cr tv st := by
  cases c with
  | sign => exact iff_of_true rfl not_false
  | store just =>
    refine iff_of_true ?_ not_false
    have hqc : combValidQC cr ev just = trustedVerifyQuorum cr tv just.rdata just.signs := by
      rw [Bool.eq_iff_iff, combValidQC_iff, h.certified_iff, trustedVerifyQuorum_iff]
    show ((Reply.just (combTEEstore cr ev just st).1).rdata?, (combTEEstore cr ev just st).2) =
      ((Reply.just (trustedTEEstore cr tv just st).1).rdata?, (trustedTEEstore cr tv just st).2)
    unfold combTEEstore trustedTEEstore
    dsimp only
    rw [hqc]
    split
    · rfl
    · rfl
  | prepare block acc proof =>
    show ((Reply.just (combTEEprepare cr ev block acc (setNewViews proof) st).1).rdata?,
        (combTEEprepare cr ev block acc (setNewViews proof) st).2) =
      ((Reply.just (trustedTEEprepare cr tv block acc (setNewViews proof) st).1).rdata?,
        (trustedTEEprepare cr tv block acc (setNewViews proof) st).2) ↔ _
    rw [h.combTEEprepare_eq, trustedTEEprepare_eq]
    show _ ↔ ¬ (trustedChecks cr tv st block acc (setNewViews proof) = true ∧
      enclaveOnly block acc = false)
    cases hchecks : trustedChecks cr tv st block acc (setNewViews proof) with
    | false => exact iff_of_true rfl (by simp)
    | true =>
      cases honly : enclaveOnly block acc with
      | true => exact iff_of_true rfl (by simp)
      | false =>
        -- only the host's component signs
        refine iff_of_false (fun heq => ?_) (by simp)
        exact absurd (congrArg Prod.fst heq) nofun

end Compare

/-- **The two components compared.**  Along a run of calls the enclave and the host's component sign the
same data, refuse the same calls and hold the same state after every call, exactly when no call of the run
is a proposal that passes the checks of the host's component with a block or an accumulator that only the
enclave refuses. -/
theorem sameChecker_iff (cr : Crypto Key) (ev : EnclaveVars Key) (tv : TrustedVars Key)
    (h : SameConfig ev tv) (calls : List HandlerCall) :
    Lib.outputs ((Component.enclave ev).check cr) CombState.init calls =
        Lib.outputs ((Component.host tv).check cr) CombState.init calls ↔
      ∀ p ∈ Lib.inputsAt ((Component.host tv).check cr) CombState.init calls,
        ¬ p.2.MeetsDifference cr tv p.1 := by
  rw [Lib.outputs_eq_iff]
  exact forall₂_congr fun p _ => h.check_eq_iff p.1 p.2

/-! ### A dummy block -/

namespace DummyBlock

/-- Four replicas, of which replica 3 has a TEE. -/
def enclaveOf3 : EnclaveVars Unit :=
  initializeVariables () () 3 [0, 1, 2, 3] 3 2 [⟨0, false⟩, ⟨1, false⟩, ⟨2, false⟩, ⟨3, true⟩]

/-- The host's component with the same nodes. -/
def hostOf3 : TrustedVars Unit where
  id := 3
  priv := ()
  qsize := 3
  tqsize := 2
  nodes := ((((∅ : Nodes Unit).insert 0 ⟨(), false⟩).insert 1 ⟨(), false⟩).insert 2 ⟨(), false⟩).insert
    3 ⟨(), true⟩

/-- The new-view of view 1 over the genesis block. -/
def newview : RData := ⟨noHash, 1, newHash, 0, Phase1.newview.byte⟩

def accData : AccumData := ⟨true, 1, 0, newHash, 3⟩

/-- Every replica has signed the new-view and the accumulator. -/
def crypto : Crypto Unit :=
  idealCrypto (fun _ => Vector.replicate _ 0) fun _ => [.rdata newview, .accum accData]

/-- The proposal of the leader of view 1 over the genesis block. -/
def propose (block : Block) : HandlerCall :=
  .prepare block ⟨accData, idealSign 1⟩
    (.ofMsgs [⟨newview, idealSign 0⟩, ⟨newview, idealSign 1⟩, ⟨newview, idealSign 2⟩])

/-- `Block(false)`, a block that is not set. -/
def dummyBlock : Block := ⟨0, false, newHash, 0, Vector.replicate _ .dummy⟩

theorem sameConfig : SameConfig enclaveOf3 hostOf3 where
  id := rfl
  qsize := rfl
  tqsize := rfl
  pubs pid := by
    rcases pid with _ | _ | _ | _ | pid
    · rfl
    · rfl
    · rfl
    · rfl
    · simp [enclaveOf3, hostOf3, initializeVariables, AList.lookup_insert_ne,
        -AList.insert_empty]
  nodeIsTEE pid := by
    rcases pid with _ | _ | _ | _ | pid
    · rfl
    · rfl
    · rfl
    · rfl
    · simp [enclaveOf3, hostOf3, initializeVariables, AList.lookup_insert_ne,
        -AList.insert_empty]

/-- **The dummy block splits a mixed quorum**: the host's component signs it, the enclave does not. -/
theorem not_sameChecker_dummyBlock :
    SameConfig enclaveOf3 hostOf3 ∧
      Lib.outputs ((Component.enclave enclaveOf3).check crypto) CombState.init [propose dummyBlock] ≠
        Lib.outputs ((Component.host hostOf3).check crypto) CombState.init [propose dummyBlock] := by
  refine ⟨sameConfig, fun heq => ?_⟩
  have hsigned := congrArg (List.map fun o => o.1.isSome) heq
  revert hsigned
  decide +kernel

/-- With a set block the two agree. -/
theorem sameChecker_setBlock :
    SameConfig enclaveOf3 hostOf3 ∧
      Lib.outputs ((Component.enclave enclaveOf3).check crypto) CombState.init
          [.sign, propose { dummyBlock with set := true }] =
        Lib.outputs ((Component.host hostOf3).check crypto) CombState.init
          [.sign, propose { dummyBlock with set := true }] := by
  refine ⟨sameConfig, (sameChecker_iff crypto enclaveOf3 hostOf3 sameConfig _).mpr ?_⟩
  intro p hp
  simp only [Lib.inputsAt, List.mem_cons, List.not_mem_nil, or_false] at hp
  rcases hp with rfl | rfl
  · exact not_false
  · rintro ⟨-, honly⟩
    exact absurd honly (by decide)

end DummyBlock

end Raftel
