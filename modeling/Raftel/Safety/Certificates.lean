import Raftel.Equiv.System
import Raftel.Safety.OneVote

/-!
# Certificates are unique

Two certificates for one view and one phase are about the same data (`certified_unique`).  The signers
of the two have an intact replica in common, and a component signs once for each view and phase.

* `certificates_unique` : for the certificates that the handlers and the components of the replicas
  accept, in every reachable state
-/

namespace Raftel

/-! ### What intact replicas have signed -/

section Signed

variable {sys : System} {net : Net}

/-- No component has wrapped its view counter. -/
def Net.NoWrap (sys : System) (net : Net) : Prop :=
  ∀ p, sys.Intact p → ∀ r ∈ (net p).calls, r.NoWrap

/-- What an intact replica has signed, its component has signed in an accepted call. -/
theorem NetInv.exists_call (hinv : NetInv sys net) {p : PID} (hp : sys.Intact p) {rd : RData}
    (h : SignedText.rdata rd ∈ (net p).signed) : ∃ r ∈ (net p).calls, r.rdata? = some rd := by
  unfold Party.signed at h
  rw [hinv.forged p hp, List.append_nil, List.mem_flatMap] at h
  obtain ⟨r, hr, hsigned⟩ := h
  exact ⟨r, hr, Reply.rdata_mem_signed.mp hsigned⟩

/-- An intact replica signs once for each view and phase. -/
theorem NetInv.signed_unique (hinv : NetInv sys net) (hwrap : net.NoWrap sys) {p : PID}
    (hp : sys.Intact p) {rd rd' : RData} (h : SignedText.rdata rd ∈ (net p).signed)
    (h' : SignedText.rdata rd' ∈ (net p).signed) (hpropv : rd.propv = rd'.propv)
    (hphase : rd.phase = rd'.phase) : rd = rd' := by
  obtain ⟨r, hr, hrd⟩ := hinv.exists_call hp h
  obtain ⟨r', hr', hrd'⟩ := hinv.exists_call hp h'
  exact eq_of_counter_eq (hinv.trace p hp) (hwrap p hp) hr hr' hrd hrd' hpropv hphase

end Signed

/-! ### Certificates and their signers -/

/-- The signers of a list of signatures. -/
def signersOf (ss : List Sign) : Finset PID := (ss.map Sign.signer).toFinset

theorem mem_signersOf {ss : List Sign} {p : PID} : p ∈ signersOf ss ↔ ∃ s ∈ ss, s.signer = p := by
  simp [signersOf]

/-- Signatures of different known nodes, as many as a quorum of their kind needs, are a quorum. -/
theorem isQuorum_signersOf {sys : System} {net : Net} {ss : List Sign}
    (hnodup : (ss.map Sign.signer).Nodup)
    (hknown : ∀ s ∈ ss, ((sys.env net).isTEE s.signer).isSome)
    (hkind : (ss.length = sys.tqsize ∧ ∀ s ∈ ss, (sys.env net).isTEE s.signer = some true) ∨
      ss.length = sys.qsize) : sys.quorums.IsQuorum (signersOf ss) := by
  have hcard : (signersOf ss).card = ss.length := by
    rw [signersOf, List.toFinset_card_of_nodup hnodup, List.length_map]
  refine ⟨fun p hp => ?_, hkind.imp (fun h => ⟨fun p hp => ?_, hcard.trans h.1⟩) hcard.trans⟩
  · obtain ⟨s, hs, rfl⟩ := mem_signersOf.mp hp
    have := hknown s hs
    simp only [System.env] at this
    split at this
    · next hlt => exact Finset.mem_range.mpr hlt
    · exact absurd this (by simp)
  · obtain ⟨s, hs, rfl⟩ := mem_signersOf.mp hp
    have := h.2 s hs
    simp only [System.env] at this
    split at this
    · exact of_decide_eq_true (Option.some.inj this)
    · exact absurd this (by simp)

section Certified

variable {sys : System} {net : Net} {rd : RData} {signs : Signs}

theorem Certified.isQuorum (h : Certified (sys.env net) rd signs) :
    sys.quorums.IsQuorum (signersOf signs.entries) := by
  refine isQuorum_signersOf h.nodup (fun s hs => (h.known s hs).2) ?_
  rw [Signs.length_entries h.size_le]
  exact h.kind

theorem Certified.signed (h : Certified (sys.env net) rd signs) {p : PID}
    (hp : p ∈ signersOf signs.entries) : SignedText.rdata rd ∈ (net p).signed := by
  obtain ⟨s, hs, rfl⟩ := mem_signersOf.mp hp
  exact h.verified s hs

/-- An intact replica signed the data of a certificate. -/
theorem Certified.exists_intact (h : Certified (sys.env net) rd signs) :
    ∃ p, sys.Intact p ∧ SignedText.rdata rd ∈ (net p).signed := by
  obtain ⟨p, hp, hrel⟩ := h.isQuorum.exists_reliable
  exact ⟨p, sys.reliable_iff.mp hrel, h.signed hp⟩

/-- Two certificates have an intact signer in common. -/
theorem Certified.exists_intact_inter (h : Certified (sys.env net) rd signs) {rd' : RData}
    {signs' : Signs} (h' : Certified (sys.env net) rd' signs') :
    ∃ p, sys.Intact p ∧ SignedText.rdata rd ∈ (net p).signed ∧
      SignedText.rdata rd' ∈ (net p).signed := by
  obtain ⟨p, hp, hp', hrel⟩ := Lib.Quorums.exists_reliable_inter h.isQuorum h'.isQuorum
  exact ⟨p, sys.reliable_iff.mp hrel, h.signed hp, h'.signed hp'⟩

/-- **Certificates are unique** for their view and phase. -/
theorem certified_unique (hinv : NetInv sys net) (hwrap : net.NoWrap sys)
    (h : Certified (sys.env net) rd signs) {rd' : RData} {signs' : Signs}
    (h' : Certified (sys.env net) rd' signs') (hpropv : rd.propv = rd'.propv)
    (hphase : rd.phase = rd'.phase) : rd = rd' := by
  obtain ⟨p, hp, hsigned, hsigned'⟩ := h.exists_intact_inter h'
  exact hinv.signed_unique hwrap hp hsigned hsigned' hpropv hphase

end Certified

/-! ### The certificates that replicas accept -/

/-- The check of a certificate by a component: in `COMB_TEEstore` or in `TrustedComb::TEEstore`. -/
def Component.validQC {Key : Type} (cr : Crypto Key) (comp : Component Key) (rd : RData)
    (signs : Signs) : Bool :=
  match comp with
  | .enclave vars => combValidQC cr vars ⟨true, rd, signs⟩
  | .host vars => trustedVerifyQuorum cr vars rd signs

theorem Component.certified_of_validQC {Key : Type} {cr : Crypto Key} {comp : Component Key}
    {rd : RData} {signs : Signs} (h : comp.validQC cr rd signs = true) :
    Certified (comp.env cr) rd signs := by
  cases comp with
  | enclave vars => exact combValidQC_iff.mp h
  | host vars => exact trustedVerifyQuorum_iff.mp h

/-- Replica `p` accepts the certificate, in its handlers or in its component. -/
def AcceptsCertificate (sys : System) (st : SystemState) (p : PID) (rd : RData) (signs : Signs) :
    Prop :=
  let cr := (sys.oracle st p).crypto (st.replica p).host.calls
  (∃ ph, verifyCombQC (sys.config p) cr rd signs ph = true) ∨
    (sys.config p).component.validQC cr rd signs = true

/-- No intact component has wrapped its view counter. -/
def SystemState.NoWrap (sys : System) (st : SystemState) : Prop :=
  ∀ p < sys.n, sys.Intact p → ∀ r ∈ (st.replica p).host.calls, r.NoWrap

instance (sys : System) (st : SystemState) : Decidable (st.NoWrap sys) :=
  inferInstanceAs (Decidable (∀ p < sys.n, _))

theorem SystemState.NoWrap.net {sys : System} {st : SystemState} (h : st.NoWrap sys) :
    st.net.NoWrap sys :=
  fun p hp => h p hp.1 hp

theorem AcceptsCertificate.certified {sys : System} {st : SystemState} {p : PID} {rd : RData}
    {signs : Signs} (h : AcceptsCertificate sys st p rd signs) :
    Certified (sys.env st.net) rd signs := by
  have hver : ∀ (sg : Sign) (key : Unit) (t : SignedText),
      ((sys.oracle st p).crypto (st.replica p).host.calls).verifySign sg key t = true →
        t ∈ (st.net sg.signer).signed := by
    intro sg key t h
    rw [← st.netWith_self p]
    exact System.verify_oracle sg key t h
  rcases h with ⟨ph, h⟩ | h
  · exact (certified_of_verifyCombQC h).1.mono (config_env_le p rfl hver)
  · exact (Component.certified_of_validQC h).mono (component_env_le p rfl hver)

/-- **Certificate uniqueness.**  The quorum sizes of the constructor satisfy `f+1 ≤ tqsize ≤ qsize`, and
in every reachable state without a wrapped view counter any two certificates that replicas accept and
that have the same view and phase are about the same data. -/
theorem certificates_unique (sys : System) (acts : List Action) (hwrap : (sys.run acts).NoWrap sys) :
    (∀ p, sys.f + 1 ≤ (sys.config p).tqsize ∧ (sys.config p).tqsize ≤ (sys.config p).qsize) ∧
      ∀ p p' rd rd' signs signs', AcceptsCertificate sys (sys.run acts) p rd signs →
        AcceptsCertificate sys (sys.run acts) p' rd' signs' → rd.propv = rd'.propv →
        rd.phase = rd'.phase → rd = rd' := by
  refine ⟨fun p => ⟨le_max_right _ _, sys.tqsize_le_qsize⟩, ?_⟩
  intro p p' rd rd' signs signs' h h' hpropv hphase
  exact certified_unique (run_reachable sys acts).netInv hwrap.net h.certified h'.certified hpropv
    hphase

/-! ### A certificate of the first view -/

section FirstView

/-- Four replicas, two of them TEE replicas; replica 0 has no TEE and is Byzantine. -/
def hybridSystem : System where
  f := 1
  f_pos := Nat.one_pos
  tee := {1, 2}
  tee_sub := by decide
  byz := {0}
  byz_sub := by decide
  byz_card := by decide
  sha256 := twoBlocksSha
  maxViews := 0
  fixedLeaderMode := false
  fixedLeader := 0

/-- The proposal of leader 1, from the new-views of the two TEE replicas. -/
def fastLdrPrepare : MsgLdrPrepareComb :=
  ⟨⟨⟨true, 1, 0, newHash, 2⟩, idealSign 1⟩, emptyBlock 11,
    .ofMsgs [⟨firstNewView, idealSign 1⟩, ⟨firstNewView, idealSign 2⟩], idealSign 1⟩

/-- The votes of the two TEE replicas for it. -/
def fastCertificate : MsgPrepareComb :=
  ⟨firstProposal 11, .ofList [idealSign 1, idealSign 2]⟩

/-- View 1: the TEE replicas agree on the block of leader 1, and replica 3 follows. -/
def firstViewActions : List Action :=
  [.input 1 9 (.start 0), .input 2 9 (.start 0), .input 3 9 (.start 0),
    .input 1 9 (.peer (.newview ⟨firstNewView, idealSign 2⟩)),
    .input 2 9 (.peer (.ldrprepare fastLdrPrepare)),
    .input 1 9 (.peer (.prepare ⟨firstProposal 11, .one (idealSign 2)⟩)),
    .input 2 9 (.peer (.prepare fastCertificate)),
    .input 3 9 (.peer (.ldrprepare fastLdrPrepare)),
    .input 3 9 (.peer (.prepare fastCertificate))]

/-- After view 1 the certificate for its block is the only one for its view and phase. -/
theorem certificates_unique_first_view :
    (hybridSystem.run firstViewActions).NoWrap hybridSystem ∧
      AcceptsCertificate hybridSystem (hybridSystem.run firstViewActions) 3 (firstProposal 11)
        fastCertificate.signs ∧
      ∀ p rd signs, AcceptsCertificate hybridSystem (hybridSystem.run firstViewActions) p rd signs →
        rd.propv = 1 → rd.phase = Phase1.prepare.byte → rd = firstProposal 11 := by
  have hwrap : (hybridSystem.run firstViewActions).NoWrap hybridSystem := by decide +kernel
  have hcert : AcceptsCertificate hybridSystem (hybridSystem.run firstViewActions) 3
      (firstProposal 11) fastCertificate.signs :=
    Or.inl ⟨.prepare, by decide +kernel⟩
  refine ⟨hwrap, hcert, fun p rd signs h hpropv hphase => ?_⟩
  exact (certificates_unique hybridSystem firstViewActions hwrap).2 p 3 rd _ signs _ h hcert hpropv
    hphase

end FirstView

end Raftel
