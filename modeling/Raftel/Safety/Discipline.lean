import Raftel.Safety.Parents

/-!
# Disciplined calls

The components leave several checks to the hosts, or to nobody: a proposal is accepted in any phase, a
certificate is stored in any phase and for any hash, a new-view need not be truthful, and an accumulator
of a TEE replica that is not the leader counts as the leader's.  `CallRecord.Disciplined` says what a
call must be like to reach none of these gaps.

Along disciplined calls the phases of a view do what they are for.  A `prepare` certificate is for a
proposed block, later certificates are for the block of a `prepare` certificate
(`HasCertificate.prepare`), and at most one block of a view is ever prepared (`PreparedAt.unique`).
-/

namespace Raftel

/-! ### The condition -/

def Call.certificate? : Call → Option Just
  | store just => some just
  | _ => none

/-- The certificate that the call stored, if it is an accepted `TEEstore`. -/
def CallRecord.certificate? (r : CallRecord) : Option Just :=
  if r.rdata?.isSome then r.call.certificate? else none

/-- A proposal is accepted in phase `prepare`, with a truthful accumulator of the view's leader; if the
leader is a TEE replica, its enclave has signed `prepare` data for it. -/
def CallRecord.ProposedBy (sys : System) (net : Net) (leader : View → PID) (r : CallRecord) : Prop :=
  ∀ x ∈ r.proposal?, r.pre.phase = .prepare ∧ x.Truthful sys ∧
    x.acc.sign.signer = leader r.pre.view ∧
    (leader r.pre.view ∈ sys.tee →
      SignedText.rdata (x.rdata sys.sha256 r.pre.view) ∈ (net (leader r.pre.view)).signed)

/-- A certificate is stored in the phase after its own, and not for the dummy hash. -/
def CallRecord.StoresNext (r : CallRecord) : Prop :=
  ∀ j ∈ r.certificate?, j.rdata.proph ≠ noHash ∧ r.pre.phase.index = j.rdata.phase.toNat + 1

/-- The call reaches none of the gaps. -/
def CallRecord.Disciplined (sys : System) (net : Net) (leader : View → PID) (r : CallRecord) : Prop :=
  r.NoWrap ∧ r.ProposedBy sys net leader ∧ r.StoresNext

instance (sys : System) (net : Net) (leader : View → PID) (r : CallRecord) :
    Decidable (r.ProposedBy sys net leader) :=
  inferInstanceAs (Decidable (∀ x ∈ r.proposal?, _))

instance (r : CallRecord) : Decidable r.StoresNext :=
  inferInstanceAs (Decidable (∀ j ∈ r.certificate?, _))

instance (sys : System) (net : Net) (leader : View → PID) (r : CallRecord) :
    Decidable (r.Disciplined sys net leader) :=
  inferInstanceAs (Decidable (_ ∧ _))

/-- All calls of intact components are disciplined. -/
def Net.Disciplined (sys : System) (net : Net) (leader : View → PID) : Prop :=
  ∀ p < sys.n, sys.Intact p → ∀ r ∈ (net p).calls, r.Disciplined sys net leader

instance (sys : System) (net : Net) (leader : View → PID) : Decidable (net.Disciplined sys leader) :=
  inferInstanceAs (Decidable (∀ p < sys.n, _))

section Disciplined

variable {sys : System} {net : Net} {leader : View → PID}

theorem Net.Disciplined.mem (h : net.Disciplined sys leader) {p : PID} (hp : sys.Intact p)
    {r : CallRecord} (hr : r ∈ (net p).calls) : r.Disciplined sys net leader :=
  h p hp.1 hp r hr

theorem Net.Disciplined.noWrap (h : net.Disciplined sys leader) : net.NoWrap sys :=
  fun _ hp _ hr => (h.mem hp hr).1

/-! ### What a disciplined call signs -/

/-- **Inversion** for disciplined calls: a signature without a block, a vote for a proposal, or a vote
for the block of a certificate of the phase before. -/
theorem CallRecord.Disciplined.cases {r : CallRecord} (h : r.Disciplined sys net leader)
    (hvalid : r.Valid (sys.env net)) {rd : RData} (hrd : r.rdata? = some rd) :
    (rd = ⟨noHash, r.pre.view, r.pre.preph, r.pre.prepv, r.pre.phase.byte⟩ ∧
        r.post = r.pre.increment) ∨
      (∃ x ∈ r.proposal?, r.pre.phase = .prepare ∧ rd = x.rdata sys.sha256 r.pre.view ∧
        r.post = (r.pre.prepared (sys.env net) x.block x.acc).increment) ∨
      ∃ j : Just, Certified (sys.env net) j.rdata j.signs ∧ j.rdata.propv = r.pre.view ∧
        j.rdata.proph ≠ noHash ∧
        ((j.rdata.phase = Phase1.prepare.byte ∧ r.pre.phase = .precommit) ∨
          (j.rdata.phase = Phase1.precommit.byte ∧ r.pre.phase = .commit)) ∧
        rd = ⟨j.rdata.proph, r.pre.view, newHash, 0, r.pre.phase.byte⟩ ∧
        r.post = (r.pre.stored j.rdata).increment := by
  obtain ⟨-, hprop, hstore⟩ := h
  have hsome : r.rdata?.isSome := Option.isSome_iff_exists.mpr ⟨rd, hrd⟩
  have hacc := hvalid.accepts hrd
  cases hc : r.call with
  | sign =>
    rw [hc] at hacc
    cases hacc with
    | sign data next => exact Or.inl ⟨data, next⟩
  | prepare block acc nvs =>
    have hx : r.proposal? = some ⟨block, acc, nvs⟩ :=
      CallRecord.proposal?_eq_some.mpr ⟨⟨rd, hrd⟩, hc⟩
    have hphase := (hprop _ hx).1
    rw [hc] at hacc
    cases hacc with
    | prepare proof parent safe data next =>
      refine Or.inr (Or.inl ⟨_, hx, hphase, ?_, next⟩)
      rw [data, hphase]
      rfl
  | store just =>
    have hj : r.certificate? = some just := by
      rw [CallRecord.certificate?, if_pos hsome, hc]
      rfl
    obtain ⟨hne, hidx⟩ := hstore just hj
    rw [hc] at hacc
    cases hacc with
    | store cert view phase data next =>
      refine Or.inr (Or.inr ⟨just, cert, view, hne, ?_, data, next⟩)
      rcases phase with hph | hph <;> rw [hph] at hidx
      · exact Or.inl ⟨hph, by cases hp : r.pre.phase <;> simp_all [Phase1.index, Phase1.byte]⟩
      · exact Or.inr ⟨hph, by cases hp : r.pre.phase <;> simp_all [Phase1.index, Phase1.byte]⟩
  | accum justs => rw [hc] at hacc; nomatch hacc
  | accumSp just => rw [hc] at hacc; nomatch hacc

/-- New-view data report the prepared pair of the component. -/
theorem CallRecord.Disciplined.newview {r : CallRecord} (h : r.Disciplined sys net leader)
    (hvalid : r.Valid (sys.env net)) {rd : RData} (hrd : r.rdata? = some rd)
    (hphase : rd.phase = Phase1.newview.byte) :
    r.pre.phase = .newview ∧ rd.justh = r.pre.preph ∧ rd.justv = r.pre.prepv := by
  have hpre : r.pre.phase = .newview :=
    Phase1.byte_injective ((hvalid.accepts hrd).counter.2.1.symm.trans hphase)
  rcases h.cases hvalid hrd with ⟨hdata, -⟩ | ⟨x, -, hp, -⟩ | ⟨j, -, -, -, hp | hp, -⟩
  · exact ⟨hpre, by rw [hdata], by rw [hdata]⟩
  · rw [hpre] at hp
    exact absurd hp (by decide)
  · rw [hpre] at hp
    exact absurd hp.2 (by decide)
  · rw [hpre] at hp
    exact absurd hp.2 (by decide)

/-! ### Proposed and prepared blocks -/

/-- A component accepted, in view `v`, a proposal of a block with this hash. -/
def Proposed (sys : System) (net : Net) (v : View) (h : Digest) : Prop :=
  ∃ p, sys.Intact p ∧ ∃ r ∈ (net p).calls, ∃ x ∈ r.proposal?,
    r.pre.view = v ∧ (x.block.hash sys.sha256).hash = h

/-- There is a certificate of the given phase for a block of view `v` with this hash. -/
def HasCertificate (sys : System) (net : Net) (ph : Phase1) (v : View) (h : Digest) : Prop :=
  ∃ rd signs, Certified (sys.env net) rd signs ∧ rd.phase = ph.byte ∧ rd.propv = v ∧
    rd.proph ≠ noHash ∧ rd.proph.hash = h

/-- What it takes to be the prepared block of view `v`: the proposal of a TEE leader, or a `prepare`
certificate. -/
def PreparedAt (sys : System) (net : Net) (leader : View → PID) (v : View) (h : Digest) : Prop :=
  (leader v ∈ sys.tee ∧ Proposed sys net v h) ∨ HasCertificate sys net .prepare v h

/-- Some intact component signed the data of a certificate in an accepted call. -/
theorem Certified.exists_record (hinv : NetInv sys net) {rd : RData} {signs : Signs}
    (h : Certified (sys.env net) rd signs) :
    ∃ p, sys.Intact p ∧ ∃ r ∈ (net p).calls, r.rdata? = some rd ∧ r.Valid (sys.env net) ∧
      rd.propv = r.pre.view ∧ rd.phase = r.pre.phase.byte := by
  obtain ⟨p, hp, hsigned⟩ := h.exists_intact
  obtain ⟨r, hr, hrd⟩ := hinv.exists_call hp hsigned
  have hvalid := (hinv.trace p hp).ok_of_mem hr
  obtain ⟨hpropv, hphase, -⟩ := (hvalid.accepts hrd).counter
  exact ⟨p, hp, r, hr, hrd, hvalid, hpropv, hphase⟩

/-- A `prepare` certificate is for a proposed block. -/
theorem HasCertificate.proposed (hinv : NetInv sys net) (hdis : net.Disciplined sys leader) {v : View}
    {h : Digest} (hcert : HasCertificate sys net .prepare v h) : Proposed sys net v h := by
  obtain ⟨rd, signs, hcert, hphase, rfl, hne, rfl⟩ := hcert
  obtain ⟨p, hp, r, hr, hrd, hvalid, hpropv, hph⟩ := hcert.exists_record hinv
  have hpre : r.pre.phase = .prepare := Phase1.byte_injective (hph.symm.trans hphase)
  rcases (hdis.mem hp hr).cases hvalid hrd with ⟨rfl, -⟩ | ⟨x, hx, -, rfl, -⟩ |
      ⟨j, -, -, -, hp | hp, -⟩
  · exact absurd rfl hne
  · exact ⟨p, hp, r, hr, x, hx, rfl, rfl⟩
  · rw [hpre] at hp
    exact absurd hp.2 (by decide)
  · rw [hpre] at hp
    exact absurd hp.2 (by decide)

/-- A certificate of a later phase is for the block of one of the phase before. -/
theorem HasCertificate.before (hinv : NetInv sys net) (hdis : net.Disciplined sys leader) {v : View}
    {h : Digest} {ph : Phase1} (hprep : ph ≠ .prepare) (hcert : HasCertificate sys net ph v h) :
    (ph = .precommit ∧ HasCertificate sys net .prepare v h) ∨
      (ph = .commit ∧ HasCertificate sys net .precommit v h) := by
  obtain ⟨rd, signs, hcert, hphase, rfl, hne, rfl⟩ := hcert
  obtain ⟨p, hp, r, hr, hrd, hvalid, hpropv, hphase'⟩ := hcert.exists_record hinv
  have hpre : r.pre.phase = ph := Phase1.byte_injective (hphase'.symm.trans hphase)
  rcases (hdis.mem hp hr).cases hvalid hrd with ⟨rfl, -⟩ | ⟨x, -, hp, -⟩ |
      ⟨j, hj, hview, hjne, hp, rfl, -⟩
  · exact absurd rfl hne
  · exact absurd (hpre.symm.trans hp) hprep
  · rcases hp with ⟨hjph, hp⟩ | ⟨hjph, hp⟩
    · exact Or.inl ⟨hpre.symm.trans hp, _, _, hj, hjph, hview, hjne, rfl⟩
    · exact Or.inr ⟨hpre.symm.trans hp, _, _, hj, hjph, hview, hjne, rfl⟩

/-- A `commit` certificate is for the block of a `prepare` certificate, by way of `precommit`. -/
theorem HasCertificate.prepare (hinv : NetInv sys net) (hdis : net.Disciplined sys leader) {v : View}
    {h : Digest} {ph : Phase1} (hcert : HasCertificate sys net ph v h) :
    HasCertificate sys net .prepare v h := by
  by_cases hph : ph = .prepare
  · exact hph ▸ hcert
  · rcases hcert.before hinv hdis hph with ⟨-, hprep⟩ | ⟨-, hpc⟩
    · exact hprep
    · rcases hpc.before hinv hdis (by decide) with ⟨-, hprep⟩ | ⟨heq, -⟩
      · exact hprep
      · exact absurd heq (by decide)

theorem PreparedAt.proposed (hinv : NetInv sys net) (hdis : net.Disciplined sys leader) {v : View}
    {h : Digest} (hprep : PreparedAt sys net leader v h) : Proposed sys net v h := by
  rcases hprep with ⟨-, hprop⟩ | hcert
  · exact hprop
  · exact hcert.proposed hinv hdis

/-- What is proposed in the view of a TEE leader, the leader has signed. -/
theorem Proposed.signed (hdis : net.Disciplined sys leader) {v : View} {h : Digest}
    (hprop : Proposed sys net v h) (htee : leader v ∈ sys.tee) :
    ∃ rd, SignedText.rdata rd ∈ (net (leader v)).signed ∧ rd.propv = v ∧
      rd.phase = Phase1.prepare.byte ∧ rd.proph.hash = h := by
  obtain ⟨p, hp, r, hr, x, hx, rfl, rfl⟩ := hprop
  obtain ⟨-, -, -, hsigned⟩ := (hdis.mem hp hr).2.1 x hx
  exact ⟨_, hsigned htee, rfl, rfl, rfl⟩

/-- **One prepared block for each view.** -/
theorem PreparedAt.unique (hinv : NetInv sys net) (hdis : net.Disciplined sys leader) {v : View}
    {h h' : Digest} (hprep : PreparedAt sys net leader v h)
    (hprep' : PreparedAt sys net leader v h') : h = h' := by
  by_cases htee : leader v ∈ sys.tee
  · -- the enclave of the leader signed one proposal
    have hintact : sys.Intact (leader v) :=
      ⟨Finset.mem_range.mp (sys.tee_sub htee), Or.inl htee⟩
    obtain ⟨rd, hsigned, hv, hph, rfl⟩ := (hprep.proposed hinv hdis).signed hdis htee
    obtain ⟨rd', hsigned', hv', hph', rfl⟩ := (hprep'.proposed hinv hdis).signed hdis htee
    rw [hinv.signed_unique hdis.noWrap hintact hsigned hsigned' (hv.trans hv'.symm)
      (hph.trans hph'.symm)]
  · obtain ⟨rd, signs, hcert, hph, hv, -, rfl⟩ := hprep.resolve_left fun h => htee h.1
    obtain ⟨rd', signs', hcert', hph', hv', -, rfl⟩ := hprep'.resolve_left fun h => htee h.1
    rw [certified_unique hinv hdis.noWrap hcert hcert' (hv.trans hv'.symm) (hph.trans hph'.symm)]

/-! ### The prepared pair of a component -/

theorem mem_tee_of_isTEE {p : PID} (h : (sys.env net).isTEE p = some true) : p ∈ sys.tee := by
  simp only [System.env] at h
  split at h
  · exact of_decide_eq_true (Option.some.inj h)
  · exact absurd h (by simp)

/-- A component holds no pair yet, or one that is really prepared. -/
def CombState.HoldsPrepared (sys : System) (net : Net) (leader : View → PID) (st : CombState) :
    Prop :=
  st.prepv = 0 ∨ PreparedAt sys net leader st.prepv st.preph.hash

theorem CallRecord.Disciplined.holdsPrepared (hinv : NetInv sys net)
    (hdis : net.Disciplined sys leader) {p : PID} (hp : sys.Intact p) {r : CallRecord}
    (hr : r ∈ (net p).calls) (hpre : r.pre.HoldsPrepared sys net leader) :
    r.post.HoldsPrepared sys net leader := by
  have hvalid := (hinv.trace p hp).ok_of_mem hr
  cases hrd : r.rdata? with
  | none => rw [hvalid.post_eq hrd]; exact hpre
  | some rd =>
    unfold CombState.HoldsPrepared at hpre ⊢
    rcases (hdis.mem hp hr).cases hvalid hrd with ⟨-, hpost⟩ | ⟨x, hx, -, -, hpost⟩ |
        ⟨j, hj, hview, hne, hph, -, hpost⟩ <;>
      rw [hpost, CombState.increment_prepv, CombState.increment_preph]
    · exact hpre
    · unfold CombState.prepared
      split
      · next htee =>
        -- the leader's own block, prepared at once
        have hleader := ((hdis.mem hp hr).2.1 x hx).2.2.1
        have hmem := mem_tee_of_isTEE htee
        rw [hleader] at hmem
        exact Or.inr (Or.inl ⟨hmem, p, hp, r, hr, x, hx, rfl, rfl⟩)
      · exact hpre
    · rw [CombState.stored_prepv, CombState.stored_preph]
      refine Or.inr (Or.inr ?_)
      rcases hph with ⟨hph, -⟩ | ⟨hph, -⟩
      · exact ⟨_, _, hj, hph, rfl, hne, rfl⟩
      · exact HasCertificate.prepare hinv hdis ⟨_, _, hj, hph, rfl, hne, rfl⟩

theorem NetInv.holdsPrepared (hinv : NetInv sys net) (hdis : net.Disciplined sys leader) {p : PID}
    (hp : sys.Intact p) {r : CallRecord} (hr : r ∈ (net p).calls) :
    r.pre.HoldsPrepared sys net leader :=
  ((hinv.trace p hp).invariant (Or.inl rfl)
    fun _ hr _ hpre => CallRecord.Disciplined.holdsPrepared hinv hdis hp hr hpre).2 r hr |>.1

end Disciplined

end Raftel
