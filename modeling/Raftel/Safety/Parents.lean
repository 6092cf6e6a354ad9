import Raftel.Safety.FastPath

/-!
# Certified parents

The accumulator of a proposal carries the highest (`justh`, `justv`) pair of a quorum of new-views, and
the block extends it.  A new-view of an intact component is truthful: it reports the pair that the
component holds.  A Byzantine host without a TEE can report any pair, no check of the source catches
it, and the highest one wins.

* `certifiedParents_of_truthful` : parents were prepared in the view that the accumulator says, as long
  as an intact component stands behind each accumulated pair
* `not_certifiedParents_liar` : one false new-view
-/

namespace Raftel

/-- The pair is the one of the genesis block, or an intact component held it. -/
def Supported (sys : System) (net : Net) (h : Hash) (v : View) : Prop :=
  (v = 0 ∧ h.hash = newHash.hash) ∨
    ∃ q, sys.Intact q ∧ ∃ r ∈ (net q).calls, r.pre.preph.hash = h.hash ∧ r.pre.prepv = v

/-- Every accepted proposal extends a block of an earlier view that was really prepared. -/
def CertifiedParents (sys : System) (net : Net) : Prop :=
  ∀ p, sys.Intact p → ∀ r ∈ (net p).calls, ∀ x ∈ r.proposal?,
    x.acc.prepv < r.pre.view ∧ Supported sys net x.acc.hash x.acc.prepv

/-- The accumulated pair is the genesis one, or one of the new-views that carry it is signed by an
intact component. -/
def Proposal.Truthful (sys : System) (x : Proposal) : Prop :=
  (x.acc.prepv = 0 ∧ x.acc.hash.hash = newHash.hash) ∨
    ∃ e ∈ x.newviews.entries, sys.Intact e.sign.signer ∧ e.rdata.justv = x.acc.prepv ∧
      e.rdata.justh.hash = x.acc.hash.hash

instance (sys : System) (x : Proposal) : Decidable (x.Truthful sys) :=
  inferInstanceAs (Decidable (_ ∨ _))

/-! ### The prepared view of a component -/

/-- The prepared view is not after the component's view, and before it when a view starts. -/
structure CombState.Ordered (st : CombState) : Prop where
  view_pos : 0 < st.view
  prepv_le : st.prepv ≤ st.view
  prepv_lt : st.phase = .newview → st.prepv < st.view

theorem CallRecord.NoWrap.ordered {env : CheckEnv} {r : CallRecord} (h : r.NoWrap)
    (hv : r.Valid env) (hpre : r.pre.Ordered) : r.post.Ordered := by
  cases hrd : r.rdata? with
  | none => rw [hv.post_eq hrd]; exact hpre
  | some rd =>
    have hacc := hv.accepts hrd
    obtain ⟨-, -, -, hphase⟩ := hacc.counter
    have hprepv : r.post.prepv ≤ r.pre.view := by
      rcases hacc.pairs.1 with ⟨-, h⟩ | h
      · exact h ▸ hpre.prepv_le
      · exact h.le
    rcases h.view hv hrd with ⟨hp, hview⟩ | ⟨hp, hview⟩
    · refine ⟨hview ▸ hpre.view_pos, hview ▸ hprepv, fun hnew => ?_⟩
      rw [hphase] at hnew
      unfold CombState.increment at hnew
      cases hph : r.pre.phase <;> simp [hph] at hnew hp
    · rw [← Nat.lt_succ_iff] at hprepv
      exact ⟨hview ▸ Nat.succ_pos _, hview ▸ hprepv.le, fun _ => hview ▸ hprepv⟩

theorem NetInv.ordered {sys : System} {net : Net} (hinv : NetInv sys net) (hwrap : net.NoWrap sys)
    {p : PID} (hp : sys.Intact p) :
    (net p).tc.Ordered ∧ ∀ r ∈ (net p).calls, r.pre.Ordered ∧ r.post.Ordered :=
  (hinv.trace p hp).invariant ⟨by decide, by decide, fun _ => by decide⟩
    fun r hr hv hpre => (hwrap p hp r hr).ordered hv hpre

/-! ### New-views -/

/-- The new-view data that intact components have signed is truthful. -/
def TruthfulNewViews (sys : System) (net : Net) : Prop :=
  ∀ p, sys.Intact p → ∀ rd, SignedText.rdata rd ∈ (net p).signed →
    rd.phase = Phase1.newview.byte → rd.justv < rd.propv ∧ Supported sys net rd.justh rd.justv

/-- The condition on the accepted proposals. -/
def TruthfulProposals (sys : System) (net : Net) : Prop :=
  ∀ p, sys.Intact p → ∀ r ∈ (net p).calls, ∀ x ∈ r.proposal?, x.Truthful sys

/-- A truthful proposal carries a pair that some intact component had reported. -/
theorem Proposal.Truthful.supported {sys : System} {net : Net} (hnv : TruthfulNewViews sys net)
    {x : Proposal} (hx : x.Truthful sys) {v : View} (hv : 0 < v)
    (hproof : ValidProof (sys.env net) v x.newviews x.acc) :
    x.acc.prepv < v ∧ Supported sys net x.acc.hash x.acc.prepv := by
  rcases hx with ⟨hzero, hgen⟩ | ⟨e, he, hintact, hjustv, hjusth⟩
  · exact ⟨hzero ▸ hv, Or.inl ⟨hzero, hgen⟩⟩
  · obtain ⟨hphase, hpropv⟩ := hproof.newview e he
    obtain ⟨hlt, hsup⟩ := hnv _ hintact e.rdata (hproof.verified e he) hphase
    rw [hjustv, hpropv] at hlt
    refine ⟨hlt, ?_⟩
    unfold Supported at hsup ⊢
    rw [hjustv, hjusth] at hsup
    exact hsup

theorem Supported.mono {sys : System} {net net' : Net} (h : ∀ q, (net q).calls ⊆ (net' q).calls)
    {hh : Hash} {v : View} (hs : Supported sys net hh v) : Supported sys net' hh v := by
  refine hs.imp_right ?_
  rintro ⟨q, hq, r, hr, heq⟩
  exact ⟨q, hq, r, h q hr, heq⟩

/-- The data that a component signs at the start of a view is truthful. -/
theorem CallRecord.Valid.truthful {sys : System} {net : Net} (hnv : TruthfulNewViews sys net)
    {r : CallRecord} (hvalid : r.Valid (sys.env net)) (hord : r.pre.Ordered)
    (hprop : ∀ x ∈ r.proposal?, x.Truthful sys) {rd : RData} (hrd : r.rdata? = some rd)
    (hphase : rd.phase = Phase1.newview.byte) :
    rd.justv < rd.propv ∧
      ((rd.justh = r.pre.preph ∧ rd.justv = r.pre.prepv) ∨ Supported sys net rd.justh rd.justv) := by
  have hacc := hvalid.accepts hrd
  obtain ⟨hpropv, hph, -⟩ := hacc.counter
  have hnew : r.pre.phase = .newview := Phase1.byte_injective (hph.symm.trans hphase)
  rw [hpropv]
  cases hc : r.call with
  | sign =>
    rw [hc] at hacc
    cases hacc with
    | sign data => rw [data]; exact ⟨hord.prepv_lt hnew, Or.inl ⟨rfl, rfl⟩⟩
  | prepare block acc nvs =>
    have hx : r.proposal? = some ⟨block, acc, nvs⟩ :=
      CallRecord.proposal?_eq_some.mpr ⟨⟨rd, hrd⟩, hc⟩
    rw [hc] at hacc
    cases hacc with
    | prepare proof parent safe data =>
      obtain ⟨hlt, hsup⟩ := (hprop _ hx).supported hnv hord.view_pos proof
      rw [data]
      exact ⟨hlt, Or.inr hsup⟩
  | store just =>
    rw [hc] at hacc
    cases hacc with
    | store cert view phase data =>
      rw [data]
      exact ⟨hord.view_pos, Or.inr (Or.inl ⟨rfl, rfl⟩)⟩
  | accum justs => rw [hc] at hacc; nomatch hacc
  | accumSp just => rw [hc] at hacc; nomatch hacc

/-- **New-views are truthful** in every reachable state in which the proposals were. -/
theorem System.Reachable.truthfulNewViews {sys : System} {net : Net} (h : sys.Reachable net)
    (hwrap : net.NoWrap sys) (hprop : TruthfulProposals sys net) : TruthfulNewViews sys net := by
  induction h with
  | refl => exact fun p _ rd hrd => absurd hrd List.not_mem_nil
  | @tail net net' hreach hm ih =>
    have hinv := System.Reachable.netInv hreach
    have hwrap₀ : net.NoWrap sys := fun p hp r hr => hwrap p hp r (hm.calls_subset p hr)
    have hnv := ih hwrap₀ fun p hp r hr => hprop p hp r (hm.calls_subset p hr)
    intro p hp rd hrd hphase
    obtain ⟨r, hr, hsigned⟩ := (hinv.step hm).exists_call hp hrd
    rcases hm.mem_calls hr with hold | ⟨-, hpre, hvalid⟩
    · obtain ⟨hlt, hsup⟩ := hnv p hp rd (Party.mem_signed hold hsigned) hphase
      exact ⟨hlt, hsup.mono hm.calls_subset⟩
    · have hord : r.pre.Ordered := hpre ▸ (hinv.ordered hwrap₀ hp).1
      obtain ⟨hlt, ⟨hjusth, hjustv⟩ | hsup⟩ :=
        hvalid.truthful hnv hord (hprop p hp r hr) hsigned hphase
      · -- the component reports the pair it holds
        exact ⟨hlt, Or.inr ⟨p, hp, r, hr, by rw [hjusth], hjustv.symm⟩⟩
      · exact ⟨hlt, hsup.mono hm.calls_subset⟩

/-- The intact components of the system accepted truthful proposals only. -/
def SystemState.Truthful (sys : System) (st : SystemState) : Prop :=
  ∀ p < sys.n, sys.Intact p → ∀ r ∈ (st.replica p).host.calls, ∀ x ∈ r.proposal?, x.Truthful sys

instance (sys : System) (st : SystemState) : Decidable (st.Truthful sys) :=
  inferInstanceAs (Decidable (∀ p < sys.n, _))

/-- **Certified parents.**  In every reachable state without a wrapped view counter in which an intact
component stands behind each accumulated pair, every accepted proposal extends a block of an earlier
view: genesis, or the one that an intact component held as prepared in the view of the accumulator. -/
theorem certifiedParents_of_truthful (sys : System) (acts : List Action)
    (hwrap : (sys.run acts).NoWrap sys) (htruth : (sys.run acts).Truthful sys) :
    CertifiedParents sys (sys.run acts).net := by
  have hreach := run_reachable sys acts
  have hnv := hreach.truthfulNewViews hwrap.net fun p hp => htruth p hp.1 hp
  intro p hp r hr x hx
  obtain ⟨hproof, -⟩ := ((hreach.netInv.trace p hp).ok_of_mem hr).proposal hx
  exact (htruth p hp.1 hp r hr x hx).supported hnv
    ((hreach.netInv.ordered hwrap.net hp).2 r hr).1.view_pos hproof

/-! ### Two views of one chain -/

section TwoViews

/-- SHA-256 of the text of `nextBlock`. -/
def nextBlockDigest : Digest :=
  #v[17, 180, 32, 174, 49, 158, 51, 143, 39, 137, 27, 40, 176, 194, 130, 105, 209, 93, 168, 139, 36, 225,
    136, 97, 70, 180, 194, 248, 163, 193, 46, 195]

/-- The block of leader 2 in view 2, which extends the one of view 1. -/
def nextBlock : Block := { emptyBlock 22 with prevHash := ⟨emptyBlockDigest, true⟩ }

/-- SHA-256 on the texts of the two blocks. -/
def chainSha (t : Text) : Digest :=
  if t = (emptyBlock 11).toText then emptyBlockDigest
  else if t = nextBlock.toText then nextBlockDigest
  else Vector.replicate _ 255

/-- Four replicas, two of them TEE replicas; the host of TEE replica 2 is Byzantine. -/
def chainSystem : System where
  f := 1
  f_pos := Nat.one_pos
  tee := {1, 2}
  tee_sub := hybridSystem.tee_sub
  byz := {2}
  byz_sub := by decide
  byz_card := by decide
  sha256 := chainSha
  maxViews := 0
  fixedLeaderMode := false
  fixedLeader := 0

/-- The new-view of an enclave that prepared the block of view 1. -/
def nextNewView : RData := ⟨noHash, 2, ⟨emptyBlockDigest, true⟩, 1, Phase1.newview.byte⟩

/-- The proposal of leader 2. -/
def nextLdrPrepare : MsgLdrPrepareComb :=
  ⟨⟨⟨true, 2, 1, ⟨emptyBlockDigest, true⟩, 2⟩, idealSign 2⟩, nextBlock,
    .ofMsgs [⟨nextNewView, idealSign 1⟩, ⟨nextNewView, idealSign 2⟩], idealSign 2⟩

/-- The votes of the two TEE replicas for it. -/
def nextCertificate : MsgPrepareComb :=
  ⟨⟨⟨nextBlockDigest, true⟩, 2, ⟨emptyBlockDigest, true⟩, 1, Phase1.prepare.byte⟩,
    .ofList [idealSign 1, idealSign 2]⟩

/-- Replica 1 leads view 1 and the enclave of replica 2 leads view 2; both blocks are executed. -/
def chainActions : List Action :=
  [.input 1 9 (.start 0), .ecall 2 .sign, .input 1 9 (.peer (.newview ⟨firstNewView, idealSign 2⟩)),
    .ecall 2 (.prepare (emptyBlock 11) fastLdrPrepare.acc (setNewViews fastLdrPrepare.proof)),
    .input 1 9 (.peer (.prepare ⟨firstProposal 11, .one (idealSign 2)⟩)),
    .ecall 2 .sign, .ecall 2 .sign, .ecall 2 .sign,
    .ecall 2 (.accumSp ⟨true, nextNewView, .ofList [idealSign 1, idealSign 2]⟩),
    .ecall 2 (.prepare nextBlock nextLdrPrepare.acc (setNewViews nextLdrPrepare.proof)),
    .input 1 9 (.peer (.ldrprepare nextLdrPrepare)),
    .input 1 9 (.peer (.prepare nextCertificate))]

/-- In view 2 replica 1 accepts a block on the one that was prepared in view 1. -/
theorem certifiedParents_two_views :
    (∃ r ∈ ((chainSystem.run chainActions).replica 1).host.calls, ∃ x ∈ r.proposal?,
        r.pre.view = 2 ∧ x.acc.prepv = 1 ∧ x.block.id = 22) ∧
      CertifiedParents chainSystem (chainSystem.run chainActions).net := by
  -- the run is evaluated once for all that is decided about it
  obtain ⟨hwrap, htruth, haccepted⟩ : (chainSystem.run chainActions).NoWrap chainSystem ∧
      (chainSystem.run chainActions).Truthful chainSystem ∧
      ∃ r ∈ ((chainSystem.run chainActions).replica 1).host.calls, ∃ x ∈ r.proposal?,
        r.pre.view = 2 ∧ x.acc.prepv = 1 ∧ x.block.id = 22 := by
    decide +kernel
  exact ⟨haccepted, certifiedParents_of_truthful chainSystem chainActions hwrap htruth⟩

end TwoViews

/-! ### A false new-view -/

section Liar

/-- The false new-view of replica 0 for view 2: genesis was prepared in view 7. -/
def falseNewView : RData := ⟨noHash, 2, newHash, 7, Phase1.newview.byte⟩

/-- The new-view of a replica that executed the block of view 1. -/
def secondNewView : RData :=
  ⟨noHash, 2, (emptyBlock 11).hash twoBlocksSha, 1, Phase1.newview.byte⟩

/-- After view 1, leader 2 receives the false new-view and one of replica 3. -/
def liarActions : List Action :=
  firstViewActions ++ [.forge 0 (.rdata falseNewView),
    .input 2 9 (.peer (.newview ⟨falseNewView, idealSign 0⟩)),
    .input 2 9 (.peer (.newview ⟨secondNewView, idealSign 3⟩))]

/-- **One false new-view wins.**  In view 2 the enclave of the correct leader accepts a proposal whose
parent it takes to be prepared in view 7. -/
theorem not_certifiedParents_liar :
    ¬ CertifiedParents hybridSystem (hybridSystem.run liarActions).net := by
  intro h
  obtain ⟨r, hr, x, hx, hview, hprepv⟩ :
      ∃ r ∈ ((hybridSystem.run liarActions).replica 2).host.calls, ∃ x ∈ r.proposal?,
        r.pre.view = 2 ∧ x.acc.prepv = 7 := by
    decide +kernel
  have hlt := (h 2 (by decide) r (SystemState.mem_calls_net hr) x hx).1
  rw [hview, hprepv] at hlt
  exact absurd hlt (by decide)

end Liar

end Raftel
