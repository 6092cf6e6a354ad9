import Raftel.Equiv.HotStuffEvents
import Raftel.Equiv.System
import Raftel.Safety.Certificates
import Raftel.Safety.PhaseChain

/-!
# The votes of a HotStuff run

The trusted functions leave several checks to nobody: `Signs::verify` counts a signer as often as its
signature is repeated, a proposal is accepted in every phase, one new-view is enough to override a lock,
and a certificate may be for the dummy hash.  `Event.Sound` says what an event must be like to reach none
of these gaps.

Along sound events, what correct replicas sign after the new-view phase are votes of the abstract
protocol: `votes_of_sound`.

* `Event.Accepted` : what an accepted call has checked and does
* `signedByQuorum_of_verify` : a certificate of different signers is signed by a quorum
* `History.Tracks` : how the trusted functions' state accounts for the votes of their replica
-/

namespace Raftel.HotStuff

open Lib

/-! ### The condition -/

section Condition

variable (sys : System) (cr : Crypto Unit)

/-- A quorum has signed `prepare` data of view `v` for the hash. -/
def History.Prepared (history : History) (v : View) (h : Hash) : Prop :=
  ∃ x ∈ history.signed sys cr, x.2.phase = Phase1.prepare.byte ∧ x.2.propv = v ∧
    x.2.proph.set = true ∧ x.2.proph.hash = h.hash ∧ history.SignedByQuorum sys cr x.2

instance (history : History) (v : View) (h : Hash) : Decidable (history.Prepared sys cr v h) :=
  inferInstanceAs (Decidable (∃ x ∈ _, _))

/-- The certificate is for a hash, and no signer signs twice. -/
def Distinct (just : Just) : Prop :=
  just.rdata.proph.set = true ∧ (just.signs.entries.map Sign.signer).Nodup

instance (just : Just) : Decidable (Distinct just) := inferInstanceAs (Decidable (_ ∧ _))

/-- What an event has to satisfy, after the history and in the state of its trusted functions, to reach
none of the gaps.

* A proposal is not voted for after the `prepare` phase, and in that phase its justification is for the
  locked block, or for one that is prepared in the view that it names.
* A certificate that is stored or executed is for a hash and has different signers.
* What is executed without verification is `commit` data that a quorum has signed. -/
def Event.Sound (history : History) (st : CombState) : Event → Prop
  | sign => True
  | prepare _ just => st.phase = .newview ∨ (st.phase = .prepare ∧
      (just.rdata.justh.hash = st.lockh.hash ∨
        history.Prepared sys cr just.rdata.justv just.rdata.justh))
  | store just => Distinct just
  | certified just => Distinct just
  | collected rdata => rdata.phase = Phase1.commit.byte ∧ rdata.proph.set = true ∧
      history.SignedByQuorum sys cr rdata

instance (history : History) (st : CombState) :
    (e : Event) → Decidable (e.Sound sys cr history st)
  | .sign => inferInstanceAs (Decidable True)
  | .prepare _ _ => inferInstanceAs (Decidable (_ ∨ _))
  | .store _ => inferInstanceAs (Decidable (Distinct _))
  | .certified _ => inferInstanceAs (Decidable (Distinct _))
  | .collected _ => inferInstanceAs (Decidable (_ ∧ _))

/-- Each accepted call and each execution is sound, and no accepted call wraps the view. -/
def Sound : History → Prop :=
  AtEach fun (history : History) x =>
    ((history.reply sys cr x).set = true ∨ x.2.executed?.isSome = true →
        x.2.Sound sys cr history (history.tf sys cr x.1)) ∧
      ((history.reply sys cr x).set = true → (history.tf sys cr x.1).phase = .commit →
        (history.tf sys cr x.1).view + 1 < 2 ^ 32)

instance (history : History) : Decidable (Sound sys cr history) :=
  inferInstanceAs (Decidable (AtEach _ history))

end Condition

/-! ### Calls -/

section Calls

variable {Key : Type} {cr : Crypto Key} {vars : FunVars Key} {st : CombState}

/-- An accepted call, with the data that it signs and the state afterwards. -/
inductive Event.Accepted (cr : Crypto Key) (vars : FunVars Key) (st : CombState) :
    Event → RData → CombState → Prop
  | sign : Accepted cr vars st .sign ⟨noHash, st.view, st.preph, st.prepv, st.phase.byte⟩ st.increment
  | prepare {block : Block} {just : Just}
      (safe : just.rdata.justh.hash = st.lockh.hash ∨ st.lockv < just.rdata.justv) :
      Accepted cr vars st (.prepare block just)
        ⟨block.hash cr.sha256, st.view, just.rdata.justh, just.rdata.justv, st.phase.byte⟩
        st.increment
  | store {just : Just} (size : just.signs.size = vars.qsize)
      (verified : funTEEverify cr vars just = true) (view : just.rdata.propv = st.view)
      (phase : just.rdata.phase = Phase1.prepare.byte ∨ just.rdata.phase = Phase1.precommit.byte) :
      Accepted cr vars st (.store just)
        ⟨just.rdata.proph, st.view, newHash, 0, st.phase.byte⟩
        (CombState.increment { st with
          preph := just.rdata.proph, prepv := just.rdata.propv
          lockh := just.rdata.proph, lockv := just.rdata.propv })

/-- **Inversion** for accepted calls. -/
theorem Event.accepted_of_set {e : Event} (h : (e.call cr vars st).1.set = true) :
    e.Accepted cr vars st (e.call cr vars st).1.rdata (e.call cr vars st).2 := by
  cases e with
  | sign => exact .sign
  | prepare block just =>
    simp only [Event.call, funTEEprepare] at h ⊢
    split at h
    · next hcheck =>
      rw [if_pos hcheck]
      simp only [Bool.and_eq_true, Bool.or_eq_true, eqHashes_eq_true, decide_eq_true_eq] at hcheck
      exact .prepare hcheck.2
    · exact absurd h Bool.false_ne_true
  | store just =>
    simp only [Event.call, funTEEstore] at h ⊢
    split at h
    · next hcheck =>
      rw [if_pos hcheck]
      simp only [Bool.and_eq_true, Bool.or_eq_true, decide_eq_true_eq] at hcheck
      obtain ⟨⟨⟨hsize, hverified⟩, hview⟩, hphase⟩ := hcheck
      exact .store hsize hverified hview.symm hphase
    · exact absurd h Bool.false_ne_true
  | certified just => exact absurd h Bool.false_ne_true
  | collected rdata => exact absurd h Bool.false_ne_true

/-- A call that is refused changes nothing. -/
theorem Event.call_of_not_set {e : Event} (h : (e.call cr vars st).1.set = false) :
    (e.call cr vars st).2 = st := by
  cases e with
  | sign => exact nomatch h
  | prepare block just =>
    simp only [Event.call, funTEEprepare] at h ⊢
    split at h
    · exact nomatch h
    · next hcheck => rw [if_neg hcheck]
  | store just =>
    simp only [Event.call, funTEEstore] at h ⊢
    split at h
    · exact nomatch h
    · next hcheck => rw [if_neg hcheck]
  | certified just => rfl
  | collected rdata => rfl

namespace Event.Accepted

variable {e : Event} {rd : RData} {st' : CombState}

/-- The signed data carries the counter. -/
theorem counter (h : e.Accepted cr vars st rd st') :
    rd.propv = st.view ∧ rd.phase = st.phase.byte := by
  cases h <;> exact ⟨rfl, rfl⟩

theorem exists_increment (h : e.Accepted cr vars st rd st') :
    ∃ s : CombState, st' = s.increment ∧ s.view = st.view ∧ s.phase = st.phase := by
  cases h <;> exact ⟨_, rfl, rfl, rfl⟩

end Event.Accepted

/-- Without a wrap, the counter moves on by one and the view does not decrease. -/
theorem rank_increment (hwrap : st.phase = .commit → st.view + 1 < 2 ^ 32) :
    st.increment.rank = st.rank + 1 ∧ st.view ≤ st.increment.view := by
  unfold CombState.rank CombState.increment
  cases hp : st.phase with
  | commit =>
    have hnext : nextView st.view = st.view + 1 := Nat.mod_eq_of_lt (hwrap hp)
    simp only [hnext, Phase1.index]
    exact ⟨Nat.mul_succ 4 st.view, Nat.le_succ _⟩
  | newview => simp [Phase1.index]
  | prepare => simp [Phase1.index]
  | precommit => simp [Phase1.index]

end Calls

/-! ### Histories -/

section Histories

variable {sys : System} {cr : Crypto Unit} {history history' : History} {p : PID}

@[simp]
theorem History.tf_nil : History.tf sys cr [] p = funInit := rfl

theorem History.tf_cons_self (e : Event) : History.tf sys cr ((p, e) :: history) p =
    (e.call cr (funVars (sys.config p)) (history.tf sys cr p)).2 := by
  unfold History.tf
  rw [eventsOf_cons_self, advance_cons]

theorem History.tf_cons_ne {x : PID × Event} (h : x.1 ≠ p) :
    History.tf sys cr (x :: history) p = history.tf sys cr p := by
  unfold History.tf
  rw [eventsOf_cons_ne h]

theorem History.signed_cons {x : PID × Event} (h : (history.reply sys cr x).set = true) :
    History.signed sys cr (x :: history) =
      (x.1, (history.reply sys cr x).rdata) :: history.signed sys cr := if_pos h

theorem History.signed_cons_of_not {x : PID × Event} (h : (history.reply sys cr x).set = false) :
    History.signed sys cr (x :: history) = history.signed sys cr :=
  if_neg (by rw [h]; exact Bool.false_ne_true)

theorem History.signed_subset_cons (x : PID × Event) :
    history.signed sys cr ⊆ History.signed sys cr (x :: history) := by
  cases h : (history.reply sys cr x).set with
  | true =>
    rw [signed_cons h]
    exact List.subset_cons_self _ _
  | false => rw [signed_cons_of_not h]; exact List.Subset.refl _

theorem History.signed_subset_of_suffix (h : history' <:+ history) :
    history'.signed sys cr ⊆ history.signed sys cr := by
  obtain ⟨newer, rfl⟩ := h
  induction newer with
  | nil => exact List.Subset.refl _
  | cons x newer ih => exact List.Subset.trans ih (signed_subset_cons x)

theorem History.SignedByQuorum.mono {rd : RData} (h : history.SignedByQuorum sys cr rd)
    (hsub : history.signed sys cr ⊆ history'.signed sys cr) :
    history'.SignedByQuorum sys cr rd := by
  refine Nat.le_trans h (Finset.card_le_card fun p hp => ?_)
  rw [Finset.mem_filter] at hp ⊢
  exact ⟨hp.1, fun hcorrect => hsub (hp.2 hcorrect)⟩

/-! ### Certificates -/

/-- Signatures that are read in range and verify. -/
theorem verifyJust_eq_true {Key : Type} {cfg : HandlerConfig Key} {cr : Crypto Key} {just : Just}
    (h : (verifyJust cfg cr just).isSome) (hverify : funTEEverify cr (funVars cfg) just = true) :
    verifyJust cfg cr just = some true := by
  rcases Checked.isSome_verify.mp h with hin | ⟨s, hs, hrefused⟩
  · exact (Checked.verify_eq hin).trans (congrArg some hverify)
  · by_cases hin : just.signs.InBounds
    · exact (Checked.verify_eq hin).trans (congrArg some hverify)
    · -- all of the array is verified, also the signature that is refused
      have hall : just.signs.entries = just.signs.signs.toList := by
        refine List.take_of_length_le ?_
        rw [Vector.length_toList]
        exact (Nat.lt_of_not_le hin).le
      have haccepts := List.all_eq_true.mp hverify s (hall ▸ hs)
      exact absurd (hrefused.symm.trans haccepts) Bool.false_ne_true

/-- **A certificate of different signers is signed by a quorum.** -/
theorem signedByQuorum_of_verify {just : Just}
    (hverify : verifyJust (sys.config p) cr just = some true) (hsize : just.signs.size = sys.qsize)
    (hdistinct : Distinct just)
    (hideal : ∀ s ∈ just.signs.entries, cr.verifySign s () (.rdata just.rdata) = true →
      sys.Correct s.signer → (s.signer, just.rdata) ∈ history.signed sys cr) :
    history.SignedByQuorum sys cr just.rdata := by
  have hin : just.signs.InBounds := Checked.inBounds_of_verify hverify
  have hall : just.signs.verify cr.verifySign sys.nodes (.rdata just.rdata) = true :=
    Option.some.inj ((Checked.verify_eq hin).symm.trans hverify)
  have hcard : (signersOf just.signs.entries).card = sys.qsize := by
    rw [signersOf, List.toFinset_card_of_nodup hdistinct.2, List.length_map,
      Signs.length_entries hin, hsize]
  refine hcard.symm.le.trans (Finset.card_le_card fun q hq => ?_)
  obtain ⟨s, hs, rfl⟩ := mem_signersOf.mp hq
  have haccepts := List.all_eq_true.mp hall s hs
  rw [sys.lookup_nodes] at haccepts
  by_cases hknown : s.signer < sys.n
  · rw [if_pos hknown] at haccepts
    rw [Finset.mem_filter]
    exact ⟨Finset.mem_range.mpr hknown, hideal s hs haccepts⟩
  · rw [if_neg hknown] at haccepts
    exact absurd haccepts Bool.false_ne_true

/-! ### Votes -/

/-- The vote that signed data stands for: data of the new-view phase, or for the dummy hash, is none. -/
def voteOf (x : PID × RData) : Option (Lib.Vote PID Digest) :=
  if x.2.proph.set = true ∧ x.2.phase ≠ Phase1.newview.byte then
    some ⟨x.1, x.2.propv, x.2.phase.toNat - 1, x.2.proph.hash⟩
  else none

variable (sys cr) in
def History.votes (history : History) : List (Lib.Vote PID Digest) :=
  (history.signed sys cr).filterMap voteOf

/-- One of the blocks has the first hash and extends the second one. -/
def Link (sha : Text → Digest) (blocks : List Block) (h h' : Digest) : Prop :=
  ∃ b ∈ blocks, (b.hash sha).hash = h ∧ b.prevHash.hash = h'

theorem History.votes_subset_cons (x : PID × Event) :
    history.votes sys cr ⊆ History.votes sys cr (x :: history) :=
  List.filterMap_subset _ (signed_subset_cons x)

/-- What a quorum has signed has its votes. -/
theorem History.SignedByQuorum.backed {rd : RData} (h : history.SignedByQuorum sys cr rd)
    (hset : rd.proph.set = true) (hphase : rd.phase ≠ Phase1.newview.byte) :
    Backed sys.quorums.untrusted (history.votes sys cr) rd.propv (rd.phase.toNat - 1)
      rd.proph.hash := by
  obtain ⟨S, hS, hcard⟩ := Finset.exists_subset_card_eq h
  refine ⟨S, ⟨fun p hp => (Finset.mem_filter.mp (hS hp)).1, hcard⟩, fun p hp hrel => ?_⟩
  obtain ⟨hlt, hsigned⟩ := Finset.mem_filter.mp (hS hp)
  have hmem := hsigned ⟨Finset.mem_range.mp hlt, hrel⟩
  exact List.mem_filterMap.mpr ⟨(p, rd), hmem, if_pos ⟨hset, hphase⟩⟩

theorem History.Prepared.backed {v : View} {h : Hash} (hprep : history.Prepared sys cr v h) :
    Backed sys.quorums.untrusted (history.votes sys cr) v 0 h.hash := by
  obtain ⟨x, -, hphase, hpropv, hset, hhash, hquorum⟩ := hprep
  have hcert := hquorum.backed hset (by rw [hphase]; decide)
  rw [hpropv, hhash, hphase] at hcert
  exact hcert

variable (sys cr) in
/-- What the state of the trusted functions says of the votes of their replica: they are before the
counter, and if one of them is in a later stage, a quorum has voted for the locked block in the view of
the lock, which is not before that vote. -/
structure History.Tracks (history : History) (p : PID) : Prop where
  lockv_le : (history.tf sys cr p).lockv ≤ (history.tf sys cr p).view
  rank_lt : ∀ w ∈ history.votes sys cr, w.voter = p →
    4 * w.view + (w.stage + 1) < (history.tf sys cr p).rank
  held : ∀ w ∈ history.votes sys cr, w.voter = p → 0 < w.stage →
    w.view ≤ (history.tf sys cr p).lockv ∧ ∃ k, Backed sys.quorums.untrusted
      (history.votes sys cr) (history.tf sys cr p).lockv k (history.tf sys cr p).lockh.hash

theorem History.tracks_nil : History.Tracks sys cr [] p where
  lockv_le := le_rfl
  rank_lt _ hw := absurd hw List.not_mem_nil
  held _ hw := absurd hw List.not_mem_nil

/-- An event of another replica, or one that signs nothing. -/
theorem History.Tracks.cons {x : PID × Event} (h : history.Tracks sys cr p)
    (htf : History.tf sys cr (x :: history) p = history.tf sys cr p)
    (hvotes : ∀ w ∈ History.votes sys cr (x :: history), w.voter = p →
      w ∈ history.votes sys cr) : History.Tracks sys cr (x :: history) p where
  lockv_le := by
    rw [htf]
    exact h.lockv_le
  rank_lt w hw hvoter := by
    rw [htf]
    exact h.rank_lt w (hvotes w hw hvoter) hvoter
  held w hw hvoter hpos := by
    rw [htf]
    obtain ⟨hle, k, hcert⟩ := h.held w (hvotes w hw hvoter) hvoter hpos
    exact ⟨hle, k, hcert.mono (votes_subset_cons x)⟩

/-! ### One event -/

theorem phase_index_of_vote {x : PID × RData} {w : Lib.Vote PID Digest} {phase : Phase1}
    (hw : voteOf x = some w) (hphase : x.2.phase = phase.byte) :
    w.voter = x.1 ∧ w.view = x.2.propv ∧ w.stage + 1 = phase.index ∧ w.value = x.2.proph.hash ∧
      x.2.proph.set = true := by
  unfold voteOf at hw
  split at hw
  · next h =>
    cases hw
    refine ⟨rfl, rfl, ?_, rfl, h.1⟩
    rw [hphase]
    cases phase with
    | newview => exact absurd hphase h.2
    | prepare => rfl
    | precommit => rfl
    | commit => rfl
  · exact nomatch hw

variable (sys cr) in
/-- What is known of an event: it is sound, the handlers have made their checks, and its signatures are
ideal. -/
structure Event.Fair (history : History) (p : PID) (e : Event) : Prop where
  sound : e.Sound sys cr history (history.tf sys cr p)
  made : e.Made cr (sys.config p)
  ideal : ∀ just ∈ e.just?, ∀ s ∈ just.signs.entries,
    cr.verifySign s () (.rdata just.rdata) = true → sys.Correct s.signer →
      (s.signer, just.rdata) ∈ history.signed sys cr

/-- A certificate that is stored is for a value with the votes of a quorum. -/
theorem Event.Fair.backed {just : Just} (h : Event.Fair sys cr history p (.store just))
    (hsize : just.signs.size = sys.qsize)
    (hverified : funTEEverify cr (funVars (sys.config p)) just = true)
    (hphase : just.rdata.phase = Phase1.prepare.byte ∨ just.rdata.phase = Phase1.precommit.byte) :
    ∃ k, Backed sys.quorums.untrusted (history.votes sys cr) just.rdata.propv k
      just.rdata.proph.hash := by
  have hdistinct : Distinct just := h.sound
  have hverify := verifyJust_eq_true (h.made hsize) hverified
  have hquorum := signedByQuorum_of_verify hverify hsize hdistinct (h.ideal just rfl)
  refine ⟨_, hquorum.backed hdistinct.1 ?_⟩
  rcases hphase with hphase | hphase <;> rw [hphase] <;> decide

section Step

variable {e : Event} {rd : RData} {st' : CombState} {blocks : List Block}
  (htracks : history.Tracks sys cr p) (hfair : Event.Fair sys cr history p e)
  (hacc : e.Accepted cr (funVars (sys.config p)) (history.tf sys cr p) rd st')
include htracks hfair hacc

/-- **What is signed is an admissible vote.** -/
theorem admissible_of_accepted (hblock : ∀ b ∈ e.block?, b ∈ blocks) {w : Lib.Vote PID Digest}
    (hw : voteOf (p, rd) = some w) :
    Admissible sys.quorums.untrusted (Link cr.sha256 blocks) (history.votes sys cr) w := by
  obtain ⟨-, hphase⟩ := hacc.counter
  obtain ⟨hvoter, hview, hstage, hvalue, hset⟩ := phase_index_of_vote hw hphase
  have hsound := hfair.sound
  cases hacc with
  | sign => exact nomatch hset
  | @prepare block just safe =>
    rcases hsound with hnew | ⟨hprepare, hparent⟩
    · rw [hnew] at hstage
      exact absurd hstage (Nat.succ_ne_zero _)
    · rw [hprepare] at hstage
      refine .propose just.rdata.justh.hash (Nat.succ.inj hstage)
        ⟨block, hblock block rfl, hvalue.symm, hfair.made⟩ fun w' hw' hvoter' hpos => ?_
      obtain ⟨hle, k, hlock⟩ := htracks.held w' hw' (hvoter'.trans hvoter) hpos
      by_cases heq : just.rdata.justh.hash = (history.tf sys cr p).lockh.hash
      · exact ⟨_, k, hle, heq ▸ hlock⟩
      · exact ⟨_, 0, hle.trans (safe.resolve_left heq).le, (hparent.resolve_left heq).backed⟩
  | @store just size verified view phase =>
    obtain ⟨k, hbacked⟩ := hfair.backed size verified phase
    refine .endorse k ?_
    rw [hview, hvalue]
    exact view ▸ hbacked

omit hfair in
/-- The vote is after the earlier ones of the replica. -/
theorem before_of_accepted {w : Lib.Vote PID Digest} (hw : voteOf (p, rd) = some w)
    {w' : Lib.Vote PID Digest} (hw' : w' ∈ history.votes sys cr) (hvoter : w'.voter = w.voter) :
    w'.Before w := by
  obtain ⟨hpropv, hphase⟩ := hacc.counter
  obtain ⟨hp, hview, hstage, -, -⟩ := phase_index_of_vote hw hphase
  have hlt := htracks.rank_lt w' hw' (hvoter.trans hp)
  have hview' : w.view = (history.tf sys cr p).view := hview.trans hpropv
  have hidx : (history.tf sys cr p).phase.index < 4 := by
    cases (history.tf sys cr p).phase <;> decide
  unfold CombState.rank at hlt
  rw [← hstage, ← hview'] at hlt
  rw [← hstage] at hidx
  unfold Lib.Vote.Before
  omega

omit htracks in
/-- **Only a certificate that is stored moves the lock**, to the view of the counter; a vote in a later
stage is for such a certificate. -/
theorem lock_of_accepted :
    (st'.lockh = (history.tf sys cr p).lockh ∧ st'.lockv = (history.tf sys cr p).lockv ∧
        ∀ w, voteOf (p, rd) = some w → w.stage = 0) ∨
      (st'.lockv = (history.tf sys cr p).view ∧ ∃ k, Backed sys.quorums.untrusted
        (history.votes sys cr) (history.tf sys cr p).view k st'.lockh.hash) := by
  have hsound := hfair.sound
  cases hacc with
  | sign =>
    refine Or.inl ⟨CombState.increment_lockh _, CombState.increment_lockv _, fun w hw => ?_⟩
    obtain ⟨-, -, -, -, hset⟩ := phase_index_of_vote hw rfl
    exact nomatch hset
  | @prepare block just safe =>
    refine Or.inl ⟨CombState.increment_lockh _, CombState.increment_lockv _, fun w hw => ?_⟩
    obtain ⟨-, -, hstage, -, -⟩ := phase_index_of_vote hw rfl
    rcases hsound with hnew | ⟨hprepare, -⟩
    · rw [hnew] at hstage
      exact absurd hstage (Nat.succ_ne_zero _)
    · rw [hprepare] at hstage
      exact Nat.succ.inj hstage
  | @store just size verified view phase =>
    rw [CombState.increment_lockh, CombState.increment_lockv]
    refine Or.inr ⟨view, ?_⟩
    rw [← view]
    exact hfair.backed size verified phase

end Step

/-- An accepted call of the history. -/
theorem History.event_accepted {e : Event} (hset : (history.reply sys cr (p, e)).set = true) :
    e.Accepted cr (funVars (sys.config p)) (history.tf sys cr p)
      (history.reply sys cr (p, e)).rdata (History.tf sys cr ((p, e) :: history) p) := by
  rw [tf_cons_self]
  exact Event.accepted_of_set hset

theorem History.mem_votes_cons {e : Event} {w : Lib.Vote PID Digest}
    (hset : (history.reply sys cr (p, e)).set = true) :
    w ∈ History.votes sys cr ((p, e) :: history) ↔
      voteOf (p, (history.reply sys cr (p, e)).rdata) = some w ∨ w ∈ history.votes sys cr := by
  unfold votes
  rw [signed_cons hset, List.filterMap_cons]
  cases voteOf (p, (history.reply sys cr (p, e)).rdata) with
  | none => simp
  | some w' => simp [eq_comm]

/-- **The state keeps track of the votes.** -/
theorem History.Tracks.step {e : Event} (h : history.Tracks sys cr p)
    (hfair : Event.Fair sys cr history p e) (hset : (history.reply sys cr (p, e)).set = true)
    (hwrap : (history.tf sys cr p).phase = .commit → (history.tf sys cr p).view + 1 < 2 ^ 32) :
    History.Tracks sys cr ((p, e) :: history) p := by
  have hacc := event_accepted hset
  have hlock := lock_of_accepted hfair hacc
  obtain ⟨hpropv, hphase⟩ := hacc.counter
  obtain ⟨hrank, hview⟩ : (History.tf sys cr ((p, e) :: history) p).rank =
        (history.tf sys cr p).rank + 1 ∧
      (history.tf sys cr p).view ≤ (History.tf sys cr ((p, e) :: history) p).view := by
    obtain ⟨s, hs, hview, hphase⟩ := hacc.exists_increment
    have hinc : s.increment.rank = s.rank + 1 ∧ s.view ≤ s.increment.view :=
      rank_increment (by rw [hview, hphase]; exact hwrap)
    rw [hs, hinc.1, CombState.rank, CombState.rank, ← hview, ← hphase]
    exact ⟨rfl, hinc.2⟩
  refine ⟨?_, fun w hw hvoter => ?_, fun w hw hvoter hpos => ?_⟩
  · rcases hlock with ⟨-, hlockv, -⟩ | ⟨hlockv, -⟩
    · rw [hlockv]
      exact h.lockv_le.trans hview
    · rw [hlockv]
      exact hview
  · rw [hrank]
    rcases (mem_votes_cons hset).mp hw with hw | hw
    · obtain ⟨-, hwview, hstage, -, -⟩ := phase_index_of_vote hw hphase
      rw [hstage, hwview, hpropv]
      exact Nat.lt_succ_self _
    · exact (h.rank_lt w hw hvoter).trans (Nat.lt_succ_self _)
  · rcases hlock with ⟨hlockh, hlockv, hzero⟩ | ⟨hlockv, k, hbacked⟩
    · rw [hlockh, hlockv]
      rcases (mem_votes_cons hset).mp hw with hw | hw
      · rw [hzero w hw] at hpos
        exact absurd hpos (lt_irrefl 0)
      · obtain ⟨hle, k, hbacked⟩ := h.held w hw hvoter hpos
        exact ⟨hle, k, hbacked.mono (votes_subset_cons _)⟩
    · rw [hlockv]
      refine ⟨?_, k, hbacked.mono (votes_subset_cons _)⟩
      rcases (mem_votes_cons hset).mp hw with hw | hw
      · obtain ⟨-, hwview, -⟩ := phase_index_of_vote hw hphase
        exact (hwview.trans hpropv).le
      · exact (h.held w hw hvoter hpos).1.trans h.lockv_le

/-! ### Whole histories -/

/-- The accepted proposals of a history are among its blocks. -/
theorem History.block_mem_accepted {e : Event} (hset : (history.reply sys cr (p, e)).set = true)
    {b : Block} (hb : b ∈ e.block?) : b ∈ History.accepted sys cr ((p, e) :: history) := by
  unfold accepted
  rw [if_pos hset]
  exact List.mem_append_left _ (Option.mem_toList.mpr hb)

/-- An accepted block is the one of a proposal. -/
theorem History.exists_of_mem_accepted {b : Block} (hb : b ∈ history.accepted sys cr) :
    ∃ x ∈ history, b ∈ x.2.block? := by
  induction history with
  | nil => exact absurd hb List.not_mem_nil
  | cons x history ih =>
    rcases List.mem_append.mp hb with hb | hb
    · split at hb
      · exact ⟨x, List.mem_cons_self, Option.mem_toList.mp hb⟩
      · exact absurd hb List.not_mem_nil
    · obtain ⟨y, hy, hblock⟩ := ih hb
      exact ⟨y, List.mem_cons_of_mem _ hy, hblock⟩

theorem History.mem_accepted_of_drop {i : ℕ} {x : PID × Event} {b : Block} {older : History}
    (h : history.drop i = x :: older) (hset : (older.reply sys cr x).set = true)
    (hb : b ∈ x.2.block?) : b ∈ history.accepted sys cr := by
  induction i generalizing history with
  | zero =>
    rw [List.drop_zero] at h
    subst h
    exact block_mem_accepted hset hb
  | succ i ih =>
    cases history with
    | nil => exact nomatch h
    | cons y history => exact List.mem_append_right _ (ih h)

/-- **The signed data of a sound history are votes that follow the rules**, and every state keeps track
of them. -/
theorem votes_of_sound {blocks : List Block} (hsound : Sound sys cr history)
    (hideal : Unforgeable sys cr history)
    (hmade : ∀ x ∈ history, x.2.Made cr (sys.config x.1))
    (hblocks : history.accepted sys cr ⊆ blocks) :
    Lib.Votes sys.quorums.untrusted (Link cr.sha256 blocks) (history.votes sys cr) ∧
      ∀ p, history.Tracks sys cr p := by
  induction history with
  | nil => exact ⟨trivial, fun _ => History.tracks_nil⟩
  | cons x history ih =>
    obtain ⟨p, e⟩ := x
    obtain ⟨⟨hev, hwrap⟩, hsound⟩ := hsound
    obtain ⟨hsigns, hideal⟩ := hideal
    obtain ⟨hvotes, htracks⟩ := ih hsound hideal
      (fun x hx => hmade x (List.mem_cons_of_mem _ hx))
      (fun b hb => hblocks (List.mem_append_right _ hb))
    cases hset : (History.reply sys cr history (p, e)).set with
    | false =>
      have hsame : History.votes sys cr ((p, e) :: history) = History.votes sys cr history := by
        unfold History.votes
        rw [History.signed_cons_of_not hset]
      rw [hsame]
      refine ⟨hvotes, fun q => (htracks q).cons ?_ fun w hw _ => hsame ▸ hw⟩
      by_cases hq : p = q
      · subst hq
        rw [History.tf_cons_self]
        exact Event.call_of_not_set hset
      · exact History.tf_cons_ne hq
    | true =>
      have hfair : Event.Fair sys cr history p e :=
        ⟨hev (Or.inl hset), hmade _ List.mem_cons_self, hsigns⟩
      have hacc := History.event_accepted hset
      have hblock : ∀ b ∈ e.block?, b ∈ blocks := fun b hb =>
        hblocks (History.block_mem_accepted hset hb)
      refine ⟨?_, fun q => ?_⟩
      · unfold History.votes
        rw [History.signed_cons hset, List.filterMap_cons]
        cases hw : voteOf (p, (History.reply sys cr history (p, e)).rdata) with
        | none => exact hvotes
        | some w =>
          refine ⟨⟨fun w' hw' hvoter => ?_, ?_⟩, hvotes⟩
          · exact before_of_accepted (htracks p) hacc hw hw' hvoter
          · exact admissible_of_accepted (htracks p) hfair hacc hblock hw
      · by_cases hq : p = q
        · subst hq
          exact (htracks p).step hfair hset (hwrap hset)
        · refine (htracks q).cons (History.tf_cons_ne hq) fun w hw hvoter => ?_
          refine ((History.mem_votes_cons hset).mp hw).resolve_left fun hw => hq ?_
          obtain ⟨hp, -⟩ := phase_index_of_vote hw hacc.counter.2
          exact hp.symm.trans hvoter

end Histories

end Raftel.HotStuff
