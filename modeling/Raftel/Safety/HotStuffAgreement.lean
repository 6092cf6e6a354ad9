import Raftel.Safety.Agreement
import Raftel.Safety.HotStuffVotes

/-!
# Agreement of HotStuff

Two correct replicas of `BASIC_HOTSTUFF` execute blocks of one chain, in every run whose events are
sound.  What is executed is `commit` data that a quorum has signed; a quorum of votes in the `commit`
stage is a quorum that has locked the block, and by the rule of the locks what a quorum signs in later
views extends it.

* `agreement_of_sound` : agreement, in every run whose events are sound
* `executed_accepted` : what is executed is the hash of a block that a correct replica accepted
* `not_agreement_repeated_signature` : a Byzantine leader repeats its own signature, and two correct
  replicas execute two blocks that extend genesis
-/

namespace Raftel.HotStuff

open Lib

/-! ### Chains of blocks -/

/-- The `prevHash` link of `c` leads to `b`, which is one of the blocks. -/
def Parent (sha : Text → Digest) (blocks : List Block) (c b : Block) : Prop :=
  b ∈ blocks ∧ c.prevHash.hash = (b.hash sha).hash

/-- Links lead from one block to the other. -/
def Extends (sha : Text → Digest) (blocks : List Block) : Block → Block → Prop :=
  Relation.TransGen (Parent sha blocks)

/-- The hash function does not collide on the blocks. -/
def CollisionFree (sha : Text → Digest) (blocks : List Block) : Prop :=
  ∀ b ∈ blocks, ∀ b' ∈ blocks, (b.hash sha).hash = (b'.hash sha).hash → b.toText = b'.toText

/-- Different blocks have different texts. -/
def TextsDiffer (blocks : List Block) : Prop :=
  ∀ b ∈ blocks, ∀ b' ∈ blocks, b.toText = b'.toText → b = b'

instance (sha : Text → Digest) (blocks : List Block) : Decidable (CollisionFree sha blocks) :=
  inferInstanceAs (Decidable (∀ b ∈ blocks, _))

instance (blocks : List Block) : Decidable (TextsDiffer blocks) :=
  inferInstanceAs (Decidable (∀ b ∈ blocks, _))

/-- Two texts, two blocks. -/
theorem textsDiffer_of_texts {blocks : List Block} {c c' : Block} (hne : c.toText ≠ c'.toText)
    (h : ∀ b ∈ blocks, b = c ∨ b = c') : TextsDiffer blocks := by
  intro b hb b' hb' htext
  rcases h b hb with rfl | rfl <;> rcases h b' hb' with rfl | rfl
  · rfl
  · exact absurd htext hne
  · exact absurd htext.symm hne
  · rfl

section Chains

variable {sha : Text → Digest} {blocks : List Block}

/-- A chain of hashes is a chain of the blocks with these hashes. -/
theorem extends_of_links (hcoll : CollisionFree sha blocks) (htext : TextsDiffer blocks) {h : Digest}
    {b : Block} (hb : b ∈ blocks) (hlinks : Relation.TransGen (Link sha blocks) h (b.hash sha).hash) :
    ∀ c ∈ blocks, (c.hash sha).hash = h → Extends sha blocks c b := by
  -- the block of a hash is the one that the link is about
  have hprev : ∀ {g g' : Digest}, Link sha blocks g g' → ∀ c ∈ blocks, (c.hash sha).hash = g →
      c.prevHash.hash = g' := by
    rintro g g' ⟨d, hd, hdhash, hdprev⟩ c hc hchash
    rw [htext c hc d hd (hcoll c hc d hd (hchash.trans hdhash.symm))]
    exact hdprev
  induction hlinks using Relation.TransGen.head_induction_on with
  | single hlink => exact fun c hc hchash => .single ⟨hb, hprev hlink c hc hchash⟩
  | @head g g' hlink hrest ih =>
    intro c hc hchash
    obtain ⟨d, hd, hdhash⟩ : ∃ d ∈ blocks, (d.hash sha).hash = g' := by
      rcases Relation.TransGen.head'_iff.mp hrest with ⟨-, ⟨d, hd, hdhash, -⟩, -⟩
      exact ⟨d, hd, hdhash⟩
    exact .head ⟨hd, (hprev hlink c hc hchash).trans hdhash.symm⟩ (ih d hd hdhash)

end Chains

/-! ### Runs -/

section Runs

variable {sys : System} {cr : Crypto Unit}

namespace Run

variable (run : Run sys cr)

/-- The blocks that the correct replicas accepted. -/
def accepted : List Block := History.accepted sys cr run.history

/-- **Agreement.**  Of two blocks that correct replicas executed, the one of the later view is or extends
the other. -/
def Agreement : Prop :=
  ∀ p p', sys.Correct p → sys.Correct p' →
    ∀ rd ∈ (run.state p).executed, ∀ rd' ∈ (run.state p').executed, rd.propv ≤ rd'.propv →
      ∀ b ∈ run.accepted, ∀ b' ∈ run.accepted, (b.hash cr.sha256).hash = rd.proph.hash →
        (b'.hash cr.sha256).hash = rd'.proph.hash →
          b' = b ∨ Extends cr.sha256 run.accepted b' b

end Run

/-- What the events of a replica explain. -/
theorem Reaches.explains {Key : Type} {cfg : HandlerConfig Key} {cr : Crypto Key} {es : List Event}
    {s : State} (h : Reaches cfg cr es s) : Explains cfg cr .init es s := by
  induction h with
  | init => exact Explains.refl _
  | react _ _ hexplains ih => exact ih.trans hexplains

theorem History.mem_eventsOf {history : History} {p : PID} {e : Event} :
    e ∈ history.eventsOf p ↔ (p, e) ∈ history := by
  unfold eventsOf
  rw [List.mem_filterMap]
  constructor
  · rintro ⟨⟨q, e'⟩, hx, h⟩
    split at h
    · next hq =>
      cases h
      exact hq ▸ hx
    · exact nomatch h
  · exact fun h => ⟨(p, e), h, if_pos rfl⟩

variable {run : Run sys cr} {p : PID}

theorem Run.explains (hp : sys.Correct p) :
    Explains (sys.config p) cr .init (run.history.eventsOf p) (run.state p) :=
  (run.reaches p hp).explains

theorem Run.made {x : PID × Event} (hx : x ∈ run.history) : x.2.Made cr (sys.config x.1) :=
  (Run.explains (run.correct x hx)).made _ (History.mem_eventsOf.mpr hx)

/-- An execution is an event of the history. -/
theorem Run.exists_executed (hp : sys.Correct p) {rd : RData} (hrd : rd ∈ (run.state p).executed) :
    ∃ e, (p, e) ∈ run.history ∧ e.executed? = some rd := by
  rw [(Run.explains hp).executed] at hrd
  obtain ⟨e, he, hexecuted⟩ := List.mem_filterMap.mp (List.mem_reverse.mp hrd)
  exact ⟨e, History.mem_eventsOf.mp he, hexecuted⟩

/-! ### What is executed -/

section Sound

variable (hideal : Unforgeable sys cr run.history) (hsound : Sound sys cr run.history)
include hideal hsound

/-- What is executed is `commit` data for a hash, signed by a quorum. -/
theorem Run.executed_commit (hp : sys.Correct p) {rd : RData} (hrd : rd ∈ (run.state p).executed) :
    rd.phase = Phase1.commit.byte ∧ rd.proph.set = true ∧
      run.history.SignedByQuorum sys cr rd := by
  obtain ⟨e, he, hexecuted⟩ := Run.exists_executed hp hrd
  obtain ⟨history, hsuffix, hev, -⟩ := hsound.exists_suffix he
  have hsub : History.signed sys cr history ⊆ run.history.signed sys cr :=
    History.signed_subset_of_suffix hsuffix
  have hmade := Run.made he
  have hev := hev (Or.inr (by rw [hexecuted]; rfl))
  cases e with
  | sign => exact nomatch hexecuted
  | prepare block just => exact nomatch hexecuted
  | store just => exact nomatch hexecuted
  | certified just =>
    cases hexecuted
    obtain ⟨hphase, hsize, hverify⟩ := hmade
    obtain ⟨older, holder, hsigns⟩ := hideal.exists_suffix he
    have hquorum := signedByQuorum_of_verify hverify hsize hev (hsigns just rfl)
    exact ⟨hphase, hev.1, hquorum.mono (History.signed_subset_of_suffix holder)⟩
  | collected rdata =>
    cases hexecuted
    exact ⟨hev.1, hev.2.1, hev.2.2.mono hsub⟩

/-- It has the votes of a quorum in the `commit` stage. -/
theorem Run.executed_backed (hp : sys.Correct p) {rd : RData} (hrd : rd ∈ (run.state p).executed) :
    Backed sys.quorums.untrusted (run.history.votes sys cr) rd.propv 2 rd.proph.hash := by
  obtain ⟨hphase, hset, hquorum⟩ := Run.executed_commit hideal hsound hp hrd
  have hbacked := hquorum.backed hset (by rw [hphase]; decide)
  rw [hphase] at hbacked
  exact hbacked

theorem Run.votes : Lib.Votes sys.quorums.untrusted (Link cr.sha256 run.accepted)
    (run.history.votes sys cr) :=
  (votes_of_sound hsound hideal (fun _ hx => Run.made hx) (List.Subset.refl _)).1

/-- **What is executed was accepted**: it is the hash of a block that a correct replica has accepted. -/
theorem executed_accepted (hp : sys.Correct p) {rd : RData} (hrd : rd ∈ (run.state p).executed) :
    ∃ b ∈ run.accepted, (b.hash cr.sha256).hash = rd.proph.hash := by
  obtain ⟨q, hq⟩ := (Run.executed_backed hideal hsound hp hrd).exists_vote
  obtain ⟨-, b, hb, hhash, -⟩ := (Run.votes hideal hsound).exists_link hq
  exact ⟨b, hb, hhash⟩

end Sound

/-- **Agreement.**  In every run of replicas that react to any inputs, with ideal signatures and a hash
function without collisions on the accepted blocks: if all events are sound and different accepted blocks
have different texts, then of two blocks that correct replicas executed, the one of the later view is or
extends the other. -/
theorem agreement_of_sound (sys : System) (cr : Crypto Unit) (run : Run sys cr)
    (hideal : Unforgeable sys cr run.history) (hcoll : CollisionFree cr.sha256 run.accepted)
    (hsound : Sound sys cr run.history) (htext : TextsDiffer run.accepted) : run.Agreement := by
  intro p p' hp hp' rd hrd rd' hrd' hle b hb b' hb' hhash hhash'
  have hx := Run.executed_backed hideal hsound hp hrd
  have hy := Run.executed_backed hideal hsound hp' hrd'
  rw [← hhash] at hx
  rw [← hhash'] at hy
  rcases (Run.votes hideal hsound).agreement (by decide) hx hy hle with heq | hlinks
  · exact Or.inl (htext b' hb' b hb (hcoll b' hb' b hb heq))
  · exact Or.inr (extends_of_links hcoll htext hb hlinks b' hb' rfl)

end Runs

/-! ### Two views of a stable leader -/

section TwoViews

/-- Four replicas; the leader of every view is Byzantine. -/
def stableSystem : System where
  f := 1
  f_pos := Nat.one_pos
  tee := ∅
  tee_sub := noTEESystem.tee_sub
  byz := {0}
  byz_sub := hybridSystem.byz_sub
  byz_card := hybridSystem.byz_card
  sha256 := chainSha
  maxViews := 0
  fixedLeaderMode := true
  fixedLeader := 0

/-- The new-view data of a replica that holds the block with the hash. -/
def newViewData (v : View) (h : Hash) : RData := ⟨noHash, v, h, 0, Phase1.newview.byte⟩

/-- The data of the votes for a block. -/
def voteData (sha : Text → Digest) (v : View) (b : Block) (parent : Hash) (phase : Phase1) : RData :=
  ⟨b.hash sha, v, parent, 0, phase.byte⟩

/-- What each of the voters signs in a view. -/
def viewData (v : View) (b : Block) (parent : Hash) : List RData :=
  [newViewData v parent, voteData chainSha v b parent .prepare, voteData chainSha v b newHash .precommit,
    voteData chainSha v b newHash .commit]

/-- The hash of the block of the first view. -/
def firstHash : Hash := ⟨emptyBlockDigest, true⟩

/-- Replicas 0, 1 and 2 vote in both views. -/
def stableCrypto : Crypto Unit :=
  idealCrypto chainSha fun p =>
    if p < 3 then (viewData 0 (emptyBlock 11) newHash ++ viewData 1 nextBlock firstHash).map .rdata
    else []

def certificateOf (rd : RData) : Just := ⟨true, rd, .ofList [idealSign 0, idealSign 1, idealSign 2]⟩

/-- Replicas 1 and 2 receive the same input. -/
def bothReceive (input : Input) (es : List Event) : List Step := [(2, input, es), (1, input, es)]

def bothReceiveCertificate (msg : MsgVoteComb → Msg) (rd : RData) (es : Just → List Event) :
    List Step :=
  bothReceive (.peer (msg ⟨rd, (certificateOf rd).signs⟩)) (es (certificateOf rd))

/-- A view, from the proposal to the execution, which starts the next view. -/
def viewSteps (v : View) (b : Block) (parent : Hash) : List Step :=
  let just : Just := ⟨true, newViewData v parent, .one (idealSign 1)⟩
  bothReceiveCertificate .commit (voteData chainSha v b newHash .commit)
      (fun just => [.sign, .certified just]) ++
    bothReceiveCertificate .precommit (voteData chainSha v b newHash .precommit)
      (fun just => [.store just]) ++
    bothReceiveCertificate .prepare (voteData chainSha v b parent .prepare)
      (fun just => [.store just]) ++
    bothReceive (.peer (.ldrprepare ⟨⟨just, b⟩, .one (idealSign 0)⟩)) [.prepare b just]

def stableSteps : List Step :=
  viewSteps 1 nextBlock firstHash ++ viewSteps 0 (emptyBlock 11) newHash ++
    bothReceive (.start 0) [.sign]

def stableRun : Run stableSystem stableCrypto :=
  .ofSteps 9 stableSteps (by decide +kernel) (by decide +kernel)

/-- In two sound views two replicas execute two blocks, and they agree. -/
theorem agreement_stable_leader :
    (Unforgeable stableSystem stableCrypto stableRun.history ∧
      CollisionFree stableCrypto.sha256 stableRun.accepted ∧
      Sound stableSystem stableCrypto stableRun.history ∧ TextsDiffer stableRun.accepted) ∧
    (((stableRun.history.eventsOf 1).filterMap Event.executed?).map RData.propv = [1, 0] ∧
      ((stableRun.history.eventsOf 2).filterMap Event.executed?).map RData.propv = [1, 0]) ∧
      stableRun.Agreement := by
  -- the run is evaluated once for all that is decided about it
  obtain ⟨hideal, hcoll, hsound, hexecuted⟩ :
      Unforgeable stableSystem stableCrypto stableRun.history ∧
        CollisionFree stableCrypto.sha256 stableRun.accepted ∧
        Sound stableSystem stableCrypto stableRun.history ∧
        ((stableRun.history.eventsOf 1).filterMap Event.executed?).map RData.propv = [1, 0] ∧
          ((stableRun.history.eventsOf 2).filterMap Event.executed?).map RData.propv = [1, 0] := by
    decide +kernel
  have htext : TextsDiffer stableRun.accepted := by
    have hne : (emptyBlock 11).toText ≠ nextBlock.toText := by decide +kernel
    refine textsDiffer_of_texts hne fun b hb => ?_
    obtain ⟨x, hx, hblock⟩ := History.exists_of_mem_accepted hb
    have hall : ∀ x ∈ stableRun.history, ∀ b ∈ x.2.block?, b = emptyBlock 11 ∨ b = nextBlock := by
      simp [stableRun, Run.ofSteps, History.ofSteps, stableSteps, viewSteps, bothReceive,
        bothReceiveCertificate, Event.block?]
    exact hall x hx b hblock
  exact ⟨⟨hideal, hcoll, hsound, htext⟩, hexecuted,
    agreement_of_sound stableSystem stableCrypto stableRun hideal hcoll hsound htext⟩

end TwoViews

/-! ### A repeated signature -/

section Repeated

/-- Four replicas; the leader of the first view is Byzantine. -/
def byzantineLeader : System := { stableSystem with sha256 := twoBlocksSha, fixedLeaderMode := false }

/-- What the leader signs for a block. -/
def leaderData (id : ℕ) (phase : Phase1) : RData :=
  voteData twoBlocksSha 0 (emptyBlock id) newHash phase

/-- Nobody but the leader signs anything that is verified. -/
def leaderCrypto : Crypto Unit :=
  idealCrypto twoBlocksSha fun p =>
    if p = 0 then
      [newViewData 0 newHash, leaderData 11 .prepare, leaderData 22 .prepare, leaderData 11 .commit,
        leaderData 22 .commit].map .rdata
    else []

/-- The signature of the leader, three times. -/
def repeatedCommit (id : ℕ) : Just :=
  ⟨true, leaderData id .commit, .ofList [idealSign 0, idealSign 0, idealSign 0]⟩

def leaderNewView : Just := ⟨true, newViewData 0 newHash, .one (idealSign 0)⟩

/-- Replica `p` receives the proposal of a block and the commit. -/
def repeatedSteps (p : PID) (id : ℕ) : List Step :=
  [(p, .peer (.commit ⟨leaderData id .commit, (repeatedCommit id).signs⟩),
      [.sign, .sign, .sign, .certified (repeatedCommit id)]),
    (p, .peer (.ldrprepare ⟨⟨leaderNewView, emptyBlock id⟩, .one (idealSign 0)⟩),
      [.prepare (emptyBlock id) leaderNewView]),
    (p, .start 0, [.sign])]

def repeatedRun : Run byzantineLeader leaderCrypto :=
  .ofSteps 9 (repeatedSteps 2 22 ++ repeatedSteps 1 11) (by decide +kernel)
    (by decide +kernel)

/-- **A repeated signature breaks agreement.**  Replicas 1 and 2 execute different blocks in view 0, both
of which extend genesis. -/
theorem not_agreement_repeated_signature :
    Unforgeable byzantineLeader leaderCrypto repeatedRun.history ∧
      CollisionFree leaderCrypto.sha256 repeatedRun.accepted ∧
      TextsDiffer repeatedRun.accepted ∧ ¬ repeatedRun.Agreement := by
  have htext : TextsDiffer repeatedRun.accepted := by
    have hne : (emptyBlock 11).toText ≠ (emptyBlock 22).toText := by decide +kernel
    refine textsDiffer_of_texts hne fun b hb => ?_
    obtain ⟨x, hx, hblock⟩ := History.exists_of_mem_accepted hb
    have hall : ∀ x ∈ repeatedRun.history, ∀ b ∈ x.2.block?,
        b = emptyBlock 11 ∨ b = emptyBlock 22 := by
      simp [repeatedRun, Run.ofSteps, History.ofSteps, repeatedSteps, Event.block?]
    exact hall x hx b hblock
  refine ⟨by decide +kernel, by decide +kernel, htext, fun h => ?_⟩
  have hexecuted : ∀ p, byzantineLeader.Correct p →
      (repeatedRun.state p).executed =
        ((repeatedRun.history.eventsOf p).filterMap Event.executed?).reverse := fun p hp =>
    (Run.explains hp).executed
  have hone : leaderData 11 .commit ∈ (repeatedRun.state 1).executed := by
    rw [hexecuted 1 (by decide)]
    decide +kernel
  have htwo : leaderData 22 .commit ∈ (repeatedRun.state 2).executed := by
    rw [hexecuted 2 (by decide)]
    decide +kernel
  have haccepted : emptyBlock 11 ∈ repeatedRun.accepted ∧ emptyBlock 22 ∈ repeatedRun.accepted := by
    constructor
    · refine History.mem_accepted_of_drop (i := 10) (x := (1, .prepare (emptyBlock 11) leaderNewView))
        rfl ?_ rfl
      decide +kernel
    · refine History.mem_accepted_of_drop (i := 4) (x := (2, .prepare (emptyBlock 22) leaderNewView))
        rfl ?_ rfl
      decide +kernel
  rcases h 1 2 (by decide) (by decide) _ hone _ htwo le_rfl _ haccepted.1 _ haccepted.2 rfl rfl
    with heq | hext
  · exact absurd (congrArg Block.id heq) (by decide)
  · -- no accepted block has the hash of genesis
    obtain ⟨b, ⟨hb, hlink⟩, -⟩ := Relation.TransGen.head'_iff.mp hext
    have hnone : ∀ b ∈ repeatedRun.accepted, (b.hash leaderCrypto.sha256).hash ≠ newHash.hash := by
      decide +kernel
    exact hnone b hb hlink.symm

end Repeated

end Raftel.HotStuff
