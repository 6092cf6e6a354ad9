import Raftel.Equiv.Handler
import Raftel.Equiv.Runs
import Raftel.Safety.PhaseChain
import Raftel.System

/-!
# One vote for each view

A correct replica should vote for at most one block in a view: the `prepare`, `precommit` and `commit`
data that its component signs for a view name one block.  Nothing in the handlers or in the component
records that a block was voted for, so a leader that sends two proposals in one view gets two votes.

* `oneVotePerView_of_votesAgree` : along every run in which each accepted call agrees with the block
  the replica has stored and prepared in that view, there is one vote for each view
* `not_oneVotePerView_two_proposals` : a run with two proposals
-/

namespace Raftel

variable {Key : Type}

/-- All signed data of one view that name a block name the same one, whatever their phases. -/
def OneVotePerView (calls : List CallRecord) : Prop :=
  ∀ r ∈ calls, ∀ r' ∈ calls, ∀ rd rd', r.rdata? = some rd → r'.rdata? = some rd' →
    rd.proph.set = true → rd'.proph.set = true → rd.propv = rd'.propv → rd.proph = rd'.proph

/-- The hash that a call asks the component to vote for. -/
def Call.voteFor? (sha : Text → Digest) : Call → Option Hash
  | prepare block _ _ => some (block.hash sha)
  | store just => some just.rdata.proph
  | _ => none

/-- The vote for `h` agrees with what the replica holds for the component's view before the call: the
stored block, and the prepared hash if it is of this view. -/
def CallRecord.Agrees (sha : Text → Digest) (r : CallRecord) (h : Hash) : Prop :=
  (h.set = true → ∀ b ∈ r.stored, b.hash sha = h) ∧
    (r.pre.prepv = r.pre.view → r.pre.preph.set = true → r.pre.preph = h)

instance (sha : Text → Digest) (r : CallRecord) (h : Hash) : Decidable (r.Agrees sha h) :=
  inferInstanceAs (Decidable (_ ∧ _))

/-- Every accepted vote agrees. -/
def CallRecord.VotesAgree (sha : Text → Digest) (r : CallRecord) : Prop :=
  r.rdata?.isSome → ∀ h ∈ r.call.voteFor? sha, r.Agrees sha h

instance (sha : Text → Digest) (r : CallRecord) : Decidable (r.VotesAgree sha) :=
  inferInstanceAs (Decidable (_ → _))

/-! ### The invariant -/

/-- A vote for `h` in the component's current view left its trace: the stored block or the prepared
hash. -/
def Recorded (sha : Text → Digest) (tc : CombState) (blocks : StdMap View Block) (h : Hash) : Prop :=
  (∃ b, blocks.lookup tc.view = some b ∧ b.hash sha = h) ∨ (tc.prepv = tc.view ∧ tc.preph = h)

/-- The invariant: one vote for each view so far, none for a later view than the component's, and
those of its current view are recorded. -/
structure VoteInv (sha : Text → Digest) (calls : List CallRecord) (tc : CombState)
    (blocks : StdMap View Block) : Prop where
  one : OneVotePerView calls
  le : ∀ r ∈ calls, ∀ rd, r.rdata? = some rd → rd.propv ≤ tc.view
  current : ∀ r ∈ calls, ∀ rd, r.rdata? = some rd → rd.proph.set = true → rd.propv = tc.view →
    Recorded sha tc blocks rd.proph

/-- The blocks of the host after a call: the block of an accepted proposal is stored. -/
def CallRecord.blocksAfter (r : CallRecord) (blocks : StdMap View Block) : StdMap View Block :=
  match r.call with
  | .prepare block _ _ => if r.rdata?.isSome then blocks.insert r.pre.view block else blocks
  | _ => blocks

section Step

variable {sha : Text → Digest} {calls : List CallRecord} {tc : CombState}
  {blocks : StdMap View Block} {env : CheckEnv} {r : CallRecord}

/-- A vote that agrees is for the block of the earlier votes of the view. -/
theorem VoteInv.eq_of_votesAgree (hinv : VoteInv sha calls tc blocks) (hsha : env.sha256 = sha)
    (hpre : r.pre = tc) (hstored : r.stored = blocks.lookup tc.view) (hvalid : r.Valid env)
    (hagree : r.VotesAgree sha) {rd : RData} (hrd : r.rdata? = some rd) (hset : rd.proph.set = true)
    {r' : CallRecord} (hr' : r' ∈ calls) {rd' : RData} (hrd' : r'.rdata? = some rd')
    (hset' : rd'.proph.set = true) (hview : rd'.propv = tc.view) : rd'.proph = rd.proph := by
  have hacc := hvalid.accepts hrd
  have hvote : r.call.voteFor? sha = some rd.proph := by
    obtain ⟨pre, call, reply, post, stored⟩ := r
    cases hacc with
    | sign data => simp [data, noHash] at hset
    | prepare proof parent safe data => rw [data, ← hsha]; rfl
    | store cert view phase data => rw [data]; rfl
  have hag := hagree (Option.isSome_iff_exists.mpr ⟨rd, hrd⟩) _ hvote
  rcases hinv.current r' hr' rd' hrd' hset' hview with ⟨b, hb, hhash⟩ | ⟨hprepv, hpreph⟩
  · rw [← hhash]
    exact hag.1 hset b (hstored.trans hb)
  · rw [← hpreph, ← hpre]
    refine hag.2 ?_ ?_
    · rw [hpre]
      exact hprepv
    · rw [hpre, hpreph]
      exact hset'

/-- Votes of the current view stay recorded while the view lasts. -/
theorem VoteInv.recorded_post (hinv : VoteInv sha calls tc blocks) (hsha : env.sha256 = sha)
    (hpre : r.pre = tc) (hstored : r.stored = blocks.lookup tc.view) (hvalid : r.Valid env)
    (hagree : r.VotesAgree sha) {rd : RData} (hrd : r.rdata? = some rd)
    (hview : r.post.view = tc.view) {r' : CallRecord} (hr' : r' ∈ calls ++ [r]) {rd' : RData}
    (hrd' : r'.rdata? = some rd') (hset' : rd'.proph.set = true) (hcur : rd'.propv = tc.view) :
    Recorded sha r.post (r.blocksAfter blocks) rd'.proph := by
  have hacc := hvalid.accepts hrd
  have hsome : r.rdata?.isSome := Option.isSome_iff_exists.mpr ⟨rd, hrd⟩
  -- every vote of the view is for the block of this call, if it names one
  have heq : rd.proph.set = true → rd'.proph = rd.proph := by
    intro hset
    rcases List.mem_append.mp hr' with hr' | hr'
    · exact hinv.eq_of_votesAgree hsha hpre hstored hvalid hagree hrd hset hr' hrd' hset' hcur
    · rw [List.mem_singleton.mp hr', hrd, Option.some.injEq] at hrd'
      rw [hrd']
  -- a call that names no block is not the one that voted
  have hold : rd.proph.set = false → Recorded sha tc blocks rd'.proph := by
    intro hset
    rcases List.mem_append.mp hr' with hr' | hr'
    · exact hinv.current r' hr' rd' hrd' hset' hcur
    · rw [List.mem_singleton.mp hr', hrd, Option.some.injEq] at hrd'
      rw [hrd', hset'] at hset
      exact absurd hset (by decide)
  unfold CallRecord.blocksAfter
  obtain ⟨pre, call, reply, post, stored⟩ := r
  dsimp only at hpre hstored hview hacc ⊢
  subst hpre
  cases hacc with
  | sign data next =>
    subst next
    unfold Recorded
    rw [hview, CombState.increment_preph, CombState.increment_prepv]
    exact hold (by rw [data]; rfl)
  | @prepare block acc nvs proof parent safe data next =>
    refine Or.inl ⟨block, ?_, ?_⟩
    · dsimp only
      rw [if_pos hsome, hview, AList.lookup_insert]
    · rw [heq (by rw [data]; rfl), data, ← hsha]
  | @store just cert view phase data next =>
    subst next
    have hproph : just.rdata.proph = rd.proph := by rw [data]
    cases hset : rd.proph.set with
    | true =>
      refine Or.inr ⟨?_, ?_⟩
      · rw [hview, CombState.increment_prepv, CombState.stored_prepv, view]
      · rw [CombState.increment_preph, CombState.stored_preph, heq hset, hproph]
    | false =>
      rcases hold hset with ⟨b, hb, hhash⟩ | ⟨hprepv, hpreph⟩
      · exact Or.inl ⟨b, by rw [hview]; exact hb, hhash⟩
      · -- the prepared hash of this view would be overwritten by an unset one
        have hag := hagree hsome just.rdata.proph rfl
        have hpset : pre.preph.set = true := by rw [hpreph]; exact hset'
        have := hag.2 hprepv hpset
        rw [← this] at hproph
        rw [← hproph, hpset] at hset
        exact absurd hset (by decide)

/-- **One call keeps the invariant.** -/
theorem VoteInv.snoc (hinv : VoteInv sha calls tc blocks) (hsha : env.sha256 = sha)
    (hpre : r.pre = tc) (hstored : r.stored = blocks.lookup tc.view) (hvalid : r.Valid env)
    (hagree : r.VotesAgree sha) (hwrap : r.NoWrap) :
    VoteInv sha (calls ++ [r]) r.post (r.blocksAfter blocks) := by
  cases hrd : r.rdata? with
  | none =>
    -- a refused call changes nothing
    have hpost : r.post = tc := (hvalid.post_eq hrd).trans hpre
    have hblocks : r.blocksAfter blocks = blocks := by
      unfold CallRecord.blocksAfter
      split <;> simp [hrd]
    have hmem : ∀ r' ∈ calls ++ [r], ∀ rd, r'.rdata? = some rd → r' ∈ calls := by
      intro r' hr' rd hrd'
      rcases List.mem_append.mp hr' with hr' | hr'
      · exact hr'
      · rw [List.mem_singleton.mp hr', hrd] at hrd'
        exact absurd hrd' (by simp)
    rw [hpost, hblocks]
    exact ⟨fun r₁ h₁ r₂ h₂ rd₁ rd₂ e₁ e₂ =>
        hinv.one r₁ (hmem r₁ h₁ rd₁ e₁) r₂ (hmem r₂ h₂ rd₂ e₂) rd₁ rd₂ e₁ e₂,
      fun r' hr' rd' hrd' => hinv.le r' (hmem r' hr' rd' hrd') rd' hrd',
      fun r' hr' rd' hrd' => hinv.current r' (hmem r' hr' rd' hrd') rd' hrd'⟩
  | some rd =>
    obtain ⟨hpropv, -⟩ := (hvalid.accepts hrd).counter
    rw [hpre] at hpropv
    have hview := hwrap.view hvalid hrd
    rw [hpre] at hview
    have hle : ∀ r' ∈ calls ++ [r], ∀ rd', r'.rdata? = some rd' → rd'.propv ≤ tc.view := by
      intro r' hr' rd' hrd'
      rcases List.mem_append.mp hr' with hr' | hr'
      · exact hinv.le r' hr' rd' hrd'
      · rw [List.mem_singleton.mp hr', hrd, Option.some.injEq] at hrd'
        rw [← hrd', hpropv]
    have heq : rd.proph.set = true → ∀ r' ∈ calls, ∀ rd', r'.rdata? = some rd' →
        rd'.proph.set = true → rd'.propv = tc.view → rd'.proph = rd.proph :=
      fun hset r' hr' rd' hrd' =>
        hinv.eq_of_votesAgree hsha hpre hstored hvalid hagree hrd hset hr' hrd'
    refine ⟨?_, fun r' hr' rd' hrd' => ?_, fun r' hr' rd' hrd' hset' hcur => ?_⟩
    · intro r₁ h₁ r₂ h₂ rd₁ rd₂ e₁ e₂ s₁ s₂ hv
      rcases List.mem_append.mp h₁ with h₁ | h₁ <;> rcases List.mem_append.mp h₂ with h₂ | h₂
      · exact hinv.one r₁ h₁ r₂ h₂ rd₁ rd₂ e₁ e₂ s₁ s₂ hv
      · rw [List.mem_singleton.mp h₂, hrd, Option.some.injEq] at e₂
        subst e₂
        exact heq s₂ r₁ h₁ rd₁ e₁ s₁ (hv.trans hpropv)
      · rw [List.mem_singleton.mp h₁, hrd, Option.some.injEq] at e₁
        subst e₁
        exact (heq s₁ r₂ h₂ rd₂ e₂ s₂ (hv.symm.trans hpropv)).symm
      · rw [List.mem_singleton.mp h₁, hrd, Option.some.injEq] at e₁
        rw [List.mem_singleton.mp h₂, hrd, Option.some.injEq] at e₂
        rw [← e₁, ← e₂]
    · have hmono : tc.view ≤ r.post.view := by
        rcases hview with ⟨-, hsame⟩ | ⟨-, hnext⟩
        · exact hsame.ge
        · exact hnext ▸ Nat.le_succ tc.view
      exact (hle r' hr' rd' hrd').trans hmono
    · rcases hview with ⟨-, hsame⟩ | ⟨-, hnext⟩
      · exact hinv.recorded_post hsha hpre hstored hvalid hagree hrd hsame hr' hrd' hset'
          (hcur.trans hsame)
      · have hlt := hle r' hr' rd' hrd'
        rw [hcur, hnext] at hlt
        exact absurd hlt (Nat.not_succ_le_self _)

end Step

/-! ### Runs -/

theorem Reply.isSome_rdata? (reply : Reply) : reply.rdata?.isSome = reply.toJust.set := by
  cases reply with
  | just j => cases h : j.set <;> simp [Reply.rdata?, Reply.toJust, h]
  | accum a => rfl

/-- The record of a call follows the checker. -/
theorem HandlerState.called_valid {cfg : HandlerConfig Key} {o : Oracle Key} (s : HandlerState)
    (c : Call) :
    CallRecord.Valid (cfg.component.env (o.crypto s.calls))
      ⟨s.tc, c, (s.called cfg o c).1, (s.called cfg o c).2.tc, s.blocks.lookup s.tc.view⟩ :=
  cfg.component.call_outcome (o.crypto s.calls) s.tc c

theorem Component.env_sha256 (comp : Component Key) (cr : Crypto Key) :
    (comp.env cr).sha256 = cr.sha256 := by
  cases comp <;> rfl

/-- The invariant of a replica whose calls agree. -/
def VoteInvOf (sha : Text → Digest) (s : HandlerState) : Prop :=
  (∀ r ∈ s.calls, r.VotesAgree sha ∧ r.NoWrap) → VoteInv sha s.calls s.tc s.blocks

theorem voteInvOf_called {cfg : HandlerConfig Key} {o : Oracle Key} {s : HandlerState} (c : Call)
    {blocks : StdMap View Block}
    (hblocks : CallRecord.blocksAfter
      ⟨s.tc, c, (s.called cfg o c).1, (s.called cfg o c).2.tc, s.blocks.lookup s.tc.view⟩ s.blocks =
        blocks)
    (hs : VoteInvOf o.sha256 s) :
    VoteInvOf o.sha256 { (s.called cfg o c).2 with blocks := blocks } := by
  intro hall
  have hlast := hall _ (List.mem_append_right s.calls (List.mem_singleton_self _))
  have hinv := hs fun r hr => hall r (List.mem_append_left _ hr)
  exact hblocks ▸ hinv.snoc (cfg.component.env_sha256 _) rfl rfl (s.called_valid c) hlast.1 hlast.2

theorem voteInvOf_atom {cfg : HandlerConfig Key} {o : Oracle Key} (s s' : HandlerState)
    (hatom : Atom cfg o s s') (hs : VoteInvOf o.sha256 s) : VoteInvOf o.sha256 s' := by
  cases hatom with
  | @call c hc =>
    refine voteInvOf_called c ?_ hs
    cases c with
    | prepare block acc nvs => exact absurd rfl (hc block acc nvs)
    | sign => rfl
    | store just => rfl
    | accum justs => rfl
    | accumSp just => rfl
  | @prepare block acc nvs hview =>
    unfold HandlerState.preparedWith
    have hsome := (s.called cfg o (.prepare block acc nvs)).1.isSome_rdata?
    dsimp only
    split
    · next hset =>
      refine voteInvOf_called (.prepare block acc nvs) ?_ hs
      -- the host stores the block under its own view, which is the component's
      have : (s.called cfg o (.prepare block acc nvs)).2.view = s.tc.view := (hview hset).symm
      rw [this]
      exact if_pos (hsome.trans hset)
    · next hset =>
      refine voteInvOf_called (.prepare block acc nvs) ?_ hs
      exact if_neg (by rw [CallRecord.rdata?, hsome]; exact hset)
  | execute => exact hs
  | frame tc calls blocks executed =>
    intro hall
    rw [calls] at hall
    rw [tc, calls, blocks]
    exact hs hall

/-- **One vote for each view.**  In every run of a correct replica, over any inputs, in which the
accepted calls agree with what the replica holds for the view and no view counter wraps, all data that
its component signs for a view and that name a block name the same one. -/
theorem oneVotePerView_of_votesAgree (cfg : HandlerConfig Key) (sha : Text → Digest)
    (s : HandlerState) (hrun : HostRun cfg sha s)
    (hagree : ∀ r ∈ s.calls, r.VotesAgree sha ∧ r.NoWrap) : OneVotePerView s.calls := by
  have hinv : VoteInvOf sha s := by
    clear hagree
    induction hrun with
    | init => exact fun _ => ⟨fun r hr => absurd hr List.not_mem_nil,
        fun r hr => absurd hr List.not_mem_nil, fun r hr => absurd hr List.not_mem_nil⟩
    | step _ ho fuel input ih =>
      subst ho
      exact react_keeps voteInvOf_atom fuel input ih
  exact (hinv hagree).one

/-! ### Two proposals -/

section TwoProposals

/-- SHA-256 of the text of `emptyBlock 22`. -/
def otherBlockDigest : Digest :=
  #v[118, 48, 58, 26, 43, 98, 94, 62, 201, 7, 74, 109, 229, 43, 34, 138, 38, 135, 178, 110, 242, 66,
    182, 109, 120, 188, 171, 84, 81, 114, 89, 192]

/-- SHA-256 on the texts of two blocks. -/
def twoBlocksSha (t : Text) : Digest :=
  if t = (emptyBlock 11).toText then emptyBlockDigest
  else if t = (emptyBlock 22).toText then otherBlockDigest
  else Vector.replicate _ 255

/-- Four replicas without a TEE, the first leader Byzantine. -/
def noTEESystem : System where
  f := 1
  f_pos := Nat.one_pos
  tee := ∅
  tee_sub := by decide
  byz := {1}
  byz_sub := by decide
  byz_card := by decide
  sha256 := twoBlocksSha
  maxViews := 0
  fixedLeaderMode := false
  fixedLeader := 0

/-- The data that the leader of view 1 signs to propose a block that extends genesis. -/
def firstProposal (id : ℕ) : RData :=
  ⟨(emptyBlock id).hash twoBlocksSha, 1, newHash, 0, Phase1.prepare.byte⟩

/-- Leader 1 has signed its accumulator and two proposals. -/
def twoProposalsOracle : Oracle Unit :=
  idealOracle twoBlocksSha 3 [] fun p =>
    if p = 1 then firstSigned 1 ++ [.rdata (firstProposal 11), .rdata (firstProposal 22)]
    else firstSigned p

/-- A proposal of leader 1. -/
def firstLdrPrepare (id : ℕ) : MsgLdrPrepareComb :=
  ⟨firstAccum, emptyBlock id, .ofMsgs [⟨firstNewView, idealSign 0⟩, ⟨firstNewView, idealSign 1⟩,
    ⟨firstNewView, idealSign 2⟩], idealSign 1⟩

/-- Replica 3 after it was started and received the proposals with the given identifiers. -/
def afterProposals (ids : List ℕ) : HandlerState :=
  (ids.map fun id => Input.peer (.ldrprepare (firstLdrPrepare id))).foldl
    (HandlerState.react (noTEESystem.config 3) twoProposalsOracle · 1)
    (HandlerState.init.react (noTEESystem.config 3) twoProposalsOracle 1 (.start 0))

theorem afterProposals_run (ids : List ℕ) :
    HostRun (noTEESystem.config 3) twoBlocksSha (afterProposals ids) := by
  have hstart : HostRun (noTEESystem.config 3) twoBlocksSha
      (HandlerState.init.react (noTEESystem.config 3) twoProposalsOracle 1 (.start 0)) :=
    HostRun.step (o := twoProposalsOracle) .init rfl 1 (.start 0)
  exact hstart.foldl rfl 1 _

/-- **Two proposals get two votes.**  Replica 3 signs `prepare` data for the first block and
`precommit` data for the second one, in the same view. -/
theorem not_oneVotePerView_two_proposals :
    HostRun (noTEESystem.config 3) twoBlocksSha (afterProposals [11, 22]) ∧
      ¬ OneVotePerView (afterProposals [11, 22]).calls := by
  refine ⟨afterProposals_run _, fun h => ?_⟩
  obtain ⟨r, hr, hfirst⟩ : ∃ r ∈ (afterProposals [11, 22]).calls,
      r.rdata? = some (firstProposal 11) := by
    decide +kernel
  obtain ⟨r', hr', hsecond⟩ : ∃ r ∈ (afterProposals [11, 22]).calls,
      r.rdata? = some { firstProposal 22 with phase := Phase1.precommit.byte } := by
    decide +kernel
  have heq := h r hr r' hr' _ _ hfirst hsecond rfl rfl rfl
  exact absurd heq (by decide +kernel)

/-! ### A whole view -/

/-- Replicas 0, 1 and 2 have voted for the block in the two phases. -/
def fullViewOracle : Oracle Unit :=
  idealOracle twoBlocksSha 3 [] fun p =>
    if p ≤ 2 then firstSigned p ++ [.rdata (emptyBlockVote .prepare), .rdata (emptyBlockVote .precommit)]
    else []

/-- Replica 3 after it was started and received the proposal and the two certificates. -/
def afterFullView : HandlerState :=
  [Input.peer (.ldrprepare (firstLdrPrepare 11)),
    .peer (.prepare ⟨emptyBlockVote .prepare, (emptyBlockCertificate .prepare).signs⟩),
    .peer (.precommit ⟨emptyBlockVote .precommit, (emptyBlockCertificate .precommit).signs⟩)].foldl
      (HandlerState.react (noTEESystem.config 3) fullViewOracle · 9)
      (HandlerState.init.react (noTEESystem.config 3) fullViewOracle 9 (.start 0))

theorem afterFullView_run : HostRun (noTEESystem.config 3) twoBlocksSha afterFullView := by
  have hstart : HostRun (noTEESystem.config 3) twoBlocksSha
      (HandlerState.init.react (noTEESystem.config 3) fullViewOracle 9 (.start 0)) :=
    HostRun.step (o := fullViewOracle) .init rfl 9 (.start 0)
  exact hstart.foldl rfl 9 _

/-- The replica votes for one block in the three phases. -/
theorem oneVotePerView_full_view :
    (∀ ph ∈ [Phase1.prepare, .precommit, .commit],
        ∃ r ∈ afterFullView.calls, r.rdata? = some (emptyBlockVote ph)) ∧
      OneVotePerView afterFullView.calls := by
  have hagree : ∀ r ∈ afterFullView.calls, r.VotesAgree twoBlocksSha ∧ r.NoWrap := by
    decide +kernel
  exact ⟨by decide +kernel, oneVotePerView_of_votesAgree (noTEESystem.config 3) twoBlocksSha _
    afterFullView_run hagree⟩

end TwoProposals

end Raftel
