import Raftel.Safety.ChainedWalk

/-!
# A proposal that is rejected

`voteChComb` stores the block, and calls `TEEsign` after `TEEprepare` whatever the reply is: the stored block
stays when its parent is missing, and the counter of the component moves on when the component rejects the
block.  For a later proposal for the same view, which the component would have accepted, it does not sign a
vote any more.

* `voteChComb_refused` : what is left of a proposal that is rejected
* `harmless_iff` : when it does no harm
* `not_harmless_own_view` : a rejected proposal that costs the leader the vote
-/

namespace Raftel.Chained

open Lib

variable {Key : Type}

section Def

variable (cfg : HandlerConfig Key) (cr : Crypto Key)

/-- The parent of a block, looked up once the block is stored for the current view. -/
def State.parent (s : State) (block : CBlock) : Option CBlock :=
  (s.cblocks.insert s.view block).lookup (ca2view block.cert)

/-- The parent is missing, or the component rejects the block. -/
def Rejects (s : State) (block : CBlock) : Bool :=
  (s.parent block).all fun block0 =>
    !(chCombTEEprepare cr (enclaveVars cfg) block (block0.hash cr.sha256) s.tq).1.set

/-- A proposal for the current view comes to the vote. -/
def Heard (s : State) (msg : MsgLdrPrepareChComb) : Bool :=
  !s.stopped && decide (s.leader cfg ≠ cfg.myid) && verifyLdrPrepareChComb cfg cr msg

/-- The replica votes for the proposal.  The component signs in its own phase, and only what is signed in the
prepare phase is a vote. -/
def VotesFor (s : State) (msg : MsgLdrPrepareChComb) : Bool :=
  decide (msg.block.view = s.view) && Heard cfg cr s msg && !Rejects cfg cr s msg.block
    && decide (s.tq.phase = .prepare)

/-- Nothing is changed that a later vote needs. -/
structure Harmless (s s' : State) : Prop where
  tq : s'.tq = s.tq
  view : s'.view = s.view
  cblocks : ∀ v, s'.cblocks.lookup v = s.cblocks.lookup v
  votes : ∀ msg, VotesFor cfg cr s msg = true → VotesFor cfg cr s' msg = true

/-- The state after a proposal has been rejected in the vote. -/
def State.refused (s : State) (origin : Origin) (block : CBlock) : State :=
  { s.storeBlock cfg s.view origin block with
    tq := if (s.parent block).isSome then (chCombTEEsign cr (enclaveVars cfg) s.tq).2 else s.tq }

end Def

variable {cfg : HandlerConfig Key} {cr : Crypto Key} {s s' : State} {block : CBlock}
  {msg : MsgLdrPrepareChComb} (fuel : ℕ)

/-! ### The vote -/

theorem getLeaderOf_run (w : View) (s : State) : getLeaderOf cfg w s =
    .ok (cfg.leaderOf s.skippedLeaders w).1
      { s with skippedLeaders := (cfg.leaderOf s.skippedLeaders w).2 } := rfl

theorem amLeaderOf_run (w : View) (s : State) : amLeaderOf cfg w s =
    .ok (decide (cfg.myid = (cfg.leaderOf s.skippedLeaders w).1))
      { s with skippedLeaders := (cfg.leaderOf s.skippedLeaders w).2 } := rfl

/-- A call that is rejected leaves the component as it is. -/
theorem chCombTEEprepare_of_not_set {hash : Hash} {st : PrepState}
    (h : (chCombTEEprepare cr (enclaveVars cfg) block hash st).1.set = false) :
    chCombTEEprepare cr (enclaveVars cfg) block hash st = (Just.none, st) := by
  unfold chCombTEEprepare at h ⊢
  dsimp only at h ⊢
  split at h
  · exact absurd h.symm Bool.false_ne_true
  · next hcheck => rw [if_neg hcheck]

/-- **A rejected block is stored**, and the component signs a new-view if the parent is there. -/
theorem voteChComb_refused (origin : Origin) (h : Rejects cfg cr s block = true) :
    voteChComb cfg cr (fuel + 1) origin block s = .ok () (s.refused cfg cr origin block) := by
  have hlookup : (s.storeBlock cfg s.view origin block).cblocks.lookup (ca2view block.cert) =
      s.parent block := rfl
  have hstore : (modify fun s => s.storeBlock cfg s.view origin block : HandlerM Unit) s =
      .ok () (s.storeBlock cfg s.view origin block) := rfl
  unfold Rejects at h
  unfold voteChComb State.refused
  refine (bind_of_ok hstore).trans ?_
  refine (bind_of_ok (by rfl)).trans ?_
  dsimp only
  rw [hlookup]
  cases hparent : s.parent block with
  | none => rfl
  | some block0 =>
    rw [hparent, Option.all_some, Bool.not_eq_true'] at h
    have hcall : callTEEprepareChComb cfg cr block (block0.hash cr.sha256)
        (s.storeBlock cfg s.view origin block) =
          .ok Just.none (s.storeBlock cfg s.view origin block) := by
      show EStateM.Result.ok (chCombTEEprepare cr (enclaveVars cfg) block (block0.hash cr.sha256) s.tq).1
        { s.storeBlock cfg s.view origin block with
          tq := (chCombTEEprepare cr (enclaveVars cfg) block (block0.hash cr.sha256) s.tq).2 } = _
      rw [chCombTEEprepare_of_not_set h]
      rfl
    exact bind_of_ok hcall

/-! ### The handler -/

/-- A proposal that does not come to the vote leaves everything but the skipped leaders. -/
theorem handleLdrPrepareChComb_unheard (hview : msg.block.view = s.view)
    (h : s.leader cfg = cfg.myid ∨ verifyLdrPrepareChComb cfg cr msg = false) :
    handleLdrPrepareChComb cfg cr fuel msg s =
      .ok () { s with skippedLeaders := (cfg.leaderOf s.skippedLeaders s.view).2 } := by
  have hcond : ¬ (!decide (cfg.myid = s.leader cfg) && verifyLdrPrepareChComb cfg cr msg) = true := by
    rcases h with h | h
    · simp [h]
    · simp [h]
  unfold handleLdrPrepareChComb
  refine (bind_of_ok (by rfl)).trans ?_
  rw [if_pos hview.ge, hview]
  refine (bind_of_ok (amLeaderOf_run _ _)).trans ?_
  exact congrFun (if_neg hcond) _

/-- The others are voted for, once the leader's vote is logged. -/
theorem handleLdrPrepareChComb_heard (hview : msg.block.view = s.view)
    (hleader : s.leader cfg ≠ cfg.myid) (hverify : verifyLdrPrepareChComb cfg cr msg = true) :
    ∃ skipped log, (∀ w, (cfg.leaderOf skipped w).1 = (cfg.leaderOf s.skippedLeaders w).1) ∧
      handleLdrPrepareChComb cfg cr fuel msg s =
        voteChComb cfg cr fuel (.proposal msg.sign) msg.block
          { s with skippedLeaders := skipped, log := log } := by
  have hcond : (!decide (cfg.myid = s.leader cfg) && verifyLdrPrepareChComb cfg cr msg) = true := by
    simp [hverify, hleader.symm]
  have hvote : ∀ just (t : State), ∃ log, storeLeaderVote cfg just t =
      .ok () { t with
        skippedLeaders := (cfg.leaderOf t.skippedLeaders (nextView just.rdata.propv)).2
        log := log } := by
    intro just t
    unfold storeLeaderVote
    by_cases hnext : cfg.myid = (cfg.leaderOf t.skippedLeaders (nextView just.rdata.propv)).1
    · refine ⟨(t.log.storePrepChComb ⟨just.rdata, just.signs.get 0⟩).2, ?_⟩
      refine (bind_of_ok (amLeaderOf_run _ _)).trans ?_
      rw [if_pos (decide_eq_true hnext)]
      rfl
    · refine ⟨t.log, ?_⟩
      refine (bind_of_ok (amLeaderOf_run _ _)).trans ?_
      rw [if_neg (by simpa using hnext)]
      rfl
  obtain ⟨log, hlog⟩ := hvote (ldrPrepareChComb2just cr.sha256 msg.block msg.sign)
    { s with skippedLeaders := (cfg.leaderOf s.skippedLeaders s.view).2 }
  refine ⟨(cfg.leaderOf (cfg.leaderOf s.skippedLeaders s.view).2 (nextView msg.block.view)).2, log,
    fun w => ?_, ?_⟩
  · rw [cfg.leaderOf_lookup, cfg.leaderOf_lookup]
  · unfold handleLdrPrepareChComb
    refine (bind_of_ok (by rfl)).trans ?_
    rw [if_pos hview.ge, hview]
    refine (bind_of_ok (amLeaderOf_run _ _)).trans ?_
    refine (congrFun (if_pos hcond) _).trans ?_
    refine (bind_of_ok hlog).trans ?_
    rw [if_pos rfl, ← hview]
    rfl

/-! ### Harm -/

/-- Only the component, the view, the blocks, the leader and the end of the replica decide on a vote. -/
theorem votesFor_congr (htq : s'.tq = s.tq) (hview : s'.view = s.view)
    (hcblocks : ∀ v, s'.cblocks.lookup v = s.cblocks.lookup v) (hleader : s'.leader cfg = s.leader cfg)
    (hstopped : s'.stopped = s.stopped) (msg : MsgLdrPrepareChComb) :
    VotesFor cfg cr s' msg = VotesFor cfg cr s msg := by
  have hparent : s'.parent msg.block = s.parent msg.block := by
    unfold State.parent
    by_cases hv : ca2view msg.block.cert = s.view
    · rw [hview, hv, AList.lookup_insert, AList.lookup_insert]
    · rw [hview, AList.lookup_insert_ne hv, AList.lookup_insert_ne hv, hcblocks]
  unfold VotesFor Heard Rejects
  rw [htq, hview, hleader, hstopped, hparent]

theorem harmless_of_same (htq : s'.tq = s.tq) (hview : s'.view = s.view)
    (hcblocks : ∀ v, s'.cblocks.lookup v = s.cblocks.lookup v) (hleader : s'.leader cfg = s.leader cfg)
    (hstopped : s'.stopped = s.stopped) : Harmless cfg cr s s' := by
  refine ⟨htq, hview, hcblocks, fun msg hmsg => ?_⟩
  rw [votesFor_congr htq hview hcblocks hleader hstopped]
  exact hmsg

theorem react_of_handle {input : Input} (hstopped : s.stopped = false)
    (htimer : input.isTimeout = false) (h : handle cfg cr fuel input s = .ok () s') :
    s.react cfg cr fuel input = s' := by
  unfold State.react
  rw [if_neg (by simp [hstopped]), if_neg (by simp [htimer]), h]

/-- The counter of the component moves. -/
theorem Alternates.increment_ne {st : PrepState} (h : Alternates st) : st.chIncrement ≠ st := by
  intro heq
  have hphase := congrArg PrepState.phase heq
  unfold PrepState.chIncrement at hphase
  rcases h with h | h
  · rw [h] at hphase
    cases hphase
  · rw [h] at hphase
    cases hphase

section Statement

variable (cfg cr)

/-- The proposal does not come to the vote, or its parent is missing and the same block is stored for the
view already. -/
def Unaffected (s : State) (msg : MsgLdrPrepareChComb) : Prop :=
  Heard cfg cr s msg = false ∨
    s.parent msg.block = none ∧ s.cblocks.lookup s.view = some msg.block

end Statement

/-- The reaction to a proposal that does not come to the vote. -/
theorem harmless_of_not_heard (hview : msg.block.view = s.view) (h : Heard cfg cr s msg = false) :
    Harmless cfg cr s (s.react cfg cr fuel (.peer (.ldrprepare msg))) := by
  by_cases hstopped : s.stopped = true
  · have hsame : s.react cfg cr fuel (.peer (.ldrprepare msg)) = s := by
      unfold State.react
      rw [if_pos hstopped]
    rw [hsame]
    exact harmless_of_same rfl rfl (fun _ => rfl) rfl rfl
  · rw [Bool.not_eq_true] at hstopped
    have hunheard : s.leader cfg = cfg.myid ∨ verifyLdrPrepareChComb cfg cr msg = false := by
      by_contra hnot
      push Not at hnot
      simp [Heard, hstopped, hnot.1, hnot.2] at h
    have hreact : s.react cfg cr fuel (.peer (.ldrprepare msg)) = _ :=
      react_of_handle _ hstopped rfl (handleLdrPrepareChComb_unheard fuel hview hunheard)
    rw [hreact]
    refine harmless_of_same rfl rfl (fun _ => rfl) ?_ rfl
    exact cfg.leaderOf_lookup _ _ _

/-- The reaction to a rejected proposal that comes to the vote. -/
theorem react_refused (hview : msg.block.view = s.view) (hheard : Heard cfg cr s msg = true)
    (hrejects : Rejects cfg cr s msg.block = true) :
    ∃ skipped log, (∀ w, (cfg.leaderOf skipped w).1 = (cfg.leaderOf s.skippedLeaders w).1) ∧
      s.react cfg cr (fuel + 1) (.peer (.ldrprepare msg)) =
        State.refused cfg cr { s with skippedLeaders := skipped, log := log } (.proposal msg.sign)
          msg.block := by
  simp only [Heard, Bool.and_eq_true, Bool.not_eq_true', decide_eq_true_eq] at hheard
  obtain ⟨⟨hstopped, hleader⟩, hverify⟩ := hheard
  obtain ⟨skipped, log, hskipped, hhandle⟩ :=
    handleLdrPrepareChComb_heard (fuel + 1) hview hleader hverify
  refine ⟨skipped, log, hskipped, react_of_handle _ hstopped rfl ?_⟩
  show handleLdrPrepareChComb cfg cr (fuel + 1) msg s = _
  rw [hhandle]
  exact voteChComb_refused fuel _ hrejects

/-- **A rejected proposal does no harm** if and only if it does not come to the vote at all, or its parent is
missing and the block is stored already.  For every run with any messages, and every proposal for the view
of the replica. -/
theorem harmless_iff (cfg : HandlerConfig Key) (cr : Crypto Key) (inputs : List (ℕ × Input)) (fuel : ℕ)
    (msg : MsgLdrPrepareChComb) (hview : msg.block.view = (run cfg cr inputs).view)
    (hrejects : Rejects cfg cr (run cfg cr inputs) msg.block = true) :
    Harmless cfg cr (run cfg cr inputs)
        ((run cfg cr inputs).react cfg cr (fuel + 1) (.peer (.ldrprepare msg))) ↔
      Unaffected cfg cr (run cfg cr inputs) msg := by
  have halternates := run_alternates cfg cr inputs
  generalize run cfg cr inputs = s at hview hrejects halternates ⊢
  cases hheard : Heard cfg cr s msg with
  | false => exact ⟨fun _ => Or.inl hheard, fun _ => harmless_of_not_heard _ hview hheard⟩
  | true =>
    obtain ⟨skipped, log, hskipped, hreact⟩ := react_refused fuel hview hheard hrejects
    rw [hreact]
    constructor
    · intro h
      refine Or.inr ⟨?_, ?_⟩
      · -- with a parent, the counter has moved
        cases hparent : s.parent msg.block with
        | none => rfl
        | some block0 =>
          have htq := h.tq
          have hparent' : State.parent { s with skippedLeaders := skipped, log := log } msg.block =
              some block0 := hparent
          unfold State.refused at htq
          rw [hparent'] at htq
          exact absurd htq halternates.increment_ne
      · rw [← h.cblocks s.view]
        exact AList.lookup_insert _
    · rintro (hnot | ⟨hparent, hstored⟩)
      · rw [hheard] at hnot
        exact absurd hnot (by decide)
      · have hparent' : State.parent { s with skippedLeaders := skipped, log := log } msg.block = none :=
          hparent
        refine harmless_of_same ?_ rfl (fun v => ?_) (hskipped s.view) rfl
        · unfold State.refused
          rw [hparent']
          rfl
        · show (s.cblocks.insert s.view msg.block).lookup v = s.cblocks.lookup v
          by_cases hv : v = s.view
          · rw [hv, AList.lookup_insert, hstored]
          · rw [AList.lookup_insert_ne hv]

/-! ### A lost vote -/

section LostVote

/-- Leader 1 has signed two proposals for its view: one with a certificate for the view itself, and one on
the genesis block. -/
def signedTwice : Crypto Unit := cryptoBy [1] [ownViewBlock, firstBlock]

/-- Replica 0 is in view 1. -/
def onlyStarted : List (ℕ × Input) := [(4, .start 0)]

end LostVote

/-- A proposal without a valid signature. -/
theorem harmless_unsigned :
    Harmless (noTEESystem.config 0) signedTwice (run (noTEESystem.config 0) signedTwice onlyStarted)
      ((run (noTEESystem.config 0) signedTwice onlyStarted).react (noTEESystem.config 0) signedTwice (3 + 1)
        (.peer (.ldrprepare ⟨ownViewBlock, idealSign 2⟩))) :=
  (harmless_iff (noTEESystem.config 0) signedTwice onlyStarted 3 ⟨ownViewBlock, idealSign 2⟩
    (by decide +kernel) (by decide +kernel)).mpr (Or.inl (by decide +kernel))

/-- **A rejected proposal costs the leader the vote.**  Replica 0 would vote for the block on the genesis
block; after the proposal that its component rejects, it does not. -/
theorem not_harmless_own_view :
    ¬ ∀ (inputs : List (ℕ × Input)) (fuel : ℕ) (msg : MsgLdrPrepareChComb),
      msg.block.view = (run (noTEESystem.config 0) signedTwice inputs).view →
      Rejects (noTEESystem.config 0) signedTwice (run (noTEESystem.config 0) signedTwice inputs) msg.block =
        true →
      Harmless (noTEESystem.config 0) signedTwice (run (noTEESystem.config 0) signedTwice inputs)
        ((run (noTEESystem.config 0) signedTwice inputs).react (noTEESystem.config 0) signedTwice (fuel + 1)
          (.peer (.ldrprepare msg))) := by
  intro h
  have hharmless := h onlyStarted 3 ⟨ownViewBlock, idealSign 1⟩ (by decide +kernel) (by decide +kernel)
  have hbefore : VotesFor (noTEESystem.config 0) signedTwice
      (run (noTEESystem.config 0) signedTwice onlyStarted) ⟨firstBlock, idealSign 1⟩ = true := by
    decide +kernel
  have hafter : VotesFor (noTEESystem.config 0) signedTwice
      ((run (noTEESystem.config 0) signedTwice onlyStarted).react (noTEESystem.config 0) signedTwice (3 + 1)
        (.peer (.ldrprepare ⟨ownViewBlock, idealSign 1⟩))) ⟨firstBlock, idealSign 1⟩ = false := by
    decide +kernel
  exact absurd ((hharmless.votes _ hbefore).symm.trans hafter) (by decide)

end Raftel.Chained
