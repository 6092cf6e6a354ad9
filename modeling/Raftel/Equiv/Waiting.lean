import Raftel.Equiv.Runs
import Raftel.Lib.Lockstep

/-!
# Messages that wait for a view

A replica keeps the proposals and certificates that come before their view, and reads them only when it
enters that view.  Two states that differ in what waits for the views up to `v` (`SameBut`) react alike
from view `v` on, also when an execution starts the views that follow.

* `lockstep_handleEarlierMessagesComb` : in a later view the same messages are taken up
* `blind_executeComb` : a block is executed alike, with all the views that follow
-/

namespace Raftel

open Lib

variable {Key : Type} {cfg : HandlerConfig Key} {o : Oracle Key} {v k w : View} {α : Type}

/-! ### States that differ in what waits -/

/-- The second state differs in proposals and certificates that wait for the views up to `v`, and maybe
the leader of some view has been looked up.  Both are in view `k` or a later one. -/
inductive SameBut (cfg : HandlerConfig Key) (v k : View) : HandlerState → HandlerState → Prop
  | mk {s : HandlerState} (skippedLeaders : List PID) (proposals : LdrPrepareLog)
      (prepares precommits commits : VoteLog)
      (skipped : ∀ w, cfg.leaderOf skippedLeaders w = cfg.leaderOf s.skippedLeaders w)
      (hprop : ∀ w, v < w → proposals.get w = s.log.ldrpreparesComb.get w)
      (hprep : ∀ w, v < w → prepares.get w = s.futurePrepareQCs.get w)
      (hpc : ∀ w, v < w → precommits.get w = s.futurePreCommitQCs.get w)
      (hcom : ∀ w, v < w → commits.get w = s.futureCommitQCs.get w)
      (view : k ≤ s.view) (bound : s.tc.view < 2 ^ 32) :
      SameBut cfg v k s { s with
        skippedLeaders := skippedLeaders
        log := { s.log with ldrpreparesComb := proposals }
        futurePrepareQCs := prepares
        futurePreCommitQCs := precommits
        futureCommitQCs := commits }

theorem SameBut.mono {s s' : HandlerState} (h : SameBut cfg v k s s') (hle : w ≤ k) :
    SameBut cfg v w s s' := by
  cases h with
  | mk sk prop prep pc com skipped hprop hprep hpc hcom view bound =>
    exact .mk sk prop prep pc com skipped hprop hprep hpc hcom (hle.trans view) bound

theorem SameBut.refl {s : HandlerState} (hview : k ≤ s.view) (hbound : s.tc.view < 2 ^ 32) :
    SameBut cfg v k s s :=
  .mk s.skippedLeaders s.log.ldrpreparesComb s.futurePrepareQCs s.futurePreCommitQCs s.futureCommitQCs
    (fun _ => rfl) (fun _ _ => rfl) (fun _ _ => rfl) (fun _ _ => rfl) (fun _ _ => rfl) hview hbound

theorem ViewLog.get_erase {β : Type} {viewOf : β → View} (log : ViewLog β viewOf) (w u : View) :
    (log.erase w).get u = if u = w then [] else log.get u := by
  unfold ViewLog.get ViewLog.erase
  dsimp only
  by_cases h : u = w
  · rw [if_pos h, h, AList.lookup_erase]
    rfl
  · rw [if_neg h, AList.lookup_erase_ne h]

/-- After two lookups the skipped leaders are those after the second one. -/
theorem HandlerConfig.leaderOf_lookup_snd (cfg : HandlerConfig Key) (skipped : List PID) (w v : View) :
    (cfg.leaderOf (cfg.leaderOf skipped w).2 v).2 = (cfg.leaderOf skipped v).2 := by
  by_cases h : cfg.fixedLeaderMode = true ∨ ¬ cfg.AllSkipped skipped
  · rw [leaderOf_snd h]
  · rw [not_or, not_not, Bool.not_eq_true] at h
    have hnone : ¬ cfg.AllSkipped [] := fun hall => List.not_mem_nil (hall 0 (Nat.succ_pos _))
    rw [leaderOf_of_allSkipped h.1 h.2, leaderOf_of_allSkipped h.1 h.2, leaderOf_snd (Or.inr hnone)]

/-- A lookup changes no other one. -/
theorem HandlerConfig.leaderOf_lookedUp (cfg : HandlerConfig Key) (skipped : List PID) (w v : View) :
    cfg.leaderOf (cfg.leaderOf skipped w).2 v = cfg.leaderOf skipped v :=
  Prod.ext (cfg.leaderOf_lookup skipped w v) (cfg.leaderOf_lookup_snd skipped w v)

theorem SameBut.lookup {s s' : HandlerState} (h : SameBut cfg v k s s') (w : View) :
    SameBut cfg v k { s with skippedLeaders := (cfg.leaderOf s.skippedLeaders w).2 }
      { s' with skippedLeaders := (cfg.leaderOf s'.skippedLeaders w).2 } := by
  cases h with
  | mk sk prop prep pc com skipped hprop hprep hpc hcom view bound =>
    dsimp only
    rw [skipped w]
    exact .mk _ prop prep pc com (fun _ => rfl) hprop hprep hpc hcom view bound

theorem SameBut.send {s s' : HandlerState} (h : SameBut cfg v k s s') (msgs : List (Msg × List PID)) :
    SameBut cfg v k { s with out := s.out ++ msgs } { s' with out := s'.out ++ msgs } := by
  cases h with
  | mk sk prop prep pc com skipped hprop hprep hpc hcom view bound =>
    exact .mk sk prop prep pc com skipped hprop hprep hpc hcom view bound

/-- The component gives the same answer. -/
theorem SameBut.called {s s' : HandlerState} (h : SameBut cfg v k s s') (c : Call) :
    (s'.called cfg o c).1 = (s.called cfg o c).1 ∧
      SameBut cfg v k (s.called cfg o c).2 (s'.called cfg o c).2 := by
  cases h with
  | mk sk prop prep pc com skipped hprop hprep hpc hcom view bound =>
    exact ⟨rfl, .mk sk prop prep pc com skipped hprop hprep hpc hcom view (HandlerState.called_tc_lt c bound)⟩

/-! ### Programs that do not see it -/

/-- The program does not see what waits for the views up to `v`. -/
abbrev Blind (cfg : HandlerConfig Key) (v k : View) (m : HandlerM α) : Prop :=
  Lockstep (SameBut cfg v k) m (SameBut cfg v k) (SameBut cfg v 0)

theorem blind_getLeaderOf (w : View) : Blind cfg v k (getLeaderOf cfg w) := by
  refine .step (fun _ => rfl) fun s s' hs => ⟨?_, hs.lookup w⟩
  cases hs with
  | mk sk prop prep pc com skipped => exact congrArg Prod.fst (skipped w)

theorem SameBut.view_le {s s' : HandlerState} (h : SameBut cfg v k s s') : k ≤ s.view := by
  cases h
  assumption

theorem SameBut.bound {s s' : HandlerState} (h : SameBut cfg v k s s') : s.tc.view < 2 ^ 32 := by
  cases h
  assumption

theorem SameBut.view_eq {s s' : HandlerState} (h : SameBut cfg v k s s') : s'.view = s.view := by
  cases h
  rfl

theorem blind_getCurrentLeader : Blind cfg v k (getCurrentLeader cfg) := by
  unfold getCurrentLeader
  exact .read_bind (fun s s' hs => by rw [hs.view_eq]) fun s _ _ => blind_getLeaderOf s.view

theorem blind_amLeaderOf (w : View) : Blind cfg v k (amLeaderOf cfg w) :=
  (blind_getLeaderOf w).bind fun _ => .ret fun _ _ h => h

theorem blind_amCurrentLeader : Blind cfg v k (amCurrentLeader cfg) :=
  blind_getCurrentLeader.bind fun _ => .ret fun _ _ h => h

theorem blind_sendMsg (msg : Msg) (recipients : List PID) : Blind cfg v k (sendMsg msg recipients) :=
  .update fun _ _ hs => hs.send _

theorem blind_callTEE (c : Call) : Blind cfg v k (callTEE cfg o c) :=
  .step (fun _ => rfl) fun _ _ hs => hs.called c

theorem blind_callTEEsignComb : Blind cfg v k (callTEEsignComb cfg o) := (blind_callTEE .sign).map _

theorem blind_callTEEprepareComb (block : Block) (acc : Accum) (proof : NewViewProofComb) :
    Blind cfg v k (callTEEprepareComb cfg o block acc proof) := (blind_callTEE _).map _

theorem blind_callTEEstoreComb (just : Just) : Blind cfg v k (callTEEstoreComb cfg o just) :=
  (blind_callTEE _).map _

/-! ### The leader -/

theorem blind_newviews2accComb (newviews : List MsgNewViewComb) (n : ℕ) :
    Blind cfg v k (newviews2accComb cfg o newviews n) := by
  unfold newviews2accComb
  exact .cond (fun _ => (blind_callTEE _).map _) fun _ => (blind_callTEE _).map _

theorem blind_createNewBlock (hash : Hash) : Blind cfg v k (createNewBlock cfg hash) := by
  have hrun : ∀ s : HandlerState, createNewBlock cfg hash s =
      if concatDigits cfg.myid s.view < 2 ^ 31 then
        .ok ⟨concatDigits cfg.myid s.view, true, hash, (s.transactions.take maxNumTransactions).length,
          Vector.ofFn fun i => (s.transactions.take maxNumTransactions).getD i.val .dummy⟩
          { s with transactions := s.transactions.drop maxNumTransactions }
      else .error .outOfRange { s with transactions := s.transactions.drop maxNumTransactions } := by
    intro s
    show (if _ then _ else _ : HandlerM Block) _ = _
    split <;> rfl
  intro s s' hs
  cases hs with
  | mk sk prop prep pc com skipped hprop hprep hpc hcom view bound =>
    rw [hrun, hrun]
    dsimp only
    split
    · exact .ok (.mk sk prop prep pc com skipped hprop hprep hpc hcom view bound)
    · -- `std::stoi` raises in both
      exact .error (.mk sk prop prep pc com skipped hprop hprep hpc hcom (Nat.zero_le _) bound)

theorem SameBut.proposed {s s' : HandlerState} (h : SameBut cfg v k s s') (block : Block) :
    SameBut cfg v k
      { s with
        processedNewViews := viewInsert s.view s.processedNewViews
        blocks := s.blocks.insert s.view block }
      { s' with
        processedNewViews := viewInsert s'.view s'.processedNewViews
        blocks := s'.blocks.insert s'.view block } := by
  cases h with
  | mk sk prop prep pc com skipped hprop hprep hpc hcom view bound =>
    exact .mk sk prop prep pc com skipped hprop hprep hpc hcom view bound

theorem SameBut.logPrepare {s s' : HandlerState} (h : SameBut cfg v k s s') (msg : MsgPrepareComb) :
    SameBut cfg v k
      { s with log := if cfg.isTEE cfg.myid then (s.log.storeTEEPrepComb msg).2
          else (s.log.storePrepComb msg).2 }
      { s' with log := if cfg.isTEE cfg.myid then (s'.log.storeTEEPrepComb msg).2
          else (s'.log.storePrepComb msg).2 } := by
  cases h with
  | mk sk prop prep pc com skipped hprop hprep hpc hcom view bound =>
    split
    · exact .mk sk prop prep pc com skipped hprop hprep hpc hcom view bound
    · exact .mk sk prop prep pc com skipped hprop hprep hpc hcom view bound

theorem blind_processQC (newviews : List MsgNewViewComb) (qcType : QcType) :
    Blind cfg v k (processQC cfg o newviews qcType) := by
  unfold processQC
  refine .read_bind (fun s s' hs => by cases hs; rfl) fun s _ _ => .cond (fun _ => .ret fun _ _ h => h) fun _ => ?_
  refine (blind_newviews2accComb _ _).bind fun acc => .cond (fun _ => .ret fun _ _ h => h) fun _ => ?_
  refine (blind_createNewBlock acc.hash).bind fun block => ?_
  refine (blind_callTEEprepareComb _ _ _).bind fun justPrep => .cond (fun _ => .ret fun _ _ h => h) fun _ => ?_
  refine Lockstep.bind (Q := SameBut cfg v _) (.update fun s s' hs => ?_) fun _ => .cond (fun _ => ?_) fun _ =>
    .ret fun _ _ h => h
  · exact hs.proposed block
  · exact (blind_sendMsg _ _).bind fun _ => .update fun s s' hs => hs.logPrepare _

theorem blind_prepareComb : Blind cfg v k (prepareComb cfg o) := by
  unfold prepareComb
  refine .read_bind (fun s s' hs => by cases hs; rfl) fun s _ _ => ?_
  exact .cond (fun _ => blind_processQC _ _) fun _ => .cond (fun _ => blind_processQC _ _) fun _ =>
    .ret fun _ _ h => h

theorem SameBut.logNewview {s s' : HandlerState} (h : SameBut cfg v k s s') (msg : MsgNewViewComb) :
    SameBut cfg v k
      { s with log := if cfg.isTEE msg.sign.signer then (s.log.storeTEENvComb msg).2
          else (s.log.storeNvComb msg).2 }
      { s' with log := if cfg.isTEE msg.sign.signer then (s'.log.storeTEENvComb msg).2
          else (s'.log.storeNvComb msg).2 } := by
  cases h with
  | mk sk prop prep pc com skipped hprop hprep hpc hcom view bound =>
    split
    · exact .mk sk prop prep pc com skipped hprop hprep hpc hcom view bound
    · exact .mk sk prop prep pc com skipped hprop hprep hpc hcom view bound

theorem SameBut.lead {s s' : HandlerState} (h : SameBut cfg v k s s') :
    SameBut cfg v k (if s.view ∈ s.processedNewViews then { s with phase := .prepare } else s)
      (if s'.view ∈ s'.processedNewViews then { s' with phase := .prepare } else s') := by
  cases h with
  | mk sk prop prep pc com skipped hprop hprep hpc hcom view bound =>
    dsimp only
    split
    · exact .mk sk prop prep pc com skipped hprop hprep hpc hcom view bound
    · exact .mk sk prop prep pc com skipped hprop hprep hpc hcom view bound

theorem blind_handleNewviewComb (msg : MsgNewViewComb) : Blind cfg v k (handleNewviewComb cfg o msg) := by
  unfold handleNewviewComb
  refine .read_bind (fun s s' hs => by cases hs; rfl) fun s _ _ => .cond (fun _ => ?_) fun _ => .ret fun _ _ h => h
  refine (blind_amLeaderOf _).bind fun leader => .cond (fun _ => ?_) fun _ => .ret fun _ _ h => h
  refine Lockstep.bind (Q := SameBut cfg v _) (.update fun s s' hs => hs.logNewview msg) fun _ => ?_
  refine .read_bind (fun s s' hs => by cases hs; rfl) fun s _ _ => .cond (fun _ => ?_) fun _ => .ret fun _ _ h => h
  exact blind_prepareComb.bind fun _ => .update fun s s' hs => hs.lead

/-! ### The backups -/

theorem SameBut.storeBlock {s s' : HandlerState} (h : SameBut cfg v k s s') (block : Block) :
    SameBut cfg v k { s with blocks := s.blocks.insert s.view block }
      { s' with blocks := s'.blocks.insert s'.view block } := by
  cases h with
  | mk sk prop prep pc com skipped hprop hprep hpc hcom view bound =>
    exact .mk sk prop prep pc com skipped hprop hprep hpc hcom view bound

theorem blind_respondToLdrPrepareComb (block : Block) (acc : Accum) (proof : NewViewProofComb) :
    Blind cfg v k (respondToLdrPrepareComb cfg o block acc proof) := by
  unfold respondToLdrPrepareComb
  refine (blind_callTEEprepareComb _ _ _).bind fun justPrep => .cond (fun _ => ?_) fun _ => .ret fun _ _ h => h
  refine Lockstep.bind (Q := SameBut cfg v _) (.update fun s s' hs => hs.storeBlock block) fun _ => ?_
  exact blind_getCurrentLeader.bind fun _ => blind_sendMsg _ _

theorem blind_respondToPreCommitComb (msg : MsgPreCommitComb) :
    Blind cfg v k (respondToPreCommitComb cfg o msg) := by
  unfold respondToPreCommitComb
  refine (blind_callTEEstoreComb _).bind fun justPc => .cond (fun _ => ?_) fun _ => .ret fun _ _ h => h
  exact blind_getCurrentLeader.bind fun _ => blind_sendMsg _ _

/-! ### What waits for a later view -/

theorem SameBut.waiting {s s' : HandlerState} (h : SameBut cfg v k s s') (hw : v < w) :
    s'.log.firstLdrPrepareComb w = s.log.firstLdrPrepareComb w ∧
      s'.futurePrepareQCs.get w = s.futurePrepareQCs.get w ∧
      s'.futurePreCommitQCs.get w = s.futurePreCommitQCs.get w ∧
      s'.futureCommitQCs.get w = s.futureCommitQCs.get w := by
  cases h with
  | mk sk prop prep pc com skipped hprop hprep hpc hcom =>
    exact ⟨congrArg List.head? (hprop w hw), hprep w hw, hpc w hw, hcom w hw⟩

theorem get_erase_congr {l l' : VoteLog} (h : ∀ u, v < u → l'.get u = l.get u) :
    ∀ u, v < u → (l'.erase w).get u = (l.erase w).get u := by
  intro u hu
  rw [ViewLog.get_erase, ViewLog.get_erase, h u hu]

theorem SameBut.erasePrepares {s s' : HandlerState} (h : SameBut cfg v k s s') :
    SameBut cfg v k { s with futurePrepareQCs := s.futurePrepareQCs.erase w }
      { s' with futurePrepareQCs := s'.futurePrepareQCs.erase w } := by
  cases h with
  | mk sk prop prep pc com skipped hprop hprep hpc hcom view bound =>
    exact .mk sk prop _ pc com skipped hprop (get_erase_congr hprep) hpc hcom view bound

theorem SameBut.erasePreCommits {s s' : HandlerState} (h : SameBut cfg v k s s') :
    SameBut cfg v k { s with futurePreCommitQCs := s.futurePreCommitQCs.erase w }
      { s' with futurePreCommitQCs := s'.futurePreCommitQCs.erase w } := by
  cases h with
  | mk sk prop prep pc com skipped hprop hprep hpc hcom view bound =>
    exact .mk sk prop prep _ com skipped hprop hprep (get_erase_congr hpc) hcom view bound

theorem SameBut.eraseCommits {s s' : HandlerState} (h : SameBut cfg v k s s') :
    SameBut cfg v k { s with futureCommitQCs := s.futureCommitQCs.erase w }
      { s' with futureCommitQCs := s'.futureCommitQCs.erase w } := by
  cases h with
  | mk sk prop prep pc com skipped hprop hprep hpc hcom view bound =>
    exact .mk sk prop prep pc _ skipped hprop hprep hpc (get_erase_congr hcom) view bound

theorem blind_replayProposal (hw : v < w) : Blind cfg v k (replayProposal cfg o w) := by
  unfold replayProposal
  refine .read_bind (fun s s' hs => by simp only [(hs.waiting hw).1]) fun s _ _ => ?_
  cases s.log.firstLdrPrepareComb w with
  | none => exact .ret fun _ _ h => h
  | some msgProp =>
    exact .cond (fun _ => blind_respondToLdrPrepareComb _ _ _) fun _ => .ret fun _ _ h => h

/-! ### Entering a view -/

theorem blind_signUntilAfter (w : View) (fuel : ℕ) (just : Just) :
    Blind cfg v k (signUntilAfter cfg o w fuel just) := by
  induction fuel generalizing just with
  | zero => exact .raise fun _ _ h => h.mono (Nat.zero_le _)
  | succ fuel ih =>
    unfold signUntilAfter
    exact .cond (fun _ => blind_callTEEsignComb.bind fun just' => ih just') fun _ => .ret fun _ _ h => h

theorem SameBut.enter {s s' : HandlerState} (h : SameBut cfg v k s s') :
    SameBut cfg v 0 { s with view := nextView s.view, timer := true }
      { s' with view := nextView s'.view, timer := true } := by
  cases h with
  | mk sk prop prep pc com skipped hprop hprep hpc hcom view bound =>
    exact .mk sk prop prep pc com skipped hprop hprep hpc hcom (Nat.zero_le _) bound

theorem SameBut.of_view {s s' : HandlerState} (h : SameBut cfg v w s s') (hview : k ≤ s.view) :
    SameBut cfg v k s s' := by
  cases h with
  | mk sk prop prep pc com skipped hprop hprep hpc hcom _ bound =>
    exact .mk sk prop prep pc com skipped hprop hprep hpc hcom hview bound

/-- The view that is entered is a later one. -/
theorem lockstep_enterView (fuel : ℕ) :
    Lockstep (SameBut cfg v k) (enterView cfg o fuel) (SameBut cfg v (k + 1)) (SameBut cfg v 0) := by
  have hsame : Lockstep (SameBut cfg v k) (enterView cfg o fuel) (SameBut cfg v 0) (SameBut cfg v 0) := by
    unfold enterView
    refine .read_bind (fun s s' hs => by rw [hs.view_eq]) fun s _ _ => ?_
    refine blind_callTEEsignComb.bind fun first => (blind_signUntilAfter _ _ _).bind fun just => ?_
    refine .cond (fun _ => ?_) fun _ => .ret fun _ _ h => h.mono (Nat.zero_le k)
    exact Lockstep.bind (Q := SameBut cfg v 0) (.update fun _ _ hs => hs.enter) fun _ => .ret fun _ _ h => h
  -- the loop does not see what waits, and when it ends the view is the next one
  intro s s' hs
  have hresult := hsame s s' hs
  generalize enterView cfg o fuel s' = r at hresult ⊢
  cases henter : enterView cfg o fuel s with
  | error e t =>
    rw [henter] at hresult
    cases hresult with
    | error h => exact .error h
  | ok just t =>
    rw [henter] at hresult
    have hlt : k + 1 ≤ t.view := by
      rw [(enterView_view henter hs.bound).1]
      exact Nat.succ_le_succ hs.view_le
    cases hresult with
    | ok h => exact .ok (h.of_view hlt)

section Exec

variable {exec : RData → HandlerM Unit} (hexec : ∀ data, Blind cfg v v (exec data))
include hexec

theorem blind_respondToPrepareComb (msg : MsgPrepareComb) :
    Blind cfg v v (respondToPrepareComb cfg o exec msg) := by
  unfold respondToPrepareComb
  refine blind_getCurrentLeader.bind fun leader => ?_
  refine .read_bind (fun s s' hs => by cases hs; rfl) fun s _ _ => .cond (fun _ => ?_) fun _ => .ret fun _ _ h => h
  refine .cond (fun _ => hexec _) fun _ => ?_
  refine (blind_callTEEstoreComb _).bind fun justPc => .cond (fun _ => ?_) fun _ => .ret fun _ _ h => h
  exact blind_getCurrentLeader.bind fun _ => blind_sendMsg _ _

theorem blind_respondToCommitComb (msg : MsgCommitComb) :
    Blind cfg v v (respondToCommitComb cfg o exec msg) := by
  unfold respondToCommitComb
  refine .read_bind (fun s s' hs => by cases hs; rfl) fun s _ _ => ?_
  exact .cond (fun _ => hexec _) fun _ => .ret fun _ _ h => h

/-! ### Starting a later view -/

/-- In a later view the same certificates are replayed. -/
theorem blind_replayQCs (hw : v < w) (block : Block) : Blind cfg v v (replayQCs cfg o exec w block) := by
  unfold replayQCs
  refine .read_bind (fun s s' hs => by simp only [(hs.waiting hw).2.1]) fun s _ _ => ?_
  generalize s.futurePrepareQCs.get w = qcs
  cases qcs with
  | nil => exact .ret fun _ _ h => h
  | cons qc _ => ?_
  refine .cond (fun _ => .ret fun _ _ h => h) fun _ => ?_
  refine Lockstep.bind (Q := SameBut cfg v _) (.update fun s s' hs => hs.erasePrepares) fun _ => ?_
  refine (blind_respondToPrepareComb hexec qc).bind fun _ => ?_
  refine .read_bind (fun s s' hs => by simp only [hs.view_eq, (hs.waiting hw).2.2.1]) fun s _ _ => ?_
  refine .cond (fun _ => .ret fun _ _ h => h) fun _ => ?_
  generalize s.futurePreCommitQCs.get w = qcs
  cases qcs with
  | nil => exact .ret fun _ _ h => h
  | cons qc _ => ?_
  refine .cond (fun _ => .ret fun _ _ h => h) fun _ => ?_
  refine Lockstep.bind (Q := SameBut cfg v _) (.update fun s s' hs => hs.erasePreCommits) fun _ => ?_
  refine (blind_respondToPreCommitComb qc).bind fun _ => ?_
  refine .read_bind (fun s s' hs => by simp only [(hs.waiting hw).2.2.2]) fun s _ _ => ?_
  generalize s.futureCommitQCs.get w = qcs
  cases qcs with
  | nil => exact .ret fun _ _ h => h
  | cons qc _ => ?_
  refine .cond (fun _ => .ret fun _ _ h => h) fun _ => ?_
  refine Lockstep.bind (Q := SameBut cfg v _) (.update fun s s' hs => hs.eraseCommits) fun _ => ?_
  exact blind_respondToCommitComb hexec qc

/-- In a later view the same messages are taken up. -/
theorem lockstep_handleEarlierMessagesComb :
    Lockstep (SameBut cfg v (v + 1)) (handleEarlierMessagesComb cfg o exec) (SameBut cfg v v)
      (SameBut cfg v 0) := by
  unfold handleEarlierMessagesComb
  refine blind_amCurrentLeader.bind fun leader => ?_
  refine .read_bind (fun s s' hs => by cases hs; rfl) fun s _ hs => ?_
  have hw : v < s.view := hs.view_le
  refine Lockstep.conseq (P := SameBut cfg v v) ?_ (fun _ _ h => h.mono v.le_succ) fun _ _ h => h
  refine .cond (fun _ => .cond (fun _ => blind_prepareComb) fun _ => .ret fun _ _ h => h) fun _ => ?_
  refine (blind_replayProposal hw).bind fun _ => ?_
  refine .read_bind (fun s s' hs => by cases hs; rfl) fun t _ _ => ?_
  cases t.blocks.lookup s.view with
  | none => exact .ret fun _ _ h => h
  | some block => exact blind_replayQCs hexec hw block

theorem lockstep_announceView (just : Just) :
    Lockstep (SameBut cfg v (v + 1)) (announceView cfg o exec just) (SameBut cfg v v)
      (SameBut cfg v 0) := by
  unfold announceView
  refine .read_bind (fun s s' hs => by cases hs; rfl) fun s _ _ => .cond (fun _ => ?_) fun _ =>
    .ret fun _ _ h => h.mono v.le_succ
  refine blind_getCurrentLeader.bind fun leader => .cond (fun _ => ?_) fun _ => ?_
  · exact (lockstep_handleEarlierMessagesComb hexec).bind fun _ => blind_handleNewviewComb _
  · exact (blind_sendMsg _ _).bind fun _ => lockstep_handleEarlierMessagesComb hexec

theorem blind_startNewViewComb (fuel : ℕ) : Blind cfg v v (startNewViewComb cfg o exec fuel) := by
  rw [startNewViewComb_eq]
  refine (lockstep_enterView fuel).bind fun just => .cond (fun _ => lockstep_announceView hexec just) fun _ => ?_
  exact .ret fun _ _ h => h.mono v.le_succ

end Exec

/-! ### Execution -/

theorem SameBut.committed {s s' : HandlerState} (h : SameBut cfg v k s s') (data : RData) (block : Block) :
    SameBut cfg v k (s.committed cfg o data block) (s'.committed cfg o data block) := by
  cases h with
  | mk sk prop prep pc com skipped hprop hprep hpc hcom view bound =>
    unfold HandlerState.committed
    dsimp only
    rw [skipped]
    exact .mk sk prop prep pc com skipped hprop hprep hpc hcom view bound

theorem blind_recordStats : Blind cfg v k recordStats := by
  intro s s' hs
  cases hs with
  | mk sk prop prep pc com skipped hprop hprep hpc hcom view bound =>
    show SameResult _ _ ((if s.joined = true then throw .systemError else set _ : HandlerM PUnit) _)
      ((if s.joined = true then throw .systemError else set _ : HandlerM PUnit) _)
    split
    · exact .error (.mk sk prop prep pc com skipped hprop hprep hpc hcom (Nat.zero_le _) bound)
    · exact .ok (.mk sk prop prep pc com skipped hprop hprep hpc hcom view bound)

/-- A block is executed alike, with all the views that follow. -/
theorem blind_executeComb (fuel : ℕ) (data : RData) : Blind cfg v v (executeComb cfg o fuel data) := by
  -- by induction on the executions that the views which are started run in turn
  induction fuel generalizing data with
  | zero => exact .raise fun _ _ h => h.mono (Nat.zero_le _)
  | succ fuel ih =>
    have hnext : Blind cfg v v (get >>= fun s =>
        if timeToStopComb cfg s = true then recordStats
        else startNewViewComb cfg o (executeComb cfg o fuel) fuel) :=
      .read_bind (fun s s' hs => by cases hs; rfl) fun s _ _ =>
        .cond (fun _ => blind_recordStats) fun _ => blind_startNewViewComb ih fuel
    intro s s' hs
    have hcommitted := fun block => hnext _ _ (hs.committed (o := o) data block)
    have hsame := hs
    cases hs with
    | mk sk prop prep pc com skipped hprop hprep hpc hcom view bound =>
      unfold executeComb
      show SameResult _ _ ((if data.propv ∈ s.processedCommit then _ else _ : HandlerM Unit) _)
        ((if data.propv ∈ s.processedCommit then _ else _ : HandlerM Unit) _)
      split
      · exact .ok hsame
      dsimp only
      cases s.blocks.lookup data.propv with
      | none => exact .ok hsame
      | some block =>
        dsimp only
        split
        · exact .ok hsame
        · exact hcommitted block

end Raftel
