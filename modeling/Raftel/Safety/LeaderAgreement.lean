import Raftel.Safety.InStep
import Raftel.Safety.Agreement
import Raftel.Network

/-!
# Leaders

Leaders rotate, but a replica passes over those that it has seen time out.  Which these are is known
to the replica alone, and a lookup forgets them all once every replica is among them.  So replicas
that leave a view in different ways, one by executing its block and the other because its timer ran
out, take different replicas for the leader of a later view.

* `leadersAgree_of_sameEnds` : leaders agree as long as every view ends for all replicas in the same way
* `not_leadersAgree_timeout` : in view 6 two correct replicas follow different leaders
-/

namespace Raftel

variable {Key : Type}

/-! ### What is to hold -/

/-- Two replicas of a system, in states of the same view, agree on its leader and on whether a
`prepare` certificate is final. -/
def SameLeader (sys : System) (p q : PID) (s t : HandlerState) : Prop :=
  s.view = t.view →
    s.leader (sys.config p) = t.leader (sys.config q) ∧
      (sys.config p).isTEE (s.leader (sys.config p)) = (sys.config q).isTEE (t.leader (sys.config q))

/-- In the run of `acts` the timer of a running replica runs out only in views that `timedOut` tells,
while not every replica is skipped, and only other views are executed. -/
structure SameEnds (sys : System) (timedOut : View → Bool) (acts : List Action) : Prop where
  timeouts : ∀ l p fuel l', acts = l ++ .input p fuel .timeout :: l' →
    ((sys.run l).replica p).host.stopped = false → ((sys.run l).replica p).host.timer = true →
    timedOut ((sys.run l).replica p).host.view = true ∧
      ¬ (sys.config p).AllSkipped ((sys.run l).replica p).host.skippedLeaders
  executions : ∀ p, sys.Correct p → ∀ e ∈ ((sys.run acts).replica p).host.executed,
    timedOut e.data.propv = false

/-! ### The skipped leaders -/

section Skipped

variable (cfg : HandlerConfig Key) (timedOut : View → Bool)

/-- The skipped leaders as a lookup takes them: when all replicas are skipped, none is. -/
def HandlerConfig.effective (skipped : List PID) : List PID :=
  if cfg.AllSkipped skipped then [] else skipped

/-- The leaders that are skipped in a view when exactly the views that `timedOut` tells end by a
timeout. -/
def HandlerConfig.skipsAt : View → List PID
  | 0 => []
  | v + 1 =>
    if v = 0 then []
    else if timedOut v then cfg.effective (viewInsert (v % cfg.total) (HandlerConfig.skipsAt v))
    else HandlerConfig.skipsAt v

/-- The replica skips the leaders of its view. -/
def HandlerState.SkipsAs (s : HandlerState) : Prop :=
  cfg.effective s.skippedLeaders = cfg.skipsAt timedOut s.view

/-- An input that is a timeout comes in a view that `timedOut` tells, while not every replica is
skipped. -/
def TimeoutsIn (s : HandlerState) (input : Input) : Prop :=
  input.isTimeout = true → s.stopped = false → s.timer = true →
    timedOut s.view = true ∧ ¬ cfg.AllSkipped s.skippedLeaders

end Skipped

section Lookups

variable {cfg : HandlerConfig Key}

theorem HandlerConfig.effective_of_not {skipped : List PID} (h : ¬ cfg.AllSkipped skipped) :
    cfg.effective skipped = skipped := if_neg h

/-- The leader depends on the effective set only. -/
theorem HandlerConfig.leader_eq_effective (hrot : cfg.fixedLeaderMode = false) (s : HandlerState) :
    s.leader cfg = (cfg.leaderOf (cfg.effective s.skippedLeaders) s.view).1 := by
  unfold HandlerState.leader
  by_cases hall : cfg.AllSkipped s.skippedLeaders
  · have hcleared : cfg.effective s.skippedLeaders = (cfg.leaderOf s.skippedLeaders s.view).2 := by
      rw [HandlerConfig.leaderOf_of_allSkipped hrot hall]
      exact if_pos hall
    rw [hcleared, cfg.leaderOf_lookup]
  · rw [HandlerConfig.effective_of_not hall]

theorem HandlerConfig.effective_lookup (hrot : cfg.fixedLeaderMode = false) (skipped : List PID)
    (w : View) : cfg.effective (cfg.leaderOf skipped w).2 = cfg.effective skipped := by
  by_cases hall : cfg.AllSkipped skipped
  · rw [HandlerConfig.leaderOf_of_allSkipped hrot hall]
    have hnone : ¬ cfg.AllSkipped [] := fun h =>
      absurd (h 0 (Nat.succ_pos _)) List.not_mem_nil
    rw [HandlerConfig.effective_of_not hnone]
    exact (if_pos hall).symm
  · rw [HandlerConfig.leaderOf_snd (Or.inr hall)]

end Lookups

/-! ### Steps -/

section Steps

variable {cfg : HandlerConfig Key} {o : Oracle Key} {timedOut : View → Bool}

/-- A view that ended by an execution adds no leader. -/
theorem HandlerConfig.skipsAt_executed {v : View} (hpos : v ≠ 0) (h : timedOut v = false) :
    cfg.skipsAt timedOut (v + 1) = cfg.skipsAt timedOut v := by
  rw [skipsAt, if_neg hpos, h]
  rfl

/-- A view that ended by a timeout adds its nominal leader. -/
theorem HandlerConfig.skipsAt_timedOut {v : View} (hpos : v ≠ 0) (h : timedOut v = true) :
    cfg.skipsAt timedOut (v + 1) =
      cfg.effective (viewInsert (v % cfg.total) (cfg.skipsAt timedOut v)) := by
  rw [skipsAt, if_neg hpos, if_pos h]

/-- What was executed stays executed. -/
theorem Step.executed_subset {misled : Prop} {received : Msg → Prop} {s s' : HandlerState}
    (h : Step cfg o misled received s s') :
    s.executed ⊆ s'.executed := by
  rcases h.execution_cases with ⟨data, block, -, -, -, -, rfl⟩ | hsame
  · exact List.subset_append_left _ _
  · rw [hsame.executed]
    exact List.Subset.refl _

/-- Every marked view was executed. -/
def CommittedExecuted (s : HandlerState) : Prop :=
  ∀ v ∈ s.processedCommit, ∃ e ∈ s.executed, e.data.propv = v

theorem CommittedExecuted.of_same {s s' : HandlerState} (h : CommittedExecuted s)
    (hsame : SameExecutions s s') : CommittedExecuted s' := by
  unfold CommittedExecuted
  rw [hsame.processedCommit, hsame.executed]
  exact h

theorem CommittedExecuted.committed {s : HandlerState} (h : CommittedExecuted s) (data : RData)
    (block : Block) : CommittedExecuted (s.committed cfg o data block) := by
  intro v hv
  have hcommit : (s.committed cfg o data block).processedCommit =
      viewInsert data.propv s.processedCommit := rfl
  have hexecuted : (s.committed cfg o data block).executed =
      s.executed ++ [⟨data, block, s.leader cfg⟩] := rfl
  rw [hcommit, viewInsert] at hv
  rw [hexecuted]
  have hold : v ∈ s.processedCommit → ∃ e ∈ s.executed ++ [⟨data, block, s.leader cfg⟩],
      e.data.propv = v := by
    intro hv
    obtain ⟨e, he, heq⟩ := h v hv
    exact ⟨e, List.mem_append_left _ he, heq⟩
  split at hv
  · exact hold hv
  · rcases List.mem_cons.mp hv with rfl | hv
    · exact ⟨_, List.mem_append_right _ (List.mem_singleton_self _), rfl⟩
    · exact hold hv

theorem StepRun.committedExecuted {sha : Text → Digest} {misled : Prop}
    {ok : HandlerState → Input → Prop} {s : HandlerState} (h : StepRun cfg sha misled ok s) :
    CommittedExecuted s := by
  induction h with
  | init => exact fun v hv => absurd hv List.not_mem_nil
  | input _ _ _ hbegin ih => exact ih.of_same hbegin.sameExecutions
  | step _ _ hstep ih =>
    rcases hstep.execution_cases with ⟨data, block, -, -, -, -, rfl⟩ | hsame
    · exact ih.committed data block
    · exact ih.of_same hsame

/-- There is no view 0. -/
theorem StepRun.view_ne_zero {sha : Text → Digest} {misled : Prop}
    {ok : HandlerState → Input → Prop} {s : HandlerState} (h : StepRun cfg sha misled ok s) :
    s.view ≠ 0 := by
  have hpos : 1 ≤ s.view := by
    induction h with
    | init => exact le_rfl
    | input hs _ _ hbegin ih => exact ih.trans (hbegin.view_le hs.tc_lt)
    | step hs _ hstep ih => exact ih.trans (hstep.view_le hs.tc_lt)
  exact Nat.ne_of_gt hpos

/-- **One step.** -/
theorem Step.skipsAs {misled : Prop} {received : Msg → Prop} {s s' : HandlerState}
    (hstep : Step cfg o misled received s s')
    (hrot : cfg.fixedLeaderMode = false) (hlt : s.tc.view < 2 ^ 32) (hpos : s.view ≠ 0)
    (hdone : s.view ∈ s.processedCommit → timedOut s.view = false) (h : s.SkipsAs cfg timedOut) :
    s'.SkipsAs cfg timedOut := by
  unfold HandlerState.SkipsAs at h ⊢
  rcases hstep.view_cases with ⟨hview, hskip⟩ | ⟨hcommit, -, fuel, just, henter⟩
  · rw [hview]
    rcases hskip with hskip | ⟨w, hskip⟩
    · rw [hskip, h]
    · rw [hskip, cfg.effective_lookup hrot, h]
  · rw [(enterView_view henter hlt).1, cfg.skipsAt_executed hpos (hdone hcommit), ← h]
    obtain ⟨n, rfl, -⟩ := enterView_ok henter
    rw [HandlerState.signedTimes_eq]

theorem Begin.skipsAs {s s₁ : HandlerState} {input : Input} (hbegin : Begin cfg o s input s₁)
    (hok : TimeoutsIn cfg timedOut s input) (hlive : ¬ Hangs cfg o (s.skipLeader cfg) s₁)
    (hrot : cfg.fixedLeaderMode = false) (hlt : s.tc.view < 2 ^ 32) (hpos : s.view ≠ 0)
    (h : s.SkipsAs cfg timedOut) : s₁.SkipsAs cfg timedOut := by
  unfold HandlerState.SkipsAs at h ⊢
  cases hbegin with
  | other => exact h
  | stopped => exact h
  | start =>
    show cfg.effective (cfg.leaderOf (cfg.leaderOf s.skippedLeaders s.view).2 (nextView s.view)).2 =
      cfg.skipsAt timedOut s.view
    rw [cfg.effective_lookup hrot, cfg.effective_lookup hrot, h]
  | timeout hrun htimer henter =>
    obtain ⟨htimed, hnot⟩ := hok rfl hrun htimer
    -- before the timeout no lookup was due to clear the set
    rw [cfg.effective_of_not hnot] at h
    rw [(enterView_view henter (by rwa [s.skipLeader_tc])).1, s.skipLeader_view,
      cfg.skipsAt_timedOut hpos htimed, ← h]
    obtain ⟨n, rfl, -⟩ := enterView_ok henter
    rw [HandlerState.signedTimes_eq]
    show cfg.effective (s.skipLeader cfg).skippedLeaders = _
    rw [HandlerState.skipLeader, if_neg (by rw [hrot]; decide)]
  | hang hrun htimer henter => exact absurd ⟨_, _, _, henter, rfl⟩ hlive

end Steps

/-! ### Runs -/

section Runs

variable {cfg : HandlerConfig Key} {sha : Text → Digest} {timedOut : View → Bool}

theorem LiveRun.skipsAs (hrot : cfg.fixedLeaderMode = false) {s : HandlerState}
    (h : LiveRun cfg sha (TimeoutsIn cfg timedOut) s)
    (hexec : ∀ e ∈ s.executed, timedOut e.data.propv = false) : s.SkipsAs cfg timedOut := by
  induction h with
  | init =>
    have hnone : ¬ cfg.AllSkipped [] := fun h => absurd (h 0 (Nat.succ_pos _)) List.not_mem_nil
    exact cfg.effective_of_not hnone
  | input hs _ hok hbegin hlive ih =>
    rw [hbegin.sameExecutions.executed] at hexec
    exact hbegin.skipsAs hok hlive hrot hs.stepRun.tc_lt hs.stepRun.view_ne_zero (ih hexec)
  | step hs _ hstep _ ih =>
    have hexec' := fun e he => hexec e (hstep.executed_subset he)
    refine hstep.skipsAs hrot hs.stepRun.tc_lt hs.stepRun.view_ne_zero (fun hdone => ?_) (ih hexec')
    obtain ⟨e, he, heq⟩ := hs.stepRun.committedExecuted _ hdone
    rw [← heq]
    exact hexec' e he

end Runs

/-- A correct replica in a run whose views end in the same way for all replicas. -/
theorem SameEnds.liveRun {sys : System} {timedOut : View → Bool} {acts : List Action}
    (h : SameEnds sys timedOut acts) {p : PID} (hp : sys.Correct p) :
    ((sys.run acts).replica p).host.stopped = true ∨
      LiveRun (sys.config p) sys.sha256 (TimeoutsIn (sys.config p) timedOut)
        ((sys.run acts).replica p).host := by
  have hrun : HostRunWhere (sys.config p) sys.sha256 (TimeoutsIn (sys.config p) timedOut)
      ((sys.run acts).replica p).host := by
    refine run_hostRunWhere hp acts fun l fuel i l' heq htimeout hstopped htimer => ?_
    cases i with
    | timeout => exact h.timeouts l p fuel l' heq hstopped htimer
    | peer msg => cases htimeout
    | start cid => cases htimeout
    | transaction t => cases htimeout
  exact hrun.liveRun

/-- The schedule of skipped leaders is the same for all replicas. -/
theorem System.skipsAt_config (sys : System) (timedOut : View → Bool) (p q : PID) (v : View) :
    (sys.config p).skipsAt timedOut v = (sys.config q).skipsAt timedOut v := by
  induction v with
  | zero => rfl
  | succ v ih =>
    rw [HandlerConfig.skipsAt, HandlerConfig.skipsAt, ih]
    rfl

/-- **Leaders agree** when every view ends for all replicas in the same way: the states of the running
replicas of a system are reached by steps, and in all states so reached, at the same time or not and
in the middle of a handler as well, replicas in the same view have the same leader. -/
theorem leadersAgree_of_sameEnds (sys : System) (hrot : sys.fixedLeaderMode = false)
    (timedOut : View → Bool) :
    (∀ acts, SameEnds sys timedOut acts → ∀ p, sys.Correct p →
      ((sys.run acts).replica p).host.stopped = true ∨
        LiveRun (sys.config p) sys.sha256 (TimeoutsIn (sys.config p) timedOut)
          ((sys.run acts).replica p).host) ∧
      ∀ p q s t, LiveRun (sys.config p) sys.sha256 (TimeoutsIn (sys.config p) timedOut) s →
        LiveRun (sys.config q) sys.sha256 (TimeoutsIn (sys.config q) timedOut) t →
        (∀ e ∈ s.executed, timedOut e.data.propv = false) →
        (∀ e ∈ t.executed, timedOut e.data.propv = false) → SameLeader sys p q s t := by
  refine ⟨fun acts hends p hp => hends.liveRun hp, fun p q s t hs ht hexec hexec' hview => ?_⟩
  have hleader : s.leader (sys.config p) = t.leader (sys.config q) := by
    rw [(sys.config p).leader_eq_effective hrot, (sys.config q).leader_eq_effective hrot,
      LiveRun.skipsAs hrot hs hexec, LiveRun.skipsAs hrot ht hexec', hview,
      sys.skipsAt_config timedOut p q]
    rfl
  refine ⟨hleader, ?_⟩
  rw [hleader, sys.isTEE_config, sys.isTEE_config]

/-! ### A replica that misses a certificate -/

section Missed

/-- SHA-256 of the text of `lateBlock`. -/
def lateBlockDigest : Digest :=
  #v[12, 105, 102, 122, 46, 39, 41, 180, 81, 15, 34, 230, 15, 63, 236, 226, 49, 71, 140, 39, 81, 8, 35,
    219, 168, 250, 71, 103, 55, 163, 175, 185]

/-- The block of leader 1 in view 5, which extends the one of view 2. -/
def lateBlock : Block := { emptyBlock 15 with prevHash := ⟨nextBlockDigest, true⟩ }

/-- SHA-256 on the texts of three blocks. -/
def pairSha (t : Text) : Digest :=
  if t = (emptyBlock 11).toText then emptyBlockDigest
  else if t = nextBlock.toText then nextBlockDigest
  else if t = lateBlock.toText then lateBlockDigest
  else Vector.replicate _ 255

theorem card_empty_le_one : (∅ : Finset PID).card ≤ 1 := Nat.zero_le _

/-- Four correct replicas, 1 and 2 with a TEE. -/
def pairSystem : System where
  f := 1
  f_pos := Nat.one_pos
  tee := {1, 2}
  tee_sub := hybridSystem.tee_sub
  byz := ∅
  byz_sub := noTEESystem.tee_sub
  byz_card := card_empty_le_one
  sha256 := pairSha
  maxViews := 0
  fixedLeaderMode := false
  fixedLeader := 0

/-- Replica 1 leads view 1; replicas 1 and 2 execute its block. -/
def firstViewMoves : List Move :=
  [.start 1 0, .start 2 0, .deliver 2 0 1, .deliver 1 0 2, .deliver 2 1 1, .deliver 1 1 2]

/-- Replica 2 leads view 2 and executes its block, but the certificate does not reach replica 1, which
times out.  Nothing happens in views 3 and 4.  Replica 1 leads view 5 and executes its block. -/
def missedMoves : List Move :=
  firstViewMoves ++ [.deliver 1 2 2, .deliver 2 2 1, .deliver 1 3 2, .timeout 1, .timeout 1,
    .timeout 1, .timeout 2, .timeout 2, .deliver 2 6 1, .deliver 1 6 2, .deliver 2 7 1]

/-- Replica 2 executes the block of view 5 as well. -/
def viewSixMoves : List Move := missedMoves ++ [.deliver 1 7 2]

/-- **A timeout and an execution.**  In view 6 replica 1 takes itself for the leader, and replica 2
itself: both have a TEE, all replicas are correct, and every message was sent. -/
theorem not_leadersAgree_timeout :
    (pairSystem.byz = ∅ ∧ Faithful pairSystem (pairSystem.play viewSixMoves).1) ∧
      ((pairSystem.run (pairSystem.play viewSixMoves).1).replica 1).host.view = 6 ∧
      ((pairSystem.run (pairSystem.play viewSixMoves).1).replica 2).host.view = 6 ∧
      ¬ SameLeader pairSystem 1 2 ((pairSystem.run (pairSystem.play viewSixMoves).1).replica 1).host
        ((pairSystem.run (pairSystem.play viewSixMoves).1).replica 2).host := by
  obtain ⟨hrun, hfaithful⟩ := pairSystem.play_spec viewSixMoves
  rw [← hrun]
  -- the run is evaluated once for all that is decided about it
  obtain ⟨hview₁, hview₂, hdiffer⟩ :
      ((pairSystem.play viewSixMoves).2.replica 1).host.view = 6 ∧
        ((pairSystem.play viewSixMoves).2.replica 2).host.view = 6 ∧
        ((pairSystem.play viewSixMoves).2.replica 1).host.leader (pairSystem.config 1) ≠
          ((pairSystem.play viewSixMoves).2.replica 2).host.leader (pairSystem.config 2) := by
    decide +kernel
  refine ⟨⟨rfl, hfaithful⟩, hview₁, hview₂, fun h => ?_⟩
  obtain ⟨hleader, -⟩ := h (hview₁.trans hview₂.symm)
  exact hdiffer hleader

/-- An action that is a timeout. -/
def Action.isTimeout : Action → Bool
  | input _ _ i => i.isTimeout
  | _ => false

/-- After view 1, which ended by an execution for both replicas, they agree on leader 2. -/
theorem leadersAgree_first_view :
    SameEnds pairSystem (fun _ => false) (pairSystem.play firstViewMoves).1 ∧
      SameLeader pairSystem 1 2 ((pairSystem.run (pairSystem.play firstViewMoves).1).replica 1).host
        ((pairSystem.run (pairSystem.play firstViewMoves).1).replica 2).host ∧
      ((pairSystem.run (pairSystem.play firstViewMoves).1).replica 2).host.leader
        (pairSystem.config 2) = 2 := by
  have hrun := (pairSystem.play_spec firstViewMoves).1
  have hends : SameEnds pairSystem (fun _ => false) (pairSystem.play firstViewMoves).1 := by
    have hnone : ∀ a ∈ (pairSystem.play firstViewMoves).1, a.isTimeout = false := by decide +kernel
    refine ⟨fun l p fuel l' heq => ?_, fun _ _ _ _ => rfl⟩
    have htimeout := hnone (.input p fuel .timeout) (by rw [heq]; simp)
    cases htimeout
  obtain ⟨hlive, hsame⟩ := leadersAgree_of_sameEnds pairSystem rfl fun _ => false
  obtain ⟨hstopped, hleader⟩ : (∀ p ∈ [1, 2],
      ((pairSystem.run (pairSystem.play firstViewMoves).1).replica p).host.stopped ≠ true) ∧
        ((pairSystem.run (pairSystem.play firstViewMoves).1).replica 2).host.leader
          (pairSystem.config 2) = 2 := by
    rw [← hrun]
    decide +kernel
  have hlive₁ := (hlive _ hends 1 (by decide)).resolve_left (hstopped 1 (by decide))
  have hlive₂ := (hlive _ hends 2 (by decide)).resolve_left (hstopped 2 (by decide))
  exact ⟨hends, hsame 1 2 _ _ hlive₁ hlive₂ (fun _ _ => rfl) fun _ _ => rfl, hleader⟩

end Missed

end Raftel
