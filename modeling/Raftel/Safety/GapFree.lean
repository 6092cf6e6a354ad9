import Raftel.Safety.LeaderAgreement
import Raftel.Safety.StateDiscipline

/-!
# The executed chain

`executeComb` executes one block and does not look at its parent.  A replica whose timer runs out
before the final certificate of a view reaches it never executes the block of that view, while later
blocks extend it: the replica's chain has a gap, and the transactions of the block are lost on it.

* `gapFree_of_untimed` : no gaps, when no timer runs out in a view in which a block is prepared
* `not_gapFree_timeout` : a correct replica in a correct system that leaves out a block
-/

namespace Raftel

/-! ### What is to hold -/

/-- Every executed block extends the block executed before it; the first one extends genesis. -/
def GapFree (sha : Text → Digest) (executed : List Execution) : Prop :=
  ∀ l e l', executed = l ++ e :: l' →
    (l = [] ∧ e.block.prevHash.hash = newHash.hash) ∨
      ∃ e', l.getLast? = some e' ∧ (e'.block.hash sha).hash = e.block.prevHash.hash

/-- The timer of a running replica runs out only in views that `timedOut` tells, and no intact
component holds a prepared block of such a view. -/
structure Untimed (sys : System) (timedOut : View → Bool) (acts : List Action) : Prop where
  timeouts : ∀ l p fuel l', acts = l ++ .input p fuel .timeout :: l' →
    ((sys.run l).replica p).host.stopped = false → ((sys.run l).replica p).host.timer = true →
    timedOut ((sys.run l).replica p).host.view = true
  prepared : ∀ p, sys.Intact p → ∀ r ∈ ((sys.run acts).net p).calls, r.post.prepv ≠ 0 →
    timedOut r.post.prepv = false

/-! ### Views that a replica has left -/

section Left

variable {Key : Type} {cfg : HandlerConfig Key} {sha : Text → Digest} {timedOut : View → Bool}

/-- An input that is a timeout comes in a view that `timedOut` tells. -/
def TimesOutIn (timedOut : View → Bool) (s : HandlerState) (input : Input) : Prop :=
  input.isTimeout = true → s.stopped = false → s.timer = true → timedOut s.view = true

/-- Every earlier view was executed or timed out. -/
def HandlerState.LeftViews (timedOut : View → Bool) (s : HandlerState) : Prop :=
  ∀ w, 0 < w → w < s.view → w ∈ s.processedCommit ∨ timedOut w = true

theorem HandlerState.LeftViews.mono {s s' : HandlerState} (h : s.LeftViews timedOut)
    (hview : s'.view = s.view) (hdone : s.processedCommit ⊆ s'.processedCommit) :
    s'.LeftViews timedOut := by
  intro w hpos hlt
  rw [hview] at hlt
  exact (h w hpos hlt).imp_left fun hw => hdone hw

/-- The view that is left was executed or timed out. -/
theorem HandlerState.LeftViews.succ {s s' : HandlerState} (h : s.LeftViews timedOut)
    (hview : s'.view = s.view + 1) (hdone : s.processedCommit ⊆ s'.processedCommit)
    (hleft : s.view ∈ s.processedCommit ∨ timedOut s.view = true) : s'.LeftViews timedOut := by
  intro w hpos hlt
  rw [hview] at hlt
  rcases Nat.lt_succ_iff_lt_or_eq.mp hlt with hlt | rfl
  · exact (h w hpos hlt).imp_left fun hw => hdone hw
  · exact hleft.imp_left fun hw => hdone hw

theorem Step.processedCommit_subset {o : Oracle Key} {misled : Prop} {received : Msg → Prop} {s s' : HandlerState}
    (h : Step cfg o misled received s s') : s.processedCommit ⊆ s'.processedCommit := by
  rcases h.execution_cases with ⟨data, block, -, -, -, -, rfl⟩ | hsame
  · exact fun v hv => mem_viewInsert_of_mem _ hv
  · rw [hsame.processedCommit]
    exact List.Subset.refl _

theorem Begin.processedCommit_eq {o : Oracle Key} {s s₁ : HandlerState} {input : Input}
    (h : Begin cfg o s input s₁) : s₁.processedCommit = s.processedCommit :=
  h.sameExecutions.processedCommit

theorem StepRun.leftViews {s : HandlerState} (h : StepRun cfg sha True (TimesOutIn timedOut) s) :
    s.LeftViews timedOut := by
  induction h with
  | init => exact fun w hpos hlt => absurd hlt (Nat.not_lt.mpr hpos)
  | @input s s₁ o input hs _ hok hbegin ih =>
    have hdone : s.processedCommit ⊆ s₁.processedCommit := by
      rw [hbegin.processedCommit_eq]
      exact List.Subset.refl _
    cases hbegin with
    | other => exact ih
    | stopped => exact ih
    | start => exact ih
    | timeout hrun htimer henter =>
      have hview := (enterView_view henter (by rw [s.skipLeader_tc]; exact hs.tc_lt)).1
      rw [s.skipLeader_view] at hview
      exact ih.succ hview hdone (Or.inr (hok rfl hrun htimer))
    | hang hrun htimer henter =>
      refine ih.mono ?_ hdone
      obtain ⟨n, rfl⟩ := enterView_error henter
      rw [HandlerState.signedTimes_eq]
      exact s.skipLeader_view
  | step hs _ hstep ih =>
    rcases hstep.view_cases with ⟨hview, -⟩ | ⟨hcommit, -, fuel, just, henter⟩
    · exact ih.mono hview hstep.processedCommit_subset
    · exact ih.succ (enterView_view henter hs.tc_lt).1 hstep.processedCommit_subset (Or.inl hcommit)

end Left

/-! ### Parents -/

section Parents

variable {sys : System} {net : Net} {leader : View → PID}

/-- A component that has prepared no block holds the genesis pair. -/
theorem NetInv.preph_of_zero (hinv : NetInv sys net) (hwrap : net.NoWrap sys) {p : PID}
    (hp : sys.Intact p) {r : CallRecord} (hr : r ∈ (net p).calls) (hzero : r.pre.prepv = 0) :
    r.pre.preph = newHash := by
  have hall := ((hinv.trace p hp).invariant (I := fun st => st.prepv = 0 → st.preph = newHash)
    (fun _ => rfl) fun r hr hvalid hpre hpost => ?_).2 r hr
  · exact hall.1 hzero
  · cases hrd : r.rdata? with
    | none =>
      rw [hvalid.post_eq hrd] at hpost ⊢
      exact hpre hpost
    | some rd =>
      have hpos := ((hinv.ordered hwrap hp).2 r hr).1.view_pos
      rcases (hvalid.accepts hrd).pairs.1 with ⟨hh, hv⟩ | hv
      · rw [hv] at hpost
        rw [hh]
        exact hpre hpost
      · rw [← hv, hpost] at hpos
        exact absurd hpos (lt_irrefl 0)

/-- The accumulated pair of a disciplined proposal: genesis, or the prepared block of an intact
component. -/
theorem Proposal.Truthful.parent (hinv : NetInv sys net) (hdis : net.Disciplined sys leader)
    {x : Proposal} (hx : x.Truthful sys) {v : View}
    (hproof : ValidProof (sys.env net) v x.newviews x.acc) :
    (x.acc.prepv = 0 → x.acc.hash.hash = newHash.hash) ∧
      (x.acc.prepv ≠ 0 → ∃ p, sys.Intact p ∧ ∃ r ∈ (net p).calls, r.pre.prepv = x.acc.prepv) := by
  rcases hx with ⟨hzero, hhash⟩ | ⟨nv, hnv, hintact, hjustv, hjusth⟩
  · exact ⟨fun _ => hhash, fun hne => absurd hzero hne⟩
  · obtain ⟨hphase, hpropv⟩ := hproof.newview nv hnv
    obtain ⟨r, hr, hrd⟩ := hinv.exists_call hintact (hproof.verified nv hnv)
    have hvalid := (hinv.trace _ hintact).ok_of_mem hr
    obtain ⟨-, hpreph, hprepv⟩ := (hdis.mem hintact hr).newview hvalid hrd hphase
    refine ⟨fun hzero => ?_, fun _ => ⟨_, hintact, r, hr, hprepv.symm.trans hjustv⟩⟩
    rw [← hjusth, hpreph, hinv.preph_of_zero hdis.noWrap hintact hr]
    rw [← hprepv, hjustv, hzero]

end Parents

/-- The condition on the prepared blocks, before the calls. -/
theorem Untimed.pre {sys : System} {timedOut : View → Bool} {acts : List Action}
    (h : Untimed sys timedOut acts) {p : PID} (hp : sys.Intact p) {r : CallRecord}
    (hr : r ∈ ((sys.run acts).net p).calls) (hne : r.pre.prepv ≠ 0) :
    timedOut r.pre.prepv = false := by
  have hinv := (run_reachable sys acts).netInv
  have hall := ((hinv.trace p hp).invariant
    (I := fun st => st.prepv ≠ 0 → timedOut st.prepv = false) (fun hne => absurd rfl hne)
    fun r hr _ _ => h.prepared p hp r hr).2 r hr
  exact hall.1 hne

/-! ### Runs -/

/-- The last of an increasing list of executions. -/
theorem getLast?_of_increasing {l : List Execution}
    (hincr : l.Pairwise fun e e' => e.data.propv < e'.data.propv) {e : Execution} (he : e ∈ l)
    (hmax : ∀ e' ∈ l, e'.data.propv ≤ e.data.propv) : l.getLast? = some e := by
  obtain ⟨l₁, l₂, rfl⟩ := List.append_of_mem he
  cases l₂ with
  | nil => exact List.getLast?_concat
  | cons e' l₂ =>
    have hlt : e.data.propv < e'.data.propv :=
      (List.pairwise_cons.mp (List.pairwise_append.mp hincr).2.1).1 e' List.mem_cons_self
    have hle := hmax e' (List.mem_append_right _ (List.mem_cons_of_mem _ List.mem_cons_self))
    exact absurd hlt (Nat.not_lt.mpr hle)

/-- A correct replica of a system, as a run of its own. -/
theorem Untimed.stepRun {sys : System} {timedOut : View → Bool} {acts : List Action}
    (h : Untimed sys timedOut acts) {p : PID} (hp : sys.Correct p) :
    StepRun (sys.config p) sys.sha256 True (TimesOutIn timedOut) ((sys.run acts).replica p).host := by
  have hrun : HostRunWhere (sys.config p) sys.sha256 (TimesOutIn timedOut)
      ((sys.run acts).replica p).host := by
    refine run_hostRunWhere hp acts fun l fuel i l' heq htimeout hstopped htimer => ?_
    cases i with
    | timeout => exact h.timeouts l p fuel l' heq hstopped htimer
    | peer msg => cases htimeout
    | start cid => cases htimeout
    | transaction t => cases htimeout
  exact hrun.stepRun fun _ _ _ _ => trivial

/-- A view whose block some component holds is executed by every replica that leaves it. -/
theorem Untimed.exists_executed {sys : System} {timedOut : View → Bool} {acts : List Action}
    (h : Untimed sys timedOut acts) {p : PID} (hp : sys.Correct p) {q : PID} (hq : sys.Intact q)
    {r : CallRecord} (hr : r ∈ ((sys.run acts).net q).calls) (hne : r.pre.prepv ≠ 0)
    (hlt : r.pre.prepv < ((sys.run acts).replica p).host.view) :
    ∃ e ∈ ((sys.run acts).replica p).host.executed, e.data.propv = r.pre.prepv := by
  have hrun := h.stepRun hp
  rcases hrun.leftViews _ (Nat.pos_of_ne_zero hne) hlt with hdone | htimed
  · exact hrun.committedExecuted _ hdone
  · rw [h.pre hq hr hne] at htimed
    cases htimed

/-- **No gaps.**  In every run whose calls are disciplined, in which replicas know the leaders of the
views that they execute, and in which no timer runs out in a view with a prepared block: every block
that a correct replica executes extends the one that it executed before. -/
theorem gapFree_of_untimed (sys : System) (acts : List Action) (leader : View → PID)
    (timedOut : View → Bool) (hcoll : CollisionFree sys (sys.run acts).net)
    (hdis : (sys.run acts).net.Disciplined sys leader)
    (hleader : (sys.run acts).net.LeadersKnown sys leader) (huntimed : Untimed sys timedOut acts)
    (p : PID) (hp : sys.Correct p) : GapFree sys.sha256 ((sys.run acts).replica p).host.executed := by
  have hinv := (run_reachable sys acts).netInv
  have hintact : sys.Intact p := ⟨hp.1, Or.inr hp.2⟩
  have hlocked : ∀ e ∈ ((sys.run acts).replica p).host.executed,
      ExecutedLocked sys (sys.run acts).net leader p e :=
    fun e he => run_executedLocked sys acts leader hcoll hdis hleader hp he
  have hordered : OrderedExecutions ((sys.run acts).replica p).host :=
    ((run_hostRunWhere hp acts fun _ _ _ _ _ => trivial).stepRun fun _ _ _ _ => trivial :
      StepRun (sys.config p) sys.sha256 True (fun _ _ => True) _).orderedExecutions
  intro l e l' hsplit
  have hmem : ∀ e' ∈ l, e' ∈ ((sys.run acts).replica p).host.executed := by
    intro e' he'
    rw [hsplit]
    exact List.mem_append_left _ he'
  have he : e ∈ ((sys.run acts).replica p).host.executed := by
    rw [hsplit]
    exact List.mem_append_right _ List.mem_cons_self
  have hincr := hordered.increasing
  rw [hsplit, List.pairwise_append] at hincr
  obtain ⟨hincr, hafter, hbefore⟩ := hincr
  -- the proposal of the block and its accumulated pair
  obtain ⟨r, hr, x, hx, hview, hxb⟩ := (hlocked e he).accepted
  obtain ⟨hproof, hparent, -⟩ := ((hinv.trace p hintact).ok_of_mem hr).proposal hx
  rw [hview] at hproof
  have htruthful := ((hdis.mem hintact hr).2.1 x hx).2.1
  obtain ⟨hgenesis, hholder⟩ := htruthful.parent hinv hdis hproof
  -- it is not older than any block executed before
  have hle : ∀ e' ∈ l, e'.data.propv ≤ x.acc.prepv := fun e' he' =>
    (hlocked e' (hmem e' he')).locked.le_prepv hinv hdis
      (hbefore e' he' e List.mem_cons_self) hproof
  rw [← hxb, hparent]
  by_cases hzero : x.acc.prepv = 0
  · refine Or.inl ⟨List.eq_nil_iff_forall_not_mem.mpr fun e' he' => ?_, hgenesis hzero⟩
    have hpos := (hlocked e' (hmem e' he')).view_pos
    exact absurd (hzero ▸ hle e' he') (Nat.not_le.mpr hpos)
  · right
    -- the parent's view did not time out, so the replica has executed it, and before this block
    obtain ⟨q, hq, rq, hrq, hprepv⟩ := hholder hzero
    obtain ⟨hlt, hprep⟩ := htruthful.preparedAt hinv hdis hproof (Nat.pos_of_ne_zero hzero)
    rw [← hprepv] at hzero hlt
    obtain ⟨e', he', hpropv⟩ :=
      huntimed.exists_executed hp hq hrq hzero (lt_of_lt_of_le hlt (hordered.marked e he).2)
    have hl : e' ∈ l := by
      rw [← hpropv] at hlt
      rw [hsplit] at he'
      rcases List.mem_append.mp he' with he' | he'
      · exact he'
      · rcases List.mem_cons.mp he' with rfl | he'
        · exact absurd hlt (lt_irrefl _)
        · exact absurd hlt (Nat.lt_asymm ((List.pairwise_cons.mp hafter).1 e' he'))
    rw [hprepv] at hpropv
    refine ⟨e', getLast?_of_increasing hincr hl fun e'' he'' => hpropv ▸ hle e'' he'', ?_⟩
    have hprep' := (hlocked e' (hmem e' hl)).prepared
    rw [hpropv] at hprep'
    exact hprep'.unique hinv hdis hprep

/-! ### A missed certificate -/

/-- **A block is left out.**  All replicas are correct and every message was sent, but replica 1 has
executed the blocks of views 1 and 5, and the latter extends the one of view 2. -/
theorem not_gapFree_timeout :
    (pairSystem.byz = ∅ ∧ Faithful pairSystem (pairSystem.play missedMoves).1) ∧
      ¬ GapFree pairSha
        ((pairSystem.run (pairSystem.play missedMoves).1).replica 1).host.executed := by
  obtain ⟨hrun, hfaithful⟩ := pairSystem.play_spec missedMoves
  refine ⟨⟨rfl, hfaithful⟩, fun h => ?_⟩
  rw [← hrun] at h
  have hviews : ((pairSystem.play missedMoves).2.replica 1).host.executed.map
      (fun e => ((e.block.hash pairSha).hash, e.block.prevHash.hash)) =
        [(emptyBlockDigest, newHash.hash), (lateBlockDigest, nextBlockDigest)] := by
    decide +kernel
  generalize ((pairSystem.play missedMoves).2.replica 1).host.executed = executed at h hviews
  obtain ⟨e₁, rest, rfl, h₁, hrest⟩ := List.map_eq_cons_iff.mp hviews
  obtain ⟨e₂, rest, rfl, h₂, -⟩ := List.map_eq_cons_iff.mp hrest
  rcases h [e₁] e₂ rest rfl with ⟨hnil, -⟩ | ⟨e, hlast, hhash⟩
  · cases hnil
  · rw [List.getLast?_singleton, Option.some.injEq] at hlast
    rw [Prod.mk.injEq] at h₁ h₂
    rw [← hlast, h₁.1, h₂.2] at hhash
    exact absurd hhash (by decide)

/-- Without timeouts both replicas execute the two blocks. -/
def noTimeoutMoves : List Move :=
  firstViewMoves ++ [.deliver 1 2 2, .deliver 2 2 1, .deliver 1 3 2, .deliver 2 3 1]

theorem gapFree_no_timeout :
    (CollisionFree pairSystem (pairSystem.run (pairSystem.play noTimeoutMoves).1).net ∧
      (pairSystem.run (pairSystem.play noTimeoutMoves).1).net.Disciplined pairSystem (fun v => v) ∧
      (pairSystem.run (pairSystem.play noTimeoutMoves).1).net.LeadersKnown pairSystem (fun v => v) ∧
      Untimed pairSystem (fun _ => false) (pairSystem.play noTimeoutMoves).1) ∧
    ((pairSystem.run (pairSystem.play noTimeoutMoves).1).replica 1).host.executed.map
        (fun e => e.block.id) = [11, 22] ∧
      GapFree pairSha
        ((pairSystem.run (pairSystem.play noTimeoutMoves).1).replica 1).host.executed := by
  have hrun := (pairSystem.play_spec noTimeoutMoves).1
  have huntimed : Untimed pairSystem (fun _ => false) (pairSystem.play noTimeoutMoves).1 := by
    have hnone : ∀ a ∈ (pairSystem.play noTimeoutMoves).1, a.isTimeout = false := by decide +kernel
    refine ⟨fun l p fuel l' heq => ?_, fun _ _ _ _ _ => rfl⟩
    have htimeout := hnone (.input p fuel .timeout) (by rw [heq]; simp)
    cases htimeout
  -- the run is evaluated once for all that is decided about it
  obtain ⟨hcoll, hdis, hleader, hexecuted⟩ :
      CollisionFree pairSystem (pairSystem.run (pairSystem.play noTimeoutMoves).1).net ∧
        (pairSystem.run (pairSystem.play noTimeoutMoves).1).net.Disciplined pairSystem (fun v => v) ∧
        (pairSystem.run (pairSystem.play noTimeoutMoves).1).net.LeadersKnown pairSystem (fun v => v) ∧
        ((pairSystem.run (pairSystem.play noTimeoutMoves).1).replica 1).host.executed.map
          (fun e => e.block.id) = [11, 22] := by
    rw [← hrun]
    decide +kernel
  exact ⟨⟨hcoll, hdis, hleader, huntimed⟩, hexecuted,
    gapFree_of_untimed pairSystem _ _ _ hcoll hdis hleader huntimed 1 (by decide)⟩

end Raftel
