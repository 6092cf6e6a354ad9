import Raftel.Safety.ExecutedOnce
import Mathlib.Tactic.IntervalCases

/-!
# The view of a replica and the view of its component

`startNewViewComb` lets the component sign until it has signed for a later view, and expects the last
signature to be new-view data for the view that the replica enters.  This is so as long as the
component is in the replica's view, or at the very beginning of the next one.  Every accepted
proposal and certificate moves the component on; only the signature that the start message asks for
is made without a look at the component's view.

* `newViewProduced_of_startsInStep` : every view change produces a new-view, when the component is in
  the replica's view at the first start message
* `not_newViewProduced_early_proposals` : it is not when the first proposal came four times before
-/

namespace Raftel

variable {Key : Type}

/-! ### What is to hold -/

section Defs

variable (cfg : HandlerConfig Key) (o : Oracle Key)

/-- The branch of `startNewViewComb` in which a new-view is produced. -/
def produceNewView (exec : RData → HandlerM Unit) (msg : MsgNewViewComb) : HandlerM Unit := do
  let leader ← getCurrentLeader cfg
  if cfg.myid = leader then
    handleEarlierMessagesComb cfg o exec
    handleNewviewComb cfg o msg
  else
    sendMsg (.newview msg) (cfg.keepFromPeers leader)
    handleEarlierMessagesComb cfg o exec

/-- `startNewViewComb` called in state `s`: the signing loop ends, after five signatures at the
latest, with new-view data for the view that is entered, and a new-view is produced. -/
def NewViewProduced (s : HandlerState) : Prop :=
  ∀ (exec : RData → HandlerM Unit) (fuel : ℕ), 5 ≤ fuel →
    ∃ just s', enterView cfg o fuel s = .ok just s' ∧ s'.view = s.view + 1 ∧
      just.rdata.propv = s'.view ∧ just.rdata.phase = Phase1.newview.byte ∧ just.signs.size = 1 ∧
      startNewViewComb cfg o exec fuel s =
        produceNewView cfg o exec ⟨just.rdata, just.signs.get 0⟩ s'

/-- The signing loop went on beyond the bound that it was given. -/
def Hangs (s s' : HandlerState) : Prop :=
  ∃ fuel e s₁, enterView cfg o fuel s = .error e s₁ ∧ s' = { s₁ with stopped := true }

end Defs

/-- The states of a replica after every step, where no signing loop was cut off. -/
inductive LiveRun (cfg : HandlerConfig Key) (sha : Text → Digest) (ok : HandlerState → Input → Prop) :
    HandlerState → Prop
  | init : LiveRun cfg sha ok .init
  | input {s s₁ : HandlerState} {o : Oracle Key} {input : Input} (h : LiveRun cfg sha ok s)
      (ho : o.sha256 = sha) (hok : ok s input) (hbegin : Begin cfg o s input s₁)
      (hlive : ¬ Hangs cfg o (s.skipLeader cfg) s₁) : LiveRun cfg sha ok s₁
  | step {s s' : HandlerState} {o : Oracle Key} (h : LiveRun cfg sha ok s) (ho : o.sha256 = sha)
      (hstep : Step cfg o True (fun _ => True) s s') (hlive : ¬ Hangs cfg o s s') : LiveRun cfg sha ok s'

/-- When the first start message arrives, the component is in the replica's view. -/
def StartsInStep (s : HandlerState) (input : Input) : Prop :=
  ∀ cid, input = .start cid → s.started = false → s.tc.view = s.view

/-! ### The signing loop -/

/-- The component is in the replica's view, or at the beginning of the next one. -/
def HandlerState.InStep (s : HandlerState) : Prop :=
  s.tc.view = s.view ∨ (s.tc.view = s.view + 1 ∧ s.tc.phase = .newview)

/-- The number of calls until the next view. -/
def Phase1.callsLeft : Phase1 → ℕ
  | newview => 4
  | prepare => 3
  | precommit => 2
  | commit => 1

theorem CombState.iterate_callsLeft (st : CombState) (h : st.view + 1 < 2 ^ 32) :
    CombState.increment^[st.phase.callsLeft] st = { st with view := st.view + 1, phase := .newview } ∧
      ∀ m < st.phase.callsLeft, (CombState.increment^[m] st).view = st.view := by
  have hnext : nextView st.view = st.view + 1 := Nat.mod_eq_of_lt h
  obtain ⟨preph, prepv, lockh, lockv, view, phase⟩ := st
  cases phase
  all_goals
    refine ⟨?_, fun m hm => ?_⟩
    · simpa [Phase1.callsLeft, CombState.increment] using hnext
    · simp only [Phase1.callsLeft] at hm
      interval_cases m <;> rfl

section Loop

variable {cfg : HandlerConfig Key} {o : Oracle Key}

/-- In step, one of the next five signatures is the first one for the next view. -/
theorem HandlerState.InStep.signedTimes (cfg : HandlerConfig Key) (o : Oracle Key) {s : HandlerState}
    (h : s.InStep) (hlt : s.view + 1 < 2 ^ 32) :
    ∃ d < 5, (s.signedTimes cfg o d).tc = { s.tc with view := s.view + 1, phase := .newview } ∧
      ∀ m < d, (s.signedTimes cfg o m).tc.view ≤ s.view := by
  rcases h with hview | ⟨hview, hphase⟩
  · rw [← hview] at hlt
    obtain ⟨hlast, hbefore⟩ := s.tc.iterate_callsLeft hlt
    refine ⟨s.tc.phase.callsLeft, ?_, ?_, fun m hm => ?_⟩
    · cases s.tc.phase <;> decide
    · rw [HandlerState.signedTimes_tc, hlast, hview]
    · rw [HandlerState.signedTimes_tc, hbefore m hm]
      exact hview.le
  · refine ⟨0, by decide, ?_, fun m hm => absurd hm (Nat.not_lt_zero m)⟩
    rw [← hview, ← hphase]
    rfl

/-- In step, the loop ends. -/
theorem HandlerState.InStep.enterView_ok (cfg : HandlerConfig Key) (o : Oracle Key)
    {s : HandlerState} (h : s.InStep) (hlt : s.view + 1 < 2 ^ 32) {fuel : ℕ} (hfuel : 5 ≤ fuel) :
    ∃ just s', enterView cfg o fuel s = .ok just s' := by
  obtain ⟨d, hd, hlast, -⟩ := h.signedTimes cfg o hlt
  cases henter : enterView cfg o fuel s with
  | ok just s' => exact ⟨just, s', rfl⟩
  | error e s' =>
    have hle := (enterView_error_views henter).2 d (by omega)
    rw [hlast] at hle
    exact absurd hle (Nat.not_succ_le_self _)

/-- In step, the loop ends with new-view data for the next view, and the component has moved on by
that signature. -/
theorem HandlerState.InStep.of_enterView {s s' : HandlerState} (h : s.InStep)
    (hlt : s.view + 1 < 2 ^ 32) {fuel : ℕ} {just : Just}
    (henter : enterView cfg o fuel s = .ok just s') :
    s'.view = s.view + 1 ∧ s'.tc.view = s'.view ∧ just.set = true ∧ just.rdata.propv = s'.view ∧
      just.rdata.phase = Phase1.newview.byte ∧ just.signs.size = 1 := by
  obtain ⟨d, -, hlast, hbefore⟩ := h.signedTimes cfg o hlt
  obtain ⟨n, rfl, rfl, hview, hrest⟩ := Raftel.enterView_ok henter
  -- both `n` and `d` are the first signature for a later view
  have hn : n = d := by
    apply le_antisymm
    · by_contra hgt
      have hle := hrest d (Nat.lt_of_not_le hgt)
      rw [hlast] at hle
      exact absurd hle (Nat.not_succ_le_self _)
    · by_contra hgt
      exact absurd (hbefore n (Nat.lt_of_not_le hgt)) (Nat.not_le.mpr hview)
  subst hn
  have hnext : nextView s.view = s.view + 1 := Nat.mod_eq_of_lt hlt
  have htc : (s.signedTimes cfg o (n + 1)).tc = (s.signedTimes cfg o n).tc.increment :=
    HandlerState.called_sign_tc _
  refine ⟨hnext, ?_, HandlerState.signature_set _, ?_, ?_, ?_⟩
  · show (s.signedTimes cfg o (n + 1)).tc.view = nextView s.view
    rw [htc, hlast, hnext]
    rfl
  · rw [HandlerState.signature_rdata, hlast]
    exact hnext.symm
  · rw [HandlerState.signature_rdata, hlast]
  · exact (HandlerState.called_signs (HandlerState.signature_set _)).1

/-- In step, a view change produces a new-view. -/
theorem HandlerState.InStep.newViewProduced {s : HandlerState} (h : s.InStep)
    (hlt : s.view + 1 < 2 ^ 32) : NewViewProduced cfg o s := by
  intro exec fuel hfuel
  obtain ⟨just, s', henter⟩ := h.enterView_ok cfg o hlt hfuel
  obtain ⟨hview, -, hset, hpropv, hphase, hsize⟩ := h.of_enterView hlt henter
  refine ⟨just, s', henter, hview, hpropv, hphase, hsize, ?_⟩
  rw [startNewViewComb_eq]
  show EStateM.bind (enterView cfg o fuel) _ s = _
  unfold EStateM.bind
  rw [henter]
  dsimp only
  rw [if_pos hset]
  show (if (just.rdata.propv = s'.view && just.rdata.phase = Phase1.newview.byte
    && just.signs.size = 1) = true then _ else _ : HandlerM Unit) s' = _
  rw [if_pos (by simp [hpropv, hphase, hsize])]
  rfl

end Loop

/-! ### Steps -/

section Steps

variable {cfg : HandlerConfig Key} {o : Oracle Key}

/-- One call moves the component from the replica's view to itself or to the beginning of the next. -/
theorem CombState.increment_inStep (st : CombState) (h : st.view + 1 < 2 ^ 32) :
    st.increment.view = st.view ∨ (st.increment.view = st.view + 1 ∧ st.increment.phase = .newview) := by
  have hnext : nextView st.view = st.view + 1 := Nat.mod_eq_of_lt h
  unfold CombState.increment
  cases st.phase with
  | newview => exact Or.inl rfl
  | prepare => exact Or.inl rfl
  | precommit => exact Or.inl rfl
  | commit => exact Or.inr ⟨hnext, rfl⟩

/-- A call that is accepted only in the replica's view keeps the component in step. -/
theorem HandlerState.InStep.called {s : HandlerState} (h : s.InStep) (hlt : s.view + 1 < 2 ^ 32)
    (c : Call) (hview : (s.called cfg o c).1.toJust.set = true → s.tc.view = s.view) :
    (s.called cfg o c).2.InStep := by
  have hout := cfg.component.call_outcome (o.crypto s.calls) s.tc c
  have hsame : (cfg.component.call (o.crypto s.calls) s.tc c).2 = s.tc → (s.called cfg o c).2.InStep := by
    intro hsame
    change _ = _ ∨ (_ = _ ∧ _ = _)
    rw [show (s.called cfg o c).2.tc = s.tc from hsame]
    exact h
  cases hout with
  | accepted j hreply hset hacc =>
    have heq : s.tc.view = s.view := by
      apply hview
      change (cfg.component.call (o.crypto s.calls) s.tc c).1.toJust.set = true
      rw [hreply]
      exact hset
    obtain ⟨-, -, hv, hph⟩ := hacc.counter
    have hinc := s.tc.increment_inStep (heq ▸ hlt)
    change (cfg.component.call (o.crypto s.calls) s.tc c).2.view = s.view ∨
      ((cfg.component.call (o.crypto s.calls) s.tc c).2.view = s.view + 1 ∧
        (cfg.component.call (o.crypto s.calls) s.tc c).2.phase = .newview)
    rw [hv, hph, ← heq]
    exact hinc
  | refused j hreply hset same => exact hsame same
  | accum a hreply same => exact hsame same

/-- Only accepted certificates are stored. -/
theorem view_of_store_set {s : HandlerState} {just : Just}
    (h : (s.called cfg o (.store just)).1.toJust.set = true) : just.rdata.propv = s.tc.view := by
  have hout := cfg.component.call_outcome (o.crypto s.calls) s.tc (.store just)
  change (cfg.component.call (o.crypto s.calls) s.tc (.store just)).1.toJust.set = true at h
  cases hout with
  | accepted j hreply hset hacc =>
    cases hacc with
    | store cert view => exact view
  | refused j hreply hset => simp [hreply, Reply.toJust, hset] at h
  | accum a hreply => simp [hreply, Reply.toJust, Just.none] at h

/-- **One step** that is not cut off. -/
theorem Step.inStep {received : Msg → Prop} {s s' : HandlerState} (hstep : Step cfg o True received s s') (hlive : ¬ Hangs cfg o s s')
    (hlt : s.view + 1 < 2 ^ 32) (h : s.InStep) : s'.InStep := by
  cases hstep with
  | quiet hq =>
    unfold HandlerState.InStep
    rw [hq.tc, hq.view]
    exact h
  | @accum c hc =>
    refine h.called hlt c fun hset => ?_
    -- an accumulator is no justification
    cases c with
    | accum justs =>
      change (cfg.component.call (o.crypto s.calls) s.tc (.accum justs)).1.toJust.set = true at hset
      cases hcomp : cfg.component <;> rw [hcomp] at hset <;> cases hset
    | accumSp just =>
      change (cfg.component.call (o.crypto s.calls) s.tc (.accumSp just)).1.toJust.set = true at hset
      cases hcomp : cfg.component <;> rw [hcomp] at hset <;> cases hset
    | sign => cases hc
    | prepare => cases hc
    | store => cases hc
  | store hview => exact h.called hlt _ fun hset => (view_of_store_set hset).symm.trans hview
  | prepare hview =>
    have hcalled := h.called hlt _ hview
    unfold HandlerState.preparedWith
    dsimp only
    split <;> exact hcalled
  | propose hview =>
    have hcalled := h.called hlt _ hview
    unfold HandlerState.proposedWith
    dsimp only
    split <;> exact hcalled
  | enter hidle hdone henter => exact Or.inl (h.of_enterView hlt henter).2.1
  | hang hdone henter => exact absurd ⟨_, _, _, henter, rfl⟩ hlive
  | lookup => exact h
  | lead => exact h
  | phase => exact h
  | newview => exact h
  | vote => exact h
  | execute => exact h
  | stop => exact h

theorem HandlerState.InStep.skipLeader {s : HandlerState} (h : s.InStep) :
    (s.skipLeader cfg).InStep := by
  unfold HandlerState.InStep
  rw [s.skipLeader_tc, s.skipLeader_view]
  exact h

theorem Begin.inStep {s s₁ : HandlerState} {input : Input} (hbegin : Begin cfg o s input s₁)
    (hok : StartsInStep s input) (hlive : ¬ Hangs cfg o (s.skipLeader cfg) s₁)
    (hlt : s.view + 1 < 2 ^ 32) (h : s.InStep) : s₁.InStep := by
  cases hbegin with
  | other => exact h
  | stopped => exact h
  | @start cid hrun hstart =>
    have hgreeted : (s.greeted cfg cid).InStep := h
    exact hgreeted.called hlt .sign fun _ => hok cid rfl hstart
  | timeout hrun htimer henter =>
    exact Or.inl (h.skipLeader.of_enterView (by rwa [s.skipLeader_view]) henter).2.1
  | hang hrun htimer henter => exact absurd ⟨_, _, _, henter, rfl⟩ hlive

end Steps

/-! ### Runs -/

section Runs

variable {cfg : HandlerConfig Key} {o : Oracle Key} {sha : Text → Digest}
  {ok : HandlerState → Input → Prop}

theorem LiveRun.stepRun {s : HandlerState} (h : LiveRun cfg sha ok s) : StepRun cfg sha True ok s := by
  induction h with
  | init => exact .init
  | input _ ho hok hbegin _ ih => exact ih.input ho hok hbegin
  | step _ ho hstep _ ih => exact ih.step ho hstep

/-- The invariant, as long as no view wraps. -/
theorem LiveRun.inStep {s : HandlerState} (h : LiveRun cfg sha StartsInStep s)
    (hlt : s.view + 1 < 2 ^ 32) : s.InStep := by
  induction h with
  | init => exact Or.inl rfl
  | input hs _ hok hbegin hlive ih =>
    have hle := hbegin.view_le hs.stepRun.tc_lt
    have hlt' := lt_of_le_of_lt (Nat.succ_le_succ hle) hlt
    exact hbegin.inStep hok hlive hlt' (ih hlt')
  | step hs _ hstep hlive ih =>
    have hle := hstep.view_le hs.stepRun.tc_lt
    have hlt' := lt_of_le_of_lt (Nat.succ_le_succ hle) hlt
    exact hstep.inStep hlive hlt' (ih hlt')

/-- A stopped replica stays stopped, also in the rest of a handler. -/
theorem Step.stopped {misled : Prop} {received : Msg → Prop} {s s' : HandlerState}
    (h : Step cfg o misled received s s')
    (hs : s.stopped = true) : s'.stopped = true := by
  cases h with
  | quiet hq => exact hq.stopped.trans hs
  | prepare =>
    unfold HandlerState.preparedWith
    dsimp only
    split <;> exact hs
  | propose =>
    unfold HandlerState.proposedWith
    dsimp only
    split <;> exact hs
  | enter hidle hdone henter =>
    obtain ⟨n, rfl, -⟩ := enterView_ok henter
    rw [HandlerState.signedTimes_eq]
    exact hs
  | hang => rfl
  | stop => rfl
  | lookup => exact hs
  | accum => exact hs
  | store => exact hs
  | lead => exact hs
  | phase => exact hs
  | newview => exact hs
  | vote => exact hs
  | execute => exact hs

theorem Begin.eq_of_stopped {s s₁ : HandlerState} {input : Input} (h : Begin cfg o s input s₁)
    (hs : s.stopped = true) : s₁ = s := by
  cases h with
  | other => rfl
  | stopped => rfl
  | start hrun => rw [hrun] at hs; cases hs
  | timeout hrun => rw [hrun] at hs; cases hs
  | hang hrun => rw [hrun] at hs; cases hs

/-- The states of a run are those after every step, or the replica has stopped. -/
theorem HostRunWhere.liveRun {s : HandlerState} (h : HostRunWhere cfg sha ok s) :
    s.stopped = true ∨ LiveRun cfg sha ok s := by
  induction h with
  | init => exact Or.inr .init
  | @step s _ o ho fuel input hok ih =>
    have hkept : Kept cfg o True fun s => s.stopped = true ∨ LiveRun cfg sha ok s := by
      refine ⟨fun s s' hstep hs => ?_, Or.inl trivial⟩
      rcases hs with hstopped | hlive
      · exact Or.inl (hstep.stopped hstopped)
      · by_cases hhangs : Hangs cfg o s s'
        · obtain ⟨fuel, e, s₁, -, rfl⟩ := hhangs
          exact Or.inl rfl
        · exact Or.inr (hlive.step ho hstep hhangs)
    refine react_kept hkept fuel input (fun s₁ hbegin => ?_) fun _ _ _ => trivial
    rcases ih with hstopped | hlive
    · rw [hbegin.eq_of_stopped hstopped]
      exact Or.inl hstopped
    · by_cases hhangs : Hangs cfg o (s.skipLeader cfg) s₁
      · obtain ⟨fuel, e, s₂, -, rfl⟩ := hhangs
        exact Or.inl rfl
      · exact Or.inr (hlive.input ho hok hbegin hhangs)

/-- **A new-view is always produced** in every run in which the component is in the replica's view
when the first start message arrives: in every state, in the middle of a handler as well and as long
as no view wraps, `startNewViewComb` ends its loop with new-view data for the next view, whether it
is called by an execution or by a timeout. -/
theorem newViewProduced_of_startsInStep (cfg : HandlerConfig Key) (sha : Text → Digest) :
    (∀ s, HostRunWhere cfg sha StartsInStep s → s.stopped = true ∨ LiveRun cfg sha StartsInStep s) ∧
      ∀ s, LiveRun cfg sha StartsInStep s → s.view + 1 < 2 ^ 32 → ∀ o : Oracle Key,
        NewViewProduced cfg o s ∧ NewViewProduced cfg o (s.skipLeader cfg) := by
  refine ⟨fun s hrun => hrun.liveRun, fun s hrun hlt o => ?_⟩
  have hin := hrun.inStep hlt
  refine ⟨hin.newViewProduced hlt, hin.skipLeader.newViewProduced ?_⟩
  rwa [s.skipLeader_view]

end Runs

/-! ### Proposals before the start message -/

section Early

/-- The first proposal comes `n` times to replica 3, then the start message. -/
def lateStart (n : ℕ) : HandlerState :=
  (List.replicate n (Input.peer (.ldrprepare (firstLdrPrepare 11))) ++ [Input.start 0]).foldl
    (HandlerState.react (noTEESystem.config 3) twoProposalsOracle · 1) .init

/-- The certificate for it: the stored block is executed, and `startNewViewComb` is called. -/
def lateStartExecuted (n : ℕ) : HandlerState :=
  match (lateStart n).blocks.lookup firstCommit.propv with
  | some block =>
    (lateStart n).committed (noTEESystem.config 3) firstCommitOracle firstCommit block
  | none => lateStart n

theorem lateStart_run (n : ℕ) : HostRun (noTEESystem.config 3) twoBlocksSha (lateStart n) :=
  HostRun.init.foldl (o := twoProposalsOracle) rfl 1 _

/-- The execution is a step of the replica. -/
theorem lateStartExecuted_step :
    Step (noTEESystem.config 3) firstCommitOracle True (fun _ => True) (lateStart 4) (lateStartExecuted 4) := by
  have hstored : ((lateStart 4).blocks.lookup firstCommit.propv).any
      (fun block => eqHashes (block.hash twoBlocksSha) firstCommit.proph) = true := by
    decide +kernel
  have hview : firstCommit.propv = (lateStart 4).view := by decide +kernel
  have hnew : firstCommit.propv ∉ (lateStart 4).processedCommit := by decide +kernel
  have hqc : verifyCombQC (noTEESystem.config 3) (firstCommitOracle.crypto (lateStart 4).calls)
      firstCommit (.ofList [idealSign 0, idealSign 1, idealSign 2]) .commit = true := by
    decide +kernel
  unfold lateStartExecuted
  cases hblock : (lateStart 4).blocks.lookup firstCommit.propv with
  | some block =>
    rw [hblock] at hstored
    exact .execute ⟨hview, _, Or.inr ⟨hqc, Or.inl trivial⟩⟩ hnew hblock hstored
  | none =>
    rw [hblock] at hstored
    cases hstored

/-- **Something wrong happened.**  After four early proposals the component is at the end of view 1
when it signs for the start message; in view 2 its next signature is for phase `prepare`. -/
theorem not_newViewProduced_early_proposals :
    HostRun (noTEESystem.config 3) twoBlocksSha (lateStart 4) ∧
      LiveRun (noTEESystem.config 3) twoBlocksSha (fun _ _ => True) (lateStartExecuted 4) ∧
      (∃ just s', enterView (noTEESystem.config 3) firstCommitOracle 9 (lateStartExecuted 4) =
        .ok just s' ∧ s'.view = 2 ∧ just.rdata.phase = Phase1.prepare.byte) ∧
      ¬ NewViewProduced (noTEESystem.config 3) firstCommitOracle (lateStartExecuted 4) := by
  have hlive : LiveRun (noTEESystem.config 3) twoBlocksSha (fun _ _ => True) (lateStart 4) :=
    (lateStart_run 4).where_true.liveRun.resolve_left (by decide +kernel)
  have hnohang : ¬ Hangs (noTEESystem.config 3) firstCommitOracle (lateStart 4)
      (lateStartExecuted 4) := by
    rintro ⟨fuel, e, s₁, -, heq⟩
    have hstopped : (lateStartExecuted 4).stopped = true := by rw [heq]
    exact absurd hstopped (by decide +kernel)
  have hresult : ∃ just s', enterView (noTEESystem.config 3) firstCommitOracle 9
      (lateStartExecuted 4) = .ok just s' ∧ s'.view = 2 ∧
        just.rdata.phase = Phase1.prepare.byte := by
    have hok : entersWith (noTEESystem.config 3) firstCommitOracle 9 (lateStartExecuted 4)
        (fun just s' => decide (s'.view = 2 ∧ just.rdata.phase = Phase1.prepare.byte)) = true := by
      decide +kernel
    obtain ⟨just, s', henter, htest⟩ := exists_of_entersWith hok
    exact ⟨just, s', henter, of_decide_eq_true htest⟩
  refine ⟨lateStart_run 4, hlive.step rfl lateStartExecuted_step hnohang, hresult, fun h => ?_⟩
  obtain ⟨just, s', henter, -, hphase⟩ := hresult
  obtain ⟨just', s'', henter', -, -, hphase', -⟩ := h (fun _ => pure ()) 9 (by decide)
  rw [henter] at henter'
  cases henter'
  rw [hphase] at hphase'
  exact absurd hphase' (by decide)

/-- With three early proposals the component is in view 1 at the start message. -/
theorem lateStart_startsInStep :
    HostRunWhere (noTEESystem.config 3) twoBlocksSha StartsInStep (lateStart 3) := by
  have hquiet : ∀ input ∈ List.replicate 3 (Input.peer (.ldrprepare (firstLdrPrepare 11))),
      ∀ s, StartsInStep s input := by
    intro input hinput s cid hstart
    rw [List.eq_of_mem_replicate hinput] at hstart
    cases hstart
  unfold lateStart
  rw [List.foldl_append, List.foldl_cons, List.foldl_nil]
  refine .step (o := twoProposalsOracle) (HostRunWhere.init.foldl rfl 1 _ hquiet) rfl 1 ?_
  exact fun _ _ _ => by decide +kernel

/-- Its view changes produce a new-view. -/
theorem newViewProduced_late_start :
    HostRunWhere (noTEESystem.config 3) twoBlocksSha StartsInStep (lateStart 3) ∧
      (lateStart 3).view + 1 < 2 ^ 32 ∧
      NewViewProduced (noTEESystem.config 3) twoProposalsOracle (lateStart 3) := by
  have hlt : (lateStart 3).view + 1 < 2 ^ 32 := by decide +kernel
  obtain ⟨hstates, hproduced⟩ := newViewProduced_of_startsInStep (noTEESystem.config 3) twoBlocksSha
  have hlive := (hstates _ lateStart_startsInStep).resolve_left (by decide +kernel)
  exact ⟨lateStart_startsInStep, hlt, (hproduced _ hlive hlt twoProposalsOracle).1⟩

end Early

end Raftel
