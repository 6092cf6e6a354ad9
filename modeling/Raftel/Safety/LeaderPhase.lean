import Raftel.Safety.VoteLogs
import Raftel.Safety.Agreement

/-!
# The phase of a leader

A leader goes through the phases of its view with `phase`, and `handleNewviewComb` proposes only in
phase `newview`.  The vote handlers put the phase back before the leader executes, but
`startNewViewOnTimeout` does not: a leader whose timer runs out in the middle of its view takes the
phase into the views to come, and ignores the new-views of the next view that it leads.

* `phaseReset_of_atRest` : the phase is reset as long as no timer runs out in the middle of a view
* `not_phaseReset_timeout` : a leader that has proposed and times out
-/

namespace Raftel

variable {Key : Type}

/-! ### What is to hold -/

/-- The end of `handleNewviewComb`: the phase changes when the view has been marked. -/
def takeUpPhase : HandlerM Unit :=
  modify fun s => if s.view ∈ s.processedNewViews then { s with phase := .prepare } else s

/-- New-views that are a quorum of the log for view `v`: the first `tqsize` of the TEE nodes, or `qsize` ones of
different signers. -/
def HandlerConfig.IsNewViewQuorum (cfg : HandlerConfig Key) (log : Log) (v : View)
    (newviews : List MsgNewViewComb) : QcType → Prop
  | .tee => newviews = log.getTEENewViewComb v cfg.tqsize ∧ cfg.tqsize ≤ newviews.length
  | .normal => newviews ⊆ log.getTEENewViewComb v cfg.tqsize ++ log.getNewViewComb v cfg.qsize ∧
      (newviews.map fun m => m.sign.signer).Nodup ∧ newviews.length = cfg.qsize

/-- In state `s` every entry into a view ends in phase `newview`, and a leader that has not yet proposed reacts to
a new-view that completes a quorum by processing that quorum of its log. -/
structure PhaseReset (cfg : HandlerConfig Key) (sha : Text → Digest) (misled : Prop)
    (ok : HandlerState → Input → Prop) (s : HandlerState) : Prop where
  enters : ∀ (o : Oracle Key) (s' : HandlerState), o.sha256 = sha →
    (Step cfg o misled (fun _ => True) s s' ∨ ∃ input, ok s input ∧ Begin cfg o s input s') →
    s'.view ≠ s.view → s'.phase = .newview
  proposes : s.leader cfg = cfg.myid → s.view ∉ s.processedNewViews →
    ∀ (o : Oracle Key) (msg : MsgNewViewComb), msg.data.propv = s.view →
    verifyNewViewComb cfg (o.crypto s.calls) msg = true →
    cfg.newViewQuorum (cfg.storeNewView s.log msg) s.view = true →
    ∃ newviews qcType, cfg.IsNewViewQuorum (cfg.storeNewView s.log msg) s.view newviews qcType ∧
      handleNewviewComb cfg o msg s = (processQC cfg o newviews qcType >>= fun _ => takeUpPhase)
        { s with
          skippedLeaders := (cfg.leaderOf s.skippedLeaders s.view).2
          log := cfg.storeNewView s.log msg }

/-- The timer of a running replica runs out in phase `newview` only, and no new-view misleads the
replica. -/
structure AtRest (cfg : HandlerConfig Key) (s : HandlerState) (input : Input) : Prop where
  timeout : input.isTimeout = true → s.stopped = false → s.timer = true → s.phase = .newview
  newview : ∀ msg, input = .peer (.newview msg) → ¬ s.Misled cfg msg

/-! ### The invariant -/

section Steps

variable {cfg : HandlerConfig Key} {o : Oracle Key}

/-- A replica in another phase than `newview` leads its view and has proposed in it. -/
def HandlerState.LeadsInPhase (cfg : HandlerConfig Key) (s : HandlerState) : Prop :=
  s.phase ≠ .newview → s.leader cfg = cfg.myid ∧ s.view ∈ s.processedNewViews

/-- The view, its leader and the phase stay, and no proposal is forgotten. -/
theorem HandlerState.LeadsInPhase.of_same {s s' : HandlerState} (h : s.LeadsInPhase cfg)
    (hview : s'.view = s.view) (hleader : s'.leader cfg = s.leader cfg) (hphase : s'.phase = s.phase)
    (hproposed : s.processedNewViews ⊆ s'.processedNewViews) : s'.LeadsInPhase cfg := by
  intro hne
  rw [hphase] at hne
  obtain ⟨hlead, hmem⟩ := h hne
  rw [hleader, hview]
  exact ⟨hlead, hproposed hmem⟩

/-- Entering a view leaves the phase as it is. -/
theorem enterView_phase {s s' : HandlerState} {fuel : ℕ} {just : Just}
    (h : enterView cfg o fuel s = .ok just s') : s'.phase = s.phase := by
  obtain ⟨n, rfl, -⟩ := enterView_ok h
  rw [HandlerState.signedTimes_eq]

/-- A replica that leads in phase and is idle is in phase `newview`. -/
theorem HandlerState.LeadsInPhase.phase_of_idle {s : HandlerState} (h : s.LeadsInPhase cfg)
    (hidle : s.Idle cfg) : s.phase = .newview := by
  rcases hidle with hphase | hleader
  · exact hphase
  · by_contra hne
    exact hleader (h hne).1

/-- **One step.** -/
theorem Step.leadsInPhase {received : Msg → Prop} {s s' : HandlerState} (hstep : Step cfg o False received s s')
    (h : s.LeadsInPhase cfg) : s'.LeadsInPhase cfg := by
  cases hstep with
  | quiet hq =>
    exact h.of_same hq.view (HandlerState.leader_eq hq.view (Or.inl hq.skippedLeaders)) hq.phase
      (fun _ hm => hq.processedNewViews ▸ hm)
  | lookup v => exact h.of_same rfl (HandlerState.leader_eq rfl (Or.inr ⟨v, rfl⟩)) rfl fun _ hm => hm
  | prepare =>
    unfold HandlerState.preparedWith
    dsimp only
    split <;> exact h.of_same rfl rfl rfl fun _ hm => hm
  | propose =>
    unfold HandlerState.proposedWith
    dsimp only
    split
    · refine h.of_same rfl rfl rfl fun v hm => ?_
      exact mem_viewInsert_of_mem _ hm
    · exact h.of_same rfl rfl rfl fun _ hm => hm
  | lead hphase hview hleader => exact fun _ => ⟨hleader.resolve_right id, hview⟩
  | phase hmove hleader =>
    -- the vote handlers move on from a phase that is not `newview`
    have hne : s.phase ≠ .newview := by
      intro heq
      rw [heq] at hmove
      cases hmove
    exact fun _ => h hne
  | enter hidle hdone henter =>
    intro hne
    rw [enterView_phase henter] at hne
    exact absurd (h.phase_of_idle (hidle.resolve_right id)) hne
  | hang hdone henter =>
    obtain ⟨n, rfl⟩ := enterView_error henter
    rw [HandlerState.signedTimes_eq]
    exact h
  | accum => exact h
  | store => exact h
  | newview => exact h
  | vote => exact h
  | execute => exact h
  | stop => exact h

/-- The start message looks up two leaders. -/
theorem HandlerState.greeted_leader (s : HandlerState) (cid : CID) :
    (s.greeted cfg cid).leader cfg = s.leader cfg := by
  unfold HandlerState.leader HandlerState.greeted
  dsimp only
  rw [cfg.leaderOf_lookup, cfg.leaderOf_lookup]

theorem Begin.leadsInPhase {s s₁ : HandlerState} {input : Input} (hbegin : Begin cfg o s input s₁)
    (hok : AtRest cfg s input) (h : s.LeadsInPhase cfg) : s₁.LeadsInPhase cfg := by
  cases hbegin with
  | other => exact h
  | stopped => exact h
  | @start cid hrun hstart => exact h.of_same rfl (s.greeted_leader cid) rfl fun _ hm => hm
  | timeout hrun htimer henter =>
    intro hne
    rw [enterView_phase henter, s.skipLeader_phase] at hne
    exact absurd (hok.timeout rfl hrun htimer) hne
  | hang hrun htimer henter =>
    obtain ⟨n, rfl⟩ := enterView_error henter
    intro hne
    rw [HandlerState.signedTimes_eq] at hne
    exact absurd (hok.timeout rfl hrun htimer) (s.skipLeader_phase ▸ hne)

end Steps

/-! ### The reaction of a leader -/

section Proposes

variable {cfg : HandlerConfig Key} {o : Oracle Key}

/-- New-views of different signers are all taken, up to `n`. -/
theorem mixed_perm {n : ℕ} {msgs mixed : List MsgNewViewComb}
    (hnodup : ((mixed ++ msgs).map fun m => m.sign.signer).Nodup) :
    (msgs.foldl (fun mixed msg =>
      if mixed.length < n then setInsert MsgNewViewComb.lt msg mixed else mixed) mixed).Perm
      (mixed ++ msgs.take (n - mixed.length)) := by
  induction msgs generalizing mixed with
  | nil => rw [List.foldl_nil, List.take_nil, List.append_nil]
  | cons msg msgs ih =>
    rw [List.foldl_cons]
    by_cases hlt : mixed.length < n
    · rw [if_pos hlt]
      have hfresh : ∀ m ∈ mixed, m.sign.signer ≠ msg.sign.signer := by
        rw [List.map_append, List.nodup_append] at hnodup
        exact fun m hm => hnodup.2.2 _ (List.mem_map_of_mem hm) _ (List.mem_map_of_mem List.mem_cons_self)
      have hperm : (setInsert MsgNewViewComb.lt msg mixed).Perm (msg :: mixed) := by
        apply setInsert_perm
        intro m hm
        rcases Nat.lt_or_gt_of_ne (hfresh m hm) with h | h
        · exact Or.inr (decide_eq_true h)
        · exact Or.inl (decide_eq_true h)
      have hlen : (setInsert MsgNewViewComb.lt msg mixed).length = mixed.length + 1 := hperm.length_eq
      have hmiddle (rest : List MsgNewViewComb) :
          (setInsert MsgNewViewComb.lt msg mixed ++ rest).Perm (mixed ++ msg :: rest) :=
        (hperm.append_right rest).trans List.perm_middle.symm
      have htake : (msg :: msgs).take (n - mixed.length) = msg :: msgs.take (n - (mixed.length + 1)) := by
        rw [show n - mixed.length = n - (mixed.length + 1) + 1 by omega, List.take_succ_cons]
      have hrest := ih (((hmiddle msgs).map _).nodup_iff.mpr hnodup)
      rw [hlen] at hrest
      rw [htake]
      exact hrest.trans (hmiddle _)
    · have hnone : n - mixed.length = 0 := by omega
      have hrest := ih (hnodup.sublist
        ((List.Sublist.append_left (List.sublist_cons_self msg msgs) mixed).map _))
      rw [hnone, List.take_zero] at hrest
      rw [if_neg hlt, hnone, List.take_zero]
      exact hrest

/-- With a quorum of new-views the leader processes it. -/
theorem prepareComb_of_quorum {s : HandlerState} (hone : s.log.OneEach cfg)
    (h : cfg.newViewQuorum s.log s.view = true) :
    ∃ newviews qcType, cfg.IsNewViewQuorum s.log s.view newviews qcType ∧
      prepareComb cfg o s = processQC cfg o newviews qcType s := by
  unfold HandlerConfig.newViewQuorum at h
  show ∃ newviews qcType, _ ∧ (if (cfg.fastQC && _) = true then _ else _ : HandlerM Unit) s = _
  by_cases hfast : (cfg.fastQC && decide
      ((s.log.getTEENewViewComb s.view cfg.tqsize).length ≥ cfg.tqsize)) = true
  · rw [if_pos hfast]
    rw [Bool.and_eq_true, decide_eq_true_eq] at hfast
    exact ⟨_, .tee, ⟨rfl, hfast.2⟩, rfl⟩
  · rw [if_neg hfast]
    rw [Bool.not_eq_true] at hfast
    rw [hfast, Bool.false_or, decide_eq_true_eq] at h
    -- the new-views of TEE nodes and the others have different signers
    have hnodup : (([] ++ (s.log.getTEENewViewComb s.view cfg.tqsize ++
        s.log.getNewViewComb s.view cfg.qsize)).map fun m : MsgNewViewComb => m.sign.signer).Nodup := by
      have htee := hone.teeNewviews s.view
      have hnon := hone.newviews s.view
      rw [List.nil_append, List.map_append, List.nodup_append]
      refine ⟨htee.nodup.sublist ((List.take_sublist _ _).map _),
        hnon.nodup.sublist ((List.take_sublist _ _).map _), ?_⟩
      intro p hp q hq heq
      obtain ⟨m, hm, rfl⟩ := List.mem_map.mp hp
      obtain ⟨m', hm', rfl⟩ := List.mem_map.mp hq
      have hkind := htee.kind m (List.mem_of_mem_take hm)
      rw [heq, hnon.kind m' (List.mem_of_mem_take hm')] at hkind
      exact absurd hkind (by decide)
    have hperm := mixed_perm (n := cfg.qsize) hnodup
    rw [List.nil_append, List.length_nil, Nat.sub_zero] at hperm
    have hlen := hperm.length_eq
    rw [List.length_take, List.length_append, min_eq_left h] at hlen
    rw [if_pos hlen]
    refine ⟨_, .normal, ⟨fun m hm => List.mem_of_mem_take (hperm.mem_iff.mp hm), ?_, hlen⟩, rfl⟩
    exact (hperm.map _).nodup_iff.mpr (hnodup.sublist ((List.take_sublist _ _).map _))

/-- A leader in phase `newview` processes a quorum that is complete. -/
theorem handleNewviewComb_of_quorum {s : HandlerState} (hone : s.log.OneEach cfg)
    (hphase : s.phase = .newview) (hleader : s.leader cfg = cfg.myid) {msg : MsgNewViewComb}
    (hview : msg.data.propv = s.view) (hverify : verifyNewViewComb cfg (o.crypto s.calls) msg = true)
    (hquorum : cfg.newViewQuorum (cfg.storeNewView s.log msg) s.view = true) :
    ∃ newviews qcType, cfg.IsNewViewQuorum (cfg.storeNewView s.log msg) s.view newviews qcType ∧
      handleNewviewComb cfg o msg s = (processQC cfg o newviews qcType >>= fun _ => takeUpPhase)
        { s with
          skippedLeaders := (cfg.leaderOf s.skippedLeaders s.view).2
          log := cfg.storeNewView s.log msg } := by
  obtain ⟨newviews, qcType, hquorum', hprepare⟩ := prepareComb_of_quorum (o := o) (s := { s with
    skippedLeaders := (cfg.leaderOf s.skippedLeaders s.view).2
    log := cfg.storeNewView s.log msg }) (hone.newview msg).1 hquorum
  refine ⟨newviews, qcType, hquorum', ?_⟩
  have hcond : (decide (cfg.myid = (cfg.leaderOf s.skippedLeaders msg.data.propv).1) &&
      verifyNewViewComb cfg (o.crypto s.calls) msg) = true := by
    rw [hview, show (cfg.leaderOf s.skippedLeaders s.view).1 = cfg.myid from hleader, hverify]
    simp
  have hnow : (decide (s.phase = .newview) && cfg.newViewQuorum (cfg.storeNewView s.log msg)
      msg.data.propv) = true := by
    rw [hphase, hview, hquorum]
    rfl
  show (if msg.data.propv ≥ s.view then _ else _ : HandlerM Unit) s = _
  rw [if_pos hview.ge]
  show (if (decide (cfg.myid = (cfg.leaderOf s.skippedLeaders msg.data.propv).1) &&
      verifyNewViewComb cfg (o.crypto s.calls) msg) = true then _ else _ : HandlerM Unit)
    { s with skippedLeaders := (cfg.leaderOf s.skippedLeaders msg.data.propv).2 } = _
  rw [if_pos hcond]
  show (if (decide (s.phase = .newview) && cfg.newViewQuorum (cfg.storeNewView s.log msg)
      msg.data.propv) = true then _ else _ : HandlerM Unit)
    { s with
      skippedLeaders := (cfg.leaderOf s.skippedLeaders msg.data.propv).2
      log := cfg.storeNewView s.log msg } = _
  rw [if_pos hnow, hview]
  show EStateM.bind (prepareComb cfg o) _ _ = EStateM.bind (processQC cfg o newviews qcType) _ _
  unfold EStateM.bind
  rw [hprepare]
  rfl

end Proposes

/-! ### Runs -/

section Runs

variable {cfg : HandlerConfig Key} {sha : Text → Digest}

theorem StepRun.leadsInPhase {s : HandlerState} (h : StepRun cfg sha False (AtRest cfg) s) :
    s.LeadsInPhase cfg := by
  induction h with
  | init => exact fun hne => absurd rfl hne
  | input _ _ hok hbegin ih => exact hbegin.leadsInPhase hok ih
  | step _ _ hstep ih => exact hstep.leadsInPhase ih

/-- Every step that leaves the view enters the next one in phase `newview`. -/
theorem StepRun.phase_of_enters {s s' : HandlerState} (h : StepRun cfg sha False (AtRest cfg) s)
    {o : Oracle Key} (hnext : Step cfg o False (fun _ => True) s s' ∨
      ∃ input, AtRest cfg s input ∧ Begin cfg o s input s')
    (hview : s'.view ≠ s.view) : s'.phase = .newview := by
  rcases hnext with hstep | ⟨input, hok, hbegin⟩
  · rcases hstep.view_cases with ⟨hsame, -⟩ | ⟨-, hidle, fuel, just, henter⟩
    · exact absurd hsame hview
    · rw [enterView_phase henter]
      exact h.leadsInPhase.phase_of_idle (hidle.resolve_right id)
  · cases hbegin with
    | other => exact absurd rfl hview
    | stopped => exact absurd rfl hview
    | start => exact absurd rfl hview
    | timeout hrun htimer henter =>
      rw [enterView_phase henter, s.skipLeader_phase]
      exact hok.timeout rfl hrun htimer
    | hang hrun htimer henter =>
      obtain ⟨n, rfl⟩ := enterView_error henter
      rw [HandlerState.signedTimes_eq] at hview
      exact absurd s.skipLeader_view hview

/-- **The phase is reset** in every run in which no timer runs out in the middle of a view and no
new-view misleads the replica: in every state, in the middle of a handler as well, an entry into a
view ends in phase `newview`, and a leader that has not proposed reacts to a quorum of new-views by
processing it. -/
theorem phaseReset_of_atRest (cfg : HandlerConfig Key) (sha : Text → Digest) :
    (∀ s, HostRunWhere cfg sha (AtRest cfg) s → StepRun cfg sha False (AtRest cfg) s) ∧
      ∀ s, StepRun cfg sha False (AtRest cfg) s → PhaseReset cfg sha False (AtRest cfg) s := by
  refine ⟨fun s hrun => ?_, fun s hrun => ⟨?_, ?_⟩⟩
  · exact hrun.stepRun fun s msg hok hmisled => hok.newview msg rfl hmisled
  · intro o s' _ hnext hview
    exact hrun.phase_of_enters hnext hview
  · intro hleader hnew o msg hview hverify hquorum
    have hphase : s.phase = .newview := by
      by_contra hne
      exact hnew (hrun.leadsInPhase hne).2
    exact handleNewviewComb_of_quorum hrun.oneEach hphase hleader hview hverify hquorum

end Runs

/-! ### A leader that times out -/

section Timeout

/-- The certificates of the first view, and the new-views of the second, have been signed. -/
def secondViewOracle : Oracle Unit :=
  idealOracle chainSha 2 [] fun p => firstSigned p ++
    [.rdata (firstProposal 11), .rdata { firstProposal 11 with phase := Phase1.precommit.byte },
      .rdata { firstProposal 11 with phase := Phase1.commit.byte }, .rdata nextNewView]

/-- The votes of the others. -/
def otherSigns : Signs := .ofList [idealSign 0, idealSign 1, idealSign 3]

/-- Replica 2 follows view 1 and leads view 2, where it proposes. -/
def secondViewInputs : List Input :=
  [.start 0, .peer (.ldrprepare (firstLdrPrepare 11)),
    .peer (.prepare ⟨firstProposal 11, otherSigns⟩),
    .peer (.precommit ⟨{ firstProposal 11 with phase := Phase1.precommit.byte }, otherSigns⟩),
    .peer (.commit ⟨{ firstProposal 11 with phase := Phase1.commit.byte }, otherSigns⟩),
    .peer (.newview ⟨nextNewView, idealSign 0⟩), .peer (.newview ⟨nextNewView, idealSign 1⟩)]

def secondViewState : HandlerState :=
  secondViewInputs.foldl (HandlerState.react (noTEESystem.config 2) secondViewOracle · 9) .init

theorem secondViewState_run : HostRun (noTEESystem.config 2) chainSha secondViewState :=
  HostRun.init.foldl (o := secondViewOracle) rfl 9 _

/-- The state in which `startNewViewComb` is called by the timeout. -/
def secondViewTimeout : HandlerState := secondViewState.skipLeader (noTEESystem.config 2)

/-- **A timeout keeps the phase.**  Leader 2 has proposed in view 2; its timer runs out, and it is in
view 3 in phase `prepare`. -/
theorem not_phaseReset_timeout :
    HostRun (noTEESystem.config 2) chainSha secondViewState ∧
      (∃ just s', enterView (noTEESystem.config 2) secondViewOracle 9 secondViewTimeout =
        .ok just s' ∧ s'.view = secondViewState.view + 1 ∧ s'.phase = .prepare) ∧
      ¬ PhaseReset (noTEESystem.config 2) chainSha True (fun _ _ => True) secondViewState := by
  have hresult : ∃ just s', enterView (noTEESystem.config 2) secondViewOracle 9 secondViewTimeout =
      .ok just s' ∧ s'.view = secondViewState.view + 1 ∧ s'.phase = .prepare := by
    have hok : entersWith (noTEESystem.config 2) secondViewOracle 9 secondViewTimeout
        (fun _ s' => decide (s'.view = secondViewState.view + 1 ∧ s'.phase = .prepare)) = true := by
      decide +kernel
    obtain ⟨just, s', henter, htest⟩ := exists_of_entersWith hok
    exact ⟨just, s', henter, of_decide_eq_true htest⟩
  refine ⟨secondViewState_run, hresult, fun h => ?_⟩
  obtain ⟨just, s', henter, hview, hphase⟩ := hresult
  have hbegin : Begin (noTEESystem.config 2) secondViewOracle secondViewState .timeout s' :=
    .timeout (by decide +kernel) (by decide +kernel) henter
  have hsucc : ∀ v : View, v + 1 ≠ v := fun v => Nat.succ_ne_self v
  have hne : s'.view ≠ secondViewState.view := by
    rw [hview]
    exact hsucc _
  have hreset := h.enters secondViewOracle s' rfl (Or.inr ⟨.timeout, trivial, hbegin⟩) hne
  rw [hphase] at hreset
  cases hreset

/-- Replica 2 has followed view 1, and its timer runs out before any new-view of view 2 arrives. -/
def earlyTimeoutState : HandlerState :=
  ((secondViewInputs.take 5).foldl
    (HandlerState.react (noTEESystem.config 2) secondViewOracle · 9) .init).react
      (noTEESystem.config 2) secondViewOracle 9 .timeout

/-- It enters view 3 at rest. -/
theorem phaseReset_early_timeout :
    HostRunWhere (noTEESystem.config 2) chainSha (AtRest (noTEESystem.config 2)) earlyTimeoutState ∧
      PhaseReset (noTEESystem.config 2) chainSha False (AtRest (noTEESystem.config 2))
        earlyTimeoutState ∧
      earlyTimeoutState.view = 3 ∧ earlyTimeoutState.phase = .newview := by
  have hquiet : ∀ input ∈ secondViewInputs.take 5, ∀ s, AtRest (noTEESystem.config 2) s input := by
    intro input hinput s
    simp only [secondViewInputs, List.take, List.mem_cons, List.not_mem_nil, or_false] at hinput
    rcases hinput with rfl | rfl | rfl | rfl | rfl
    all_goals exact ⟨nofun, nofun⟩
  have hrun : HostRunWhere (noTEESystem.config 2) chainSha (AtRest (noTEESystem.config 2))
      earlyTimeoutState := by
    refine .step (o := secondViewOracle) (HostRunWhere.init.foldl rfl 9 _ hquiet) rfl 9 ?_
    exact ⟨fun _ _ _ => by decide +kernel, nofun⟩
  obtain ⟨hstates, hreset⟩ := phaseReset_of_atRest (noTEESystem.config 2) chainSha
  exact ⟨hrun, hreset _ (hstates _ hrun), by decide +kernel, by decide +kernel⟩

end Timeout

end Raftel
