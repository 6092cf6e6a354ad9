import Raftel.Safety.DamysusGenesis
import Raftel.Safety.LeaderAccum
import Raftel.Safety.LeaderQuorum

/-!
# The normal case of Damysus

What a replica does with the messages of a view in which nothing goes wrong, when there are TEE nodes
only: the handlers are run from end to end.  A leader collects `f+1` new-views and proposes a block, a
backup votes, the leader collects `f+1` votes, and with their certificate every replica executes the block
and enters the next view.

* `Entered` : a replica at the beginning of a view
* `Voted` : a replica that has signed the proposal of its view
* `Leading` : the leader that has proposed, with the votes it has
* `handleStart_run`, `Entered.propose`, `Entered.vote`, `Leading.handlePrepareComb_run`, `Leading.decide`,
  `Voted.decided` : the steps between them
-/

namespace Raftel.Damysus

open Lib

variable {sys : System} {st : SystemState} {p : PID} {s : State} {v : View}

/-! ### Leaders -/

/-- The leader of a view when no leader has been skipped. -/
def System.leader (sys : System) (v : View) : PID :=
  if sys.fixedLeaderMode then sys.fixedLeader else v % sys.n

theorem leaderOf_nil (sys : System) (p : PID) (v : View) :
    leaderOf (sys.config p) [] v = (sys.leader v, []) := by
  unfold leaderOf System.leader
  show (if sys.fixedLeaderMode then (sys.fixedLeader, []) else _) = _
  cases sys.fixedLeaderMode with
  | true => rfl
  | false =>
    have hrange : List.range (total (sys.config p)) = 0 :: (List.range (2 * sys.f)).map Nat.succ :=
      List.range_succ_eq_map
    have htotal : total (sys.config p) = sys.n := rfl
    rw [if_neg Bool.false_ne_true, if_neg Bool.false_ne_true, hrange]
    simp [htotal]

theorem System.AllTEE.leader_lt (h : sys.AllTEE) (v : View) : sys.leader v < sys.n := by
  unfold System.leader
  split
  · next hfixed => exact h.fixedLeader hfixed
  · exact Nat.mod_lt v (Nat.succ_pos _)

theorem System.AllTEE.isTEE (h : sys.AllTEE) (p : PID) {q : PID} (hq : q < sys.n) :
    (sys.config p).isTEE q = true := by
  rw [sys.isTEE_config, decide_eq_true_eq]
  exact ⟨hq, h.tee ▸ Finset.mem_range.mpr hq⟩

theorem System.AllTEE.fastQC (h : sys.AllTEE) (p : PID) : (sys.config p).fastQC = true := by
  have hcard : sys.tee.card = 2 * sys.f + 1 := by
    rw [h.tee, Finset.card_range]
    rfl
  show decide (sys.tee.card ≥ (sys.config p).tqsize) = true
  rw [sys.tqsize_config, decide_eq_true_eq]
  omega

/-- A state whose skipped leaders are set to the ones it has. -/
theorem State.skipped_eta (h : s.skippedLeaders = []) : { s with skippedLeaders := [] } = s := by
  rw [← h]

theorem getLeaderOf_run (h : s.skippedLeaders = []) (v : View) :
    getLeaderOf (sys.config p) v s = .ok (sys.leader v) s := by
  show EStateM.Result.ok (leaderOf (sys.config p) s.skippedLeaders v).1
    { s with skippedLeaders := (leaderOf (sys.config p) s.skippedLeaders v).2 } = _
  rw [h, leaderOf_nil]
  exact congrArg _ (State.skipped_eta h)

theorem getCurrentLeader_run (h : s.skippedLeaders = []) :
    getCurrentLeader (sys.config p) s = .ok (sys.leader s.view) s := getLeaderOf_run h s.view

theorem amLeaderOf_run (h : s.skippedLeaders = []) (v : View) :
    amLeaderOf (sys.config p) v s = .ok (decide (p = sys.leader v)) s :=
  bind_of_ok (getLeaderOf_run h v)

theorem amCurrentLeader_run (h : s.skippedLeaders = []) :
    amCurrentLeader (sys.config p) s = .ok (decide (p = sys.leader s.view)) s := amLeaderOf_run h s.view

/-! ### Signatures -/

/-- What replica `p` in state `s` takes for signed by `q`. -/
def Seen (st : SystemState) (p : PID) (s : State) (q : PID) (t : SignedText) : Prop :=
  t ∈ if q = p then s.signed else (st.replica q).signed

theorem verify_idealSign {q : PID} {key : Unit} {t : SignedText} (h : Seen st p s q t) :
    ((sys.oracle st p).crypto s.calls).verifySign (idealSign q) key t = true := decide_eq_true h

theorem Seen.self {t : SignedText} (h : t ∈ s.signed) : Seen st p s p t := by
  unfold Seen
  rwa [if_pos rfl]

/-- A set of signatures of different replicas, all of which have signed the text. -/
structure Quorum (sys : System) (st : SystemState) (p : PID) (s : State) (signs : Signs) (t : SignedText)
    (signers : List PID) : Prop where
  entries : signs.entries = signers.map idealSign
  size : signs.size = signers.length
  pos : 0 < signers.length
  fits : signers.length ≤ maxNumSignatures
  nodup : signers.Nodup
  signed : ∀ q ∈ signers, q < sys.n ∧ Seen st p s q t

theorem Quorum.one {q : PID} {t : SignedText} (hq : q < sys.n) (h : Seen st p s q t) :
    Quorum sys st p s (Signs.one (idealSign q)) t [q] where
  entries := rfl
  size := rfl
  pos := Nat.one_pos
  fits := maxNumSignatures_pos
  nodup := List.nodup_singleton q
  signed := by simpa using ⟨hq, h⟩

theorem Quorum.signers_nodup {signs : Signs} {t : SignedText} {signers : List PID}
    (h : Quorum sys st p s signs t signers) : (signs.entries.map Sign.signer).Nodup := by
  rw [h.entries, List.map_map]
  show (signers.map id).Nodup
  rw [List.map_id]
  exact h.nodup

theorem System.AllTEE.lookup_nodes (hall : sys.AllTEE) {q : PID} (hq : q < sys.n) :
    sys.nodes.lookup q = some ⟨(), true⟩ := by
  rw [sys.lookup_nodes, if_pos hq, decide_eq_true (hall.tee ▸ Finset.mem_range.mpr hq)]

theorem Quorum.verify (hall : sys.AllTEE) {signs : Signs} {t : SignedText} {signers : List PID}
    (h : Quorum sys st p s signs t signers) :
    signs.verify ((sys.oracle st p).crypto s.calls).verifySign sys.nodes t = true := by
  rw [Signs.verify_eq_true, h.entries, List.forall_mem_map]
  intro q hq
  exact ⟨⟨(), true⟩, hall.lookup_nodes (h.signed q hq).1, verify_idealSign (h.signed q hq).2⟩

/-- The handlers accept the set. -/
theorem Quorum.verifyCombSigns (hall : sys.AllTEE) {signs : Signs} {data : RData} {signers : List PID}
    (h : Quorum sys st p s signs (.rdata data) signers) (teeOnly : Bool) :
    verifyCombSigns (sys.config p) ((sys.oracle st p).crypto s.calls) data signs signers.length teeOnly =
      true := by
  have hknown : ∀ q ∈ signers, sys.nodes.lookup q = some ⟨(), true⟩ := fun q hq =>
    hall.lookup_nodes (h.signed q hq).1
  have hsigners : hostSignersFrom (sys.config p).nodes signs.entries [] true = some true := by
    refine hostSignersFrom_eq_some.mpr ⟨h.signers_nodup, fun _ _ => List.not_mem_nil, ?_, ?_⟩
    · rw [h.entries, List.forall_mem_map]
      intro q hq
      exact ⟨rfl, Option.isSome_iff_exists.mpr ⟨_, hknown q hq⟩⟩
    · have hall : (signers.map idealSign).all (fun s => ((sys.config p).nodes.lookup s.signer).any
          (·.isTEE)) = true := by
        rw [List.all_map, List.all_eq_true]
        intro q hq
        show (sys.nodes.lookup q).any (·.isTEE) = true
        rw [hknown q hq]
        rfl
      rw [h.entries, hall]
      rfl
  have hverify := h.verify hall
  have hpos := h.pos
  have hfits := h.fits
  unfold Raftel.verifyCombSigns
  rw [if_neg (by rw [h.size]; omega)]
  rw [hsigners]
  cases teeOnly with
  | true => exact hverify
  | false => exact hverify

/-- So does an enclave. -/
theorem Quorum.verifyText {signs : Signs} {t : SignedText} {signers : List PID}
    (h : Quorum sys st p s signs t signers) :
    (enclave (sys.config p)).verifyText ((sys.oracle st p).crypto s.calls).verifySign signs t = true := by
  rw [EnclaveVars.verifyText_eq_true, h.size]
  refine ⟨h.pos, h.fits, h.signers_nodup, ?_⟩
  rw [h.entries, List.forall_mem_map]
  intro q hq
  obtain ⟨hlt, hseen⟩ := h.signed q hq
  refine ⟨rfl, (), ?_, verify_idealSign hseen⟩
  apply (@HandlerConfig.lookup_foldl_keys _ (sys.config p) _ (fun _ => ()) q).trans
  show (sys.nodes.lookup q).map (fun _ => ()) = some ()
  rw [sys.lookup_nodes, if_pos hlt]
  rfl

/-! ### New-views in the log -/

/-- The new-view of a replica that has stored nothing. -/
def newviewOf (v : View) (q : PID) : MsgNewViewComb := ⟨newViewIn v, idealSign q⟩

/-- The new-views that the leader has for a view. -/
def Collected (log : Log) (v : View) (senders : List PID) : Prop :=
  (log.teeNewviewsComb.get v).Perm (senders.map (newviewOf v))

theorem Collected.of_eq {log : Log} (h : log.teeNewviewsComb.get v = []) : Collected log v [] := by
  unfold Collected
  rw [h]
  exact List.Perm.refl _

theorem Collected.store {log : Log} {senders : List PID} (h : Collected log v senders) {q : PID}
    (hq : q ∉ senders) : Collected (log.storeTEENvComb (newviewOf v q)).2 v (q :: senders) := by
  have hne : ∀ m ∈ log.teeNewviewsComb.get v, m.sign.signer ≠ q := by
    intro m hm
    obtain ⟨q', hq', rfl⟩ := List.mem_map.mp (h.mem_iff.mp hm)
    exact fun heq => hq (heq ▸ hq')
  have hfrom : msgNewViewCombFrom (log.teeNewviewsComb.get v) (newviewOf v q) = false := by
    unfold msgNewViewCombFrom
    rw [List.any_eq_false]
    intro m hm
    rw [decide_eq_true_eq]
    exact hne m hm
  have hlt : ∀ m ∈ log.teeNewviewsComb.get v, (newviewOf v q).lt m = true ∨ m.lt (newviewOf v q) = true := by
    intro m hm
    rcases Nat.lt_or_gt_of_ne (hne m hm) with hlt | hlt
    · exact Or.inr (decide_eq_true hlt)
    · exact Or.inl (decide_eq_true hlt)
  exact (ViewLog.store_new hfrom hlt).2.trans (h.cons _)

theorem Collected.length {log : Log} {senders : List PID} (h : Collected log v senders) (n : ℕ) :
    (log.getTEENewViewComb v n).length = min n senders.length := by
  unfold Log.getTEENewViewComb
  rw [List.length_take, h.length_eq, List.length_map]

/-- The other parts of the log, and the other views, are as they were. -/
theorem storeTEENvComb_frame (log : Log) (q : PID) {w : View} (hw : w ≠ v) :
    (log.storeTEENvComb (newviewOf v q)).2.teeNewviewsComb.get w = log.teeNewviewsComb.get w :=
  ViewLog.get_store_of_ne hw

/-- The log of the state is another one. -/
def State.withLog (s : State) (log : Log) : State := { s with log := log }

/-- A new-view is stored, and a leader in the phase `newview` that has `f+1` of them proposes. -/
theorem handleNewviewComb_run (hall : sys.AllTEE) {senders : List PID} {q : PID} (hview : s.view ≤ v)
    (hskipped : s.skippedLeaders = []) (hleader : p = sys.leader v) (hq : q < sys.n)
    (hseen : Seen st p s q (.rdata (newViewIn v))) (hcollected : Collected s.log v senders)
    (hnew : q ∉ senders) (hother : s.log.newviewsComb.get v = []) :
    handleNewviewComb (sys.config p) (sys.oracle st p) (newviewOf v q) s =
      (if s.phase = .newview ∧ sys.f ≤ senders.length then do
          prepareComb (sys.config p) (sys.oracle st p)
          modify fun s => if s.view ∈ s.processedNewViews then { s with phase := .prepare } else s
        else pure () : HandlerM Unit) (s.withLog (s.log.storeTEENvComb (newviewOf v q)).2) := by
  have hverify : verifyNewViewComb (sys.config p) ((sys.oracle st p).crypto s.calls) (newviewOf v q) = true := by
    unfold verifyNewViewComb
    rw [Bool.and_eq_true]
    exact ⟨rfl, (Quorum.one hq hseen).verifyCombSigns hall false⟩
  have hlead : amLeaderOf (sys.config p) (newviewOf v q).data.propv s = .ok true s := by
    rw [← decide_eq_true hleader]
    exact amLeaderOf_run hskipped v
  have htee : (sys.config p).isTEE (newviewOf v q).sign.signer = true := hall.isTEE p hq
  have hstored := (hcollected.store hnew).length (sys.config p).tqsize
  have hnone : (s.log.getNewViewComb v (qsize (sys.config p))).length = 0 := by
    unfold Log.getNewViewComb
    rw [hother, List.take_nil]
    rfl
  unfold handleNewviewComb
  show (if (newviewOf v q).data.propv ≥ s.view then _ else _ : HandlerM Unit) s = _
  rw [if_pos (show (newviewOf v q).data.propv ≥ s.view from hview), bind_of_ok hlead, hverify, Bool.true_and,
    if_pos rfl, htee]
  show (if (decide (s.phase = .newview) && ((sys.config p).fastQC &&
      decide (((s.log.storeTEENvComb (newviewOf v q)).2.getTEENewViewComb v (sys.config p).tqsize).length ≥
        (sys.config p).tqsize) ||
      decide (((s.log.storeTEENvComb (newviewOf v q)).2.getTEENewViewComb v (sys.config p).tqsize).length +
        (s.log.getNewViewComb v (qsize (sys.config p))).length ≥ qsize (sys.config p)))) = true
    then _ else _ : HandlerM Unit) (s.withLog (s.log.storeTEENvComb (newviewOf v q)).2) = _
  rw [hstored, hnone, hall.fastQC p, sys.tqsize_config, sys.qsize_config, List.length_cons]
  have hcond : (decide (s.phase = .newview) && (true && decide (min (sys.f + 1) (senders.length + 1) ≥ sys.f + 1)
      || decide (min (sys.f + 1) (senders.length + 1) + 0 ≥ sys.f + 1))) = true ↔
      s.phase = .newview ∧ sys.f ≤ senders.length := by
    simp only [Bool.and_eq_true, Bool.or_eq_true, decide_eq_true_eq, true_and]
    refine and_congr_right fun _ => ?_
    omega
  rw [if_congr hcond rfl rfl]

/-! ### The next view -/

/-- The state after a call in which the enclave has signed `rd`. -/
def State.spoke (s : State) (p : PID) (c : Call) (rd : RData) : State :=
  { s with
    tee := s.tee.damysusIncrement
    calls := s.calls ++ [⟨s.tee, c, .just ⟨true, rd, Signs.one (idealSign p)⟩, s.tee.damysusIncrement⟩] }

theorem State.signed_spoke (s : State) (p : PID) (c : Call) (rd : RData) :
    (s.spoke p c rd).signed = s.signed ++ [.rdata rd] := by
  unfold signed spoke
  rw [List.flatMap_append]
  rfl

/-- What `TEEsign` signs. -/
def signData (st : PrepState) : RData := ⟨noHash, st.view, st.preph, st.prepv, st.phase.byte⟩

theorem callTEEsignComb_run : callTEEsignComb (sys.config p) (sys.oracle st p) s =
    .ok ⟨true, signData s.tee, Signs.one (idealSign p)⟩ (s.spoke p .sign (signData s.tee)) := rfl

/-- The state after the two signatures with which the enclave leaves view `v`. -/
def State.leaves (s : State) (p : PID) (v : View) : State :=
  { (s.spoke p .sign (signData ⟨newHash, 0, v, .precommit⟩)).spoke p .sign (newViewIn (v + 1)) with
    view := v + 1
    timer := true }

theorem State.signed_leaves (s : State) (p : PID) (v : View) : (s.leaves p v).signed =
    s.signed ++ [.rdata (signData ⟨newHash, 0, v, .precommit⟩), .rdata (newViewIn (v + 1))] := by
  show ((s.spoke p .sign _).spoke p .sign _).signed = _
  rw [signed_spoke, signed_spoke, List.append_assoc]
  rfl

theorem State.newview_mem_leaves (s : State) (p : PID) (v : View) :
    .rdata (newViewIn (v + 1)) ∈ (s.leaves p v).signed := by
  rw [signed_leaves]
  simp

/-- The state in which view `v + 1` begins: the leader logs its new-view, the others send theirs. -/
def State.enters (sys : System) (s : State) (p : PID) (v : View) : State :=
  if p = sys.leader (v + 1) then
    (s.leaves p v).withLog (s.log.storeTEENvComb (newviewOf (v + 1) p)).2
  else
    { s.leaves p v with
      out := s.out ++ [(.newview (newviewOf (v + 1) p),
        keepFromPeers (sys.config p) (sys.leader (v + 1)))] }

/-- Nothing is known of a view but new-views. -/
structure Fresh (s : State) (w : View) : Prop where
  newviews : s.log.newviewsComb.get w = []
  prepares : s.log.preparesComb.get w = []
  teePrepares : s.log.teePreparesComb.get w = []
  proposals : s.log.ldrpreparesComb.get w = []
  block : s.blocks.lookup w = none
  processed : w ∉ s.processedNewViews
  executed : w ∉ s.processedCommit

theorem Fresh.of_eq {s' : State} {w : View} (h : Fresh s w) (hlog : s'.log = s.log)
    (hblocks : s'.blocks = s.blocks) (hprocessed : s'.processedNewViews = s.processedNewViews)
    (hcommit : s'.processedCommit = s.processedCommit) : Fresh s' w :=
  ⟨hlog ▸ h.newviews, hlog ▸ h.prepares, hlog ▸ h.teePrepares, hlog ▸ h.proposals, hblocks ▸ h.block,
    hprocessed ▸ h.processed, hcommit ▸ h.executed⟩

theorem Fresh.leaves {w : View} (h : Fresh s w) {out : List (Msg × List PID)} :
    Fresh { s.leaves p v with out := out } w := h.of_eq rfl rfl rfl rfl

/-- The new-views of TEE nodes do not count. -/
theorem Fresh.store {w : View} (h : Fresh s w) (msg : MsgNewViewComb) :
    Fresh (s.withLog (s.log.storeTEENvComb msg).2) w :=
  ⟨h.newviews, h.prepares, h.teePrepares, h.proposals, h.block, h.processed, h.executed⟩

/-- The enclave signs twice: it is in the last phase of the view. -/
theorem signUntilAfter_run {fuel : ℕ} (htee : s.tee = ⟨newHash, 0, v, .precommit⟩) (hv : v + 1 < 2 ^ 32) :
    signUntilAfter (sys.config p) (sys.oracle st p) v (fuel + 2)
        ⟨true, signData s.tee, Signs.one (idealSign p)⟩ (s.spoke p .sign (signData s.tee)) =
      .ok ⟨true, newViewIn (v + 1), Signs.one (idealSign p)⟩
        ((s.spoke p .sign (signData s.tee)).spoke p .sign (newViewIn (v + 1))) := by
  have hnext : nextView v = v + 1 := Nat.mod_eq_of_lt hv
  have hdata : signData (s.spoke p .sign (signData s.tee)).tee = newViewIn (v + 1) := by
    show signData s.tee.damysusIncrement = _
    rw [htee]
    show (⟨noHash, nextView v, newHash, 0, Phase1.newview.byte⟩ : RData) = _
    rw [hnext]
    rfl
  have hview : (signData s.tee).propv = v := by rw [htee]; rfl
  have hafter : ¬ (true && decide ((newViewIn (v + 1)).propv ≤ v)) = true := by
    show ¬ (true && decide (v + 1 ≤ v)) = true
    simp
  rw [signUntilAfter, hview, decide_eq_true le_rfl, Bool.and_self, if_pos rfl, bind_of_ok callTEEsignComb_run,
    hdata, signUntilAfter, if_neg hafter]
  rfl

/-- The leader of the next view has no new-view to replay, and a backup no proposal. -/
theorem handleEarlierMessagesComb_run (exec : RData → HandlerM Unit) (hskipped : s.skippedLeaders = [])
    (hfresh : Fresh s s.view) (hnone : s.log.teeNewviewsComb.get s.view = []) :
    handleEarlierMessagesComb (sys.config p) (sys.oracle st p) exec s = .ok () s := by
  unfold handleEarlierMessagesComb
  rw [bind_of_ok (amCurrentLeader_run hskipped)]
  by_cases hleader : p = sys.leader s.view
  · have htee : (s.log.getTEENewViewComb s.view (sys.config p).tqsize).length = 0 := by
      unfold Log.getTEENewViewComb
      rw [hnone, List.take_nil]
      rfl
    have hother : (s.log.getNewViewComb s.view (qsize (sys.config p))).length = 0 := by
      unfold Log.getNewViewComb
      rw [hfresh.newviews, List.take_nil]
      rfl
    rw [decide_eq_true hleader]
    show (if (_ && decide ((s.log.getTEENewViewComb s.view (sys.config p).tqsize).length ≥
        (sys.config p).tqsize) || decide ((s.log.getTEENewViewComb s.view (sys.config p).tqsize).length +
        (s.log.getNewViewComb s.view (qsize (sys.config p))).length ≥ qsize (sys.config p))) = true
      then _ else _ : HandlerM Unit) s = _
    rw [htee, hother, sys.tqsize_config, sys.qsize_config]
    simp
    rfl
  · have hread : (get : HandlerM State) s = .ok s s := rfl
    have hnoProposal : s.log.firstLdrPrepareComb s.view = none := by
      unfold Log.firstLdrPrepareComb
      rw [hfresh.proposals]
      rfl
    have hreplay : replayProposal (sys.config p) (sys.oracle st p) s.view s = .ok () s := by
      unfold replayProposal
      rw [bind_of_ok hread, hnoProposal]
      rfl
    rw [decide_eq_false hleader, bind_of_ok hread, if_neg Bool.false_ne_true, bind_of_ok hreplay, bind_of_ok hread,
      hfresh.block]
    rfl

/-- **The next view begins.** -/
theorem startNewViewComb_run (hall : sys.AllTEE) (exec : RData → HandlerM Unit) {fuel : ℕ} (hp : p < sys.n)
    (hview : s.view = v) (hskipped : s.skippedLeaders = []) (htee : s.tee = ⟨newHash, 0, v, .precommit⟩)
    (hv : v + 1 < 2 ^ 32) (hfresh : Fresh s (v + 1)) (hnone : s.log.teeNewviewsComb.get (v + 1) = []) :
    startNewViewComb (sys.config p) (sys.oracle st p) exec (fuel + 2) s = .ok () (s.enters sys p v) := by
  have hnext : nextView v = v + 1 := Nat.mod_eq_of_lt hv
  have hfirst : signData s.tee = signData ⟨newHash, 0, v, .precommit⟩ := congrArg signData htee
  have hsign := @signUntilAfter_run sys st p s v fuel htee hv
  have hleaves : { (s.spoke p .sign (signData s.tee)).spoke p .sign (newViewIn (v + 1)) with
      view := v + 1, timer := true } = s.leaves p v := by
    rw [hfirst]
    rfl
  have hskipped' : (s.leaves p v).skippedLeaders = [] := hskipped
  have hread : (get : HandlerM State) s = .ok s s := rfl
  have hupdate : (modify fun s => { s with view := nextView s.view, timer := true } : HandlerM Unit)
      ((s.spoke p .sign (signData s.tee)).spoke p .sign (newViewIn (v + 1))) = .ok () (s.leaves p v) := by
    rw [← hleaves, ← hnext, ← hview]
    rfl
  have hread' : (get : HandlerM State) (s.leaves p v) = .ok (s.leaves p v) (s.leaves p v) := rfl
  have hcond : (decide ((newViewIn (v + 1)).propv = (s.leaves p v).view) &&
      decide ((newViewIn (v + 1)).phase = Phase1.newview.byte) &&
      decide ((Signs.one (idealSign p)).size = 1)) = true := by
    simp [newViewIn, State.leaves]
  unfold startNewViewComb
  rw [bind_of_ok hread, bind_of_ok callTEEsignComb_run, hview, bind_of_ok hsign, if_pos rfl, bind_of_ok hupdate,
    bind_of_ok hread', if_pos hcond]
  have hlead : getCurrentLeader (sys.config p) (s.leaves p v) = .ok (sys.leader (v + 1)) (s.leaves p v) :=
    getCurrentLeader_run hskipped
  have hearlier : ∀ out, handleEarlierMessagesComb (sys.config p) (sys.oracle st p) exec
      { s.leaves p v with out := out } = .ok () { s.leaves p v with out := out } := fun out =>
    handleEarlierMessagesComb_run (s := { s.leaves p v with out := out }) exec hskipped hfresh.leaves hnone
  unfold State.enters
  dsimp only
  rw [bind_of_ok hlead]
  by_cases hleader : p = sys.leader (v + 1)
  · have hseen : Seen st p (s.leaves p v) p (.rdata (newViewIn (v + 1))) := .self (s.newview_mem_leaves p v)
    have hrun := handleNewviewComb_run (q := p) hall le_rfl hskipped' hleader hp hseen
      (.of_eq hnone) List.not_mem_nil hfresh.newviews
    have hfew : ¬ ((s.leaves p v).phase = .newview ∧ sys.f ≤ ([] : List PID).length) := by
      have hf := sys.f_pos
      simp
      omega
    rw [if_pos hleader, if_pos (show (sys.config p).myid = sys.leader (v + 1) from hleader)]
    rw [bind_of_ok (hearlier _)]
    rw [if_neg hfew] at hrun
    exact hrun
  · rw [if_neg hleader, if_neg (show ¬ (sys.config p).myid = sys.leader (v + 1) from hleader)]
    exact hearlier _

/-! ### Replicas between two steps -/

/-- The store and the replies of a replica that has executed the blocks for its client. -/
def served (cid : CID) (blocks : List Block) : KVAppExecutor × List (TID × CID × AppReply) :=
  blocks.foldl (fun x block =>
    let replies := replyTransactions (fun c => c = cid) x.1 block.transactions
    (replies.kv, x.2 ++ replies.queue)) (.init, [])

/-- The replica has executed the blocks, one in each view, and is in the view after them. -/
structure Ran (cid : CID) (blocks : List Block) (s : State) : Prop where
  executed : s.executed.map Execution.block = blocks
  views : s.executed.map (fun e => e.data.propv) = List.range blocks.length
  commits : s.processedCommit.length = blocks.length
  clients : s.clients = AList.insert cid true ∅
  answered : (s.kvExecutor, s.repQueue) = served cid blocks
  skipped : s.skippedLeaders = []
  running : s.stopped = false
  view : s.view = blocks.length

/-- The replica has signed its new-view and nothing else in its view. -/
structure Entered (cid : CID) (blocks : List Block) (s : State) : Prop extends Ran cid blocks s where
  phase : s.phase = .newview
  tee : s.tee = ⟨newHash, 0, blocks.length, .prepare⟩
  fresh : ∀ w, blocks.length ≤ w → Fresh s w
  later : ∀ w, blocks.length < w → s.log.teeNewviewsComb.get w = []
  signed : .rdata (newViewIn blocks.length) ∈ s.signed

/-- A new-view that is stored changes nothing else. -/
theorem Entered.store {cid : CID} {blocks : List Block} (h : Entered cid blocks s) (q : PID) :
    Entered cid blocks (s.withLog (s.log.storeTEENvComb (newviewOf blocks.length q)).2) := by
  refine ⟨⟨h.executed, h.views, h.commits, h.clients, h.answered, h.skipped, h.running, h.view⟩, h.phase, h.tee,
    fun w hw => (h.fresh w hw).store _, fun w hw => ?_, h.signed⟩
  exact (storeTEENvComb_frame s.log q (Nat.ne_of_gt hw)).trans (h.later w hw)

/-- What is signed for a block on the genesis block. -/
def System.voteData (sys : System) (v : View) (block : Block) : RData :=
  ⟨block.hash sys.sha256, v, newHash, 0, Phase1.prepare.byte⟩

/-- The replica has signed the block of its view. -/
structure Voted (sys : System) (cid : CID) (blocks : List Block) (block : Block) (s : State) : Prop
    extends Ran cid blocks s where
  tee : s.tee = ⟨newHash, 0, blocks.length, .precommit⟩
  stored : s.blocks.lookup blocks.length = some block
  unexecuted : blocks.length ∉ s.processedCommit
  fresh : ∀ w, blocks.length < w → Fresh s w
  later : ∀ w, blocks.length < w → s.log.teeNewviewsComb.get w = []
  signed : .rdata (sys.voteData blocks.length block) ∈ s.signed

/-- The replica begins its view: its new-view is logged or sent. -/
structure Begun (sys : System) (p : PID) (cid : CID) (blocks : List Block) (s : State) : Prop
    extends Entered cid blocks s where
  own : Collected s.log blocks.length (if p = sys.leader blocks.length then [p] else [])
  sent : p ≠ sys.leader blocks.length → (.newview (newviewOf blocks.length p),
    keepFromPeers (sys.config p) (sys.leader blocks.length)) ∈ s.out

/-- What has been signed and sent stays so. -/
structure Grows (s s' : State) : Prop where
  signed : s.signed ⊆ s'.signed
  out : s.out ⊆ s'.out

theorem Grows.refl (s : State) : Grows s s := ⟨fun _ h => h, fun _ h => h⟩

theorem Grows.trans {s s' s'' : State} (h : Grows s s') (h' : Grows s' s'') : Grows s s'' :=
  ⟨fun _ ht => h'.signed (h.signed ht), fun _ hm => h'.out (h.out hm)⟩

theorem grows_enters (s : State) : Grows s (s.enters sys p v) := by
  unfold State.enters
  split
  · constructor
    · intro t ht
      show t ∈ (s.leaves p v).signed
      rw [State.signed_leaves]
      exact List.mem_append_left _ ht
    · exact fun _ h => h
  · constructor
    · intro t ht
      show t ∈ (s.leaves p v).signed
      rw [State.signed_leaves]
      exact List.mem_append_left _ ht
    · exact fun _ h => List.mem_append_left _ h

/-- The next view, when nothing is known of it and the views after it. -/
theorem begun_enters {cid : CID} {blocks : List Block} (hv : blocks.length = v + 1)
    (hran : Ran cid blocks { s with view := v + 1 }) (hphase : s.phase = .newview)
    (htee : s.tee = ⟨newHash, 0, v, .precommit⟩) (hlt : v + 1 < 2 ^ 32)
    (hfresh : ∀ w, v < w → Fresh s w) (hlater : ∀ w, v < w → s.log.teeNewviewsComb.get w = []) :
    Begun sys p cid blocks (s.enters sys p v) := by
  have hnext : nextView v = v + 1 := Nat.mod_eq_of_lt hlt
  have htee' : s.tee.damysusIncrement.damysusIncrement = ⟨newHash, 0, v + 1, .prepare⟩ := by
    rw [htee, ← hnext]
    rfl
  have hsigned : .rdata (newViewIn (v + 1)) ∈ (s.leaves p v).signed := s.newview_mem_leaves p v
  have hnone := hlater (v + 1) (Nat.lt_succ_self v)
  have hentered : ∀ out, Entered cid blocks { s.leaves p v with out := out } := by
    intro out
    refine ⟨⟨hran.executed, hran.views, hran.commits, hran.clients, hran.answered, hran.skipped, hran.running,
      hran.view⟩, hphase, hv ▸ htee', fun w hw => ?_, fun w hw => ?_, hv ▸ hsigned⟩
    · have hw : v + 1 ≤ w := hv ▸ hw
      exact (hfresh w hw).leaves
    · have hw : v + 1 < w := hv ▸ hw
      exact hlater w (Nat.lt_of_succ_lt hw)
  unfold State.enters
  by_cases hleader : p = sys.leader (v + 1)
  · rw [if_pos hleader]
    have hstored := (hentered s.out).store p
    rw [hv] at hstored
    refine { hstored with own := ?_, sent := ?_ }
    · rw [hv, if_pos hleader]
      exact (Collected.of_eq hnone).store List.not_mem_nil
    · exact fun hne => absurd (hv ▸ hleader) hne
  · rw [if_neg hleader]
    refine { hentered _ with own := ?_, sent := fun _ => ?_ }
    · rw [hv, if_neg hleader]
      exact .of_eq hnone
    · rw [hv]
      exact List.mem_append_right _ (List.mem_singleton_self _)

theorem eqHashes_self (h : Hash) : eqHashes h h = true := eqHashes_eq_true.mpr rfl

theorem replyHash_stored (sha : Text → Digest) (clients : CID → Bool) (kv : KVAppExecutor) (block : Block) :
    replyHash sha clients kv (some block) (block.hash sha) = replyTransactions clients kv block.transactions :=
  if_pos (eqHashes_self _)

theorem clients_lookup {clients : StdMap CID Bool} {cid : CID} (h : clients = AList.insert cid true ∅) :
    (fun c => (clients.lookup c).isSome) = fun c => decide (c = cid) := by
  subst h
  funext c
  by_cases hc : c = cid
  · rw [hc, AList.lookup_insert, decide_eq_true rfl]
    rfl
  · rw [AList.lookup_insert_ne hc, AList.lookup_empty, decide_eq_false hc]
    rfl

/-- **A replica that has signed its block executes it** when it gets the data. -/
theorem Voted.execute (st : SystemState) {cid : CID} {blocks : List Block} {block : Block} (hall : sys.AllTEE)
    (hp : p < sys.n) (h : Voted sys cid blocks block s) (hphase : s.phase = .newview) (hlt : blocks.length + 1 < 2 ^ 32)
    (hmax : sys.maxViews = 0 ∨ blocks.length + 1 < sys.maxViews) (fuel : ℕ) :
    ∃ s', executeComb (sys.config p) (sys.oracle st p) (fuel + 3) (sys.voteData blocks.length block) s =
        .ok () s' ∧ Begun sys p cid (blocks ++ [block]) s' ∧ Grows s s' ∧ s'.transactions = s.transactions := by
  let data := sys.voteData blocks.length block
  let s₁ := s.committed (sys.config p) (sys.oracle st p) data block
  have hlength : (blocks ++ [block]).length = blocks.length + 1 := List.length_append
  have hcommits : s₁.processedCommit = blocks.length :: s.processedCommit := if_neg h.unexecuted
  have hanswered : (s₁.kvExecutor, s₁.repQueue) = served cid (blocks ++ [block]) := by
    show ((replyHash sys.sha256 (fun c => (s.clients.lookup c).isSome) s.kvExecutor (s.blocks.lookup s.view)
        (block.hash sys.sha256)).kv,
      s.repQueue ++ (replyHash sys.sha256 (fun c => (s.clients.lookup c).isSome) s.kvExecutor
        (s.blocks.lookup s.view) (block.hash sys.sha256)).queue) = _
    rw [h.view, h.stored, replyHash_stored, clients_lookup h.clients, served, List.foldl_concat, ← served,
      ← h.answered]
  have hran : Ran cid (blocks ++ [block]) { s₁ with view := blocks.length + 1 } := by
    refine ⟨?_, ?_, ?_, h.clients, hanswered, h.skipped, h.running, hlength.symm⟩
    · show (s.executed ++ [_]).map Execution.block = _
      rw [List.map_append, h.executed]
      rfl
    · show (s.executed ++ [_]).map (fun e : Execution => e.data.propv) = _
      rw [List.map_append, h.views, hlength, List.range_succ]
      rfl
    · show s₁.processedCommit.length = _
      rw [hcommits, List.length_cons, h.commits, hlength]
  have hfresh : ∀ w, blocks.length < w → Fresh s₁ w := by
    intro w hw
    have hw' := h.fresh w hw
    refine ⟨hw'.newviews, hw'.prepares, hw'.teePrepares, hw'.proposals, hw'.block, hw'.processed, ?_⟩
    rw [hcommits, List.mem_cons, not_or]
    exact ⟨Nat.ne_of_gt hw, hw'.executed⟩
  have hgo : timeToStopComb (sys.config p) s₁ = false := by
    show (decide (sys.maxViews > 0) && decide (s₁.processedCommit.length ≥ sys.maxViews)) = false
    rw [hcommits, List.length_cons, h.commits, Bool.and_eq_false_iff, decide_eq_false_iff_not,
      decide_eq_false_iff_not]
    omega
  have hstart : startNewViewComb (sys.config p) (sys.oracle st p)
      (executeComb (sys.config p) (sys.oracle st p) (fuel + 2)) (fuel + 2) s₁ =
        .ok () (s₁.enters sys p blocks.length) :=
    startNewViewComb_run hall (executeComb (sys.config p) (sys.oracle st p) (fuel + 2)) hp h.view h.skipped h.tee
      hlt (hfresh _ (Nat.lt_succ_self _)) (h.later _ (Nat.lt_succ_self _))
  have hstored : s.blocks.lookup data.propv = some block := h.stored
  refine ⟨s₁.enters sys p blocks.length, ?_, ?_, ?_, ?_⟩
  · show (if data.propv ∈ s.processedCommit then _ else _ : HandlerM Unit) s = _
    rw [if_neg (show ¬ data.propv ∈ s.processedCommit from h.unexecuted)]
    rw [hstored]
    show (if !eqHashes (block.hash sys.sha256) (block.hash sys.sha256) then pure () else _ : HandlerM Unit) s = _
    rw [eqHashes_self, Bool.not_true, if_neg Bool.false_ne_true]
    show (if timeToStopComb (sys.config p) s₁ = true then _ else _ : HandlerM Unit) s₁ = _
    rw [hgo, if_neg Bool.false_ne_true]
    exact hstart
  · exact begun_enters hlength hran hphase h.tee hlt hfresh h.later
  · have hgrows : Grows s s₁ := ⟨fun _ ht => ht, fun _ hm => hm⟩
    exact hgrows.trans (grows_enters s₁)
  · unfold State.enters
    split <;> rfl

/-! ### A backup votes -/

/-- What the leader accumulates: `f+1` new-views that name the genesis block. -/
def System.accumData (sys : System) (v : View) : AccumData := ⟨true, v, 0, newHash, sys.f + 1⟩

def System.accum (sys : System) (v : View) : Accum := ⟨sys.accumData v, idealSign (sys.leader v)⟩

def System.proposal (sys : System) (v : View) (block : Block) : MsgLdrPrepareDamysus :=
  ⟨sys.accum v, block, idealSign (sys.leader v)⟩

/-- The vote of a replica. -/
def System.vote (sys : System) (v : View) (block : Block) (q : PID) : MsgPrepareComb :=
  ⟨sys.voteData v block, Signs.one (idealSign q)⟩

/-- The enclave takes a call and signs. -/
theorem callTEE_just {c : Call} {rd : RData}
    (h : call ((sys.oracle st p).crypto s.calls) (enclave (sys.config p)) s.tee c =
      (.just ⟨true, rd, Signs.one (idealSign p)⟩, s.tee.damysusIncrement)) :
    (Reply.toJust <$> callTEE (sys.config p) (sys.oracle st p) c) s =
      .ok ⟨true, rd, Signs.one (idealSign p)⟩ (s.spoke p c rd) := by
  have hcalled : s.called (sys.config p) (sys.oracle st p) c =
      (.just ⟨true, rd, Signs.one (idealSign p)⟩, s.spoke p c rd) := by
    unfold State.called
    rw [h]
    rfl
  show EStateM.Result.ok (Reply.toJust (s.called (sys.config p) (sys.oracle st p) c).1)
    (s.called (sys.config p) (sys.oracle st p) c).2 = _
  rw [hcalled]
  rfl

/-- The enclave takes the accumulator. -/
theorem callTEEprepareComb_run (hall : sys.AllTEE) (hseen : Seen st p s (sys.leader v) (.accum (sys.accumData v)))
    (htee : s.tee = ⟨newHash, 0, v, .prepare⟩) (block : Block) (proof : NewViewProofComb) :
    callTEEprepareComb (sys.config p) (sys.oracle st p) block (sys.accum v) proof s =
      .ok ⟨true, sys.voteData v block, Signs.one (idealSign p)⟩
        (s.spoke p (.prepare (block.hash sys.sha256) (sys.accum v)) (sys.voteData v block)) := by
  have hverify : (enclave (sys.config p)).verifyAccum ((sys.oracle st p).crypto s.calls) (sys.accum v) = true :=
    (Quorum.one (hall.leader_lt v) hseen).verifyText
  have hcond : ((enclave (sys.config p)).verifyAccum ((sys.oracle st p).crypto s.calls) (sys.accum v)
      && decide (s.tee.view = (sys.accum v).view)
      && decide ((sys.accum v).size = (enclave (sys.config p)).qsize)) = true := by
    rw [hverify, htee]
    show (decide (v = v) && decide (sys.f + 1 = qsize (sys.config p))) = true
    rw [sys.qsize_config, decide_eq_true rfl, decide_eq_true rfl]
    rfl
  have hcall : damysusTEEprepare ((sys.oracle st p).crypto s.calls) (enclave (sys.config p))
      (block.hash sys.sha256) (sys.accum v) s.tee =
      (⟨true, sys.voteData v block, Signs.one (idealSign p)⟩, s.tee.damysusIncrement) := by
    unfold damysusTEEprepare
    rw [if_pos hcond, htee]
    rfl
  have hcalled : call ((sys.oracle st p).crypto s.calls) (enclave (sys.config p)) s.tee
      (.prepare (block.hash sys.sha256) (sys.accum v)) =
      (.just ⟨true, sys.voteData v block, Signs.one (idealSign p)⟩, s.tee.damysusIncrement) := by
    show (damysusTEEprepare _ _ _ _ _).map Reply.just id = _
    rw [hcall]
    rfl
  exact callTEE_just hcalled

/-- The proposal of the leader is accepted. -/
theorem verifyLdrPrepareComb_run (hall : sys.AllTEE) (hskipped : s.skippedLeaders = []) {block : Block}
    (hacc : Seen st p s (sys.leader v) (.accum (sys.accumData v)))
    (hblock : Seen st p s (sys.leader v) (.rdata (sys.voteData v block))) :
    verifyLdrPrepareComb (sys.config p) (sys.oracle st p) (sys.proposal v block).comb s = .ok true s := by
  have hleader := hall.leader_lt v
  have haccum := (Quorum.one hleader hacc).verify hall
  have hrdata := (Quorum.one hleader hblock).verify hall
  have hsigner : decide (((sys.proposal v block).comb).sign.signer = sys.leader v) = true := decide_eq_true rfl
  unfold verifyLdrPrepareComb
  rw [bind_of_ok (getLeaderOf_run hskipped _)]
  show EStateM.Result.ok (true && true && decide (sys.leader v = sys.leader v) &&
    decide (sys.leader v = sys.leader v) &&
    (Signs.one (idealSign (sys.leader v))).verify ((sys.oracle st p).crypto s.calls).verifySign sys.nodes
      (.accum (sys.accumData v)) &&
    (Signs.one (idealSign (sys.leader v))).verify ((sys.oracle st p).crypto s.calls).verifySign sys.nodes
      (.rdata (sys.voteData v block))) s = _
  rw [haccum, hrdata, decide_eq_true rfl]
  rfl

/-- **A backup votes** for the proposal of its view. -/
theorem Entered.vote {cid : CID} {blocks : List Block} {block : Block} (hall : sys.AllTEE)
    (h : Entered cid blocks s) (hp : p ≠ sys.leader blocks.length) (hext : block.extends newHash = true)
    (hacc : Seen st p s (sys.leader blocks.length) (.accum (sys.accumData blocks.length)))
    (hblock : Seen st p s (sys.leader blocks.length) (.rdata (sys.voteData blocks.length block))) :
    ∃ s', handleLdrPrepareComb (sys.config p) (sys.oracle st p) (sys.proposal blocks.length block).comb s =
        .ok () s' ∧ Voted sys cid blocks block s' ∧ s'.phase = .newview ∧ Grows s s' ∧
      (.prepare (sys.vote blocks.length block p), keepFromPeers (sys.config p) (sys.leader blocks.length)) ∈
        s'.out ∧ s'.transactions = s.transactions := by
  have hfresh := h.fresh _ le_rfl
  have hverify := verifyLdrPrepareComb_run hall h.skipped hacc hblock
  have hlead : amLeaderOf (sys.config p) (sys.proposal blocks.length block).comb.acc.view s = .ok false s := by
    rw [← decide_eq_false hp]
    exact amLeaderOf_run h.skipped _
  let s₁ := s.spoke p (.prepare (block.hash sys.sha256) (sys.accum blocks.length))
    (sys.voteData blocks.length block)
  have hcall : callTEEprepareComb (sys.config p) (sys.oracle st p) block (sys.accum blocks.length) .none s =
      .ok ⟨true, sys.voteData blocks.length block, Signs.one (idealSign p)⟩ s₁ :=
    callTEEprepareComb_run hall hacc h.tee block .none
  let s₂ : State := { s₁ with blocks := s.blocks.insert s.view block }
  have hblocks : (modify fun s => { s with blocks := s.blocks.insert s.view block } : HandlerM Unit) s₁ =
      .ok () s₂ := rfl
  have hlead₂ : getCurrentLeader (sys.config p) s₂ = .ok (sys.leader blocks.length) s₂ := by
    rw [← h.view]
    exact getCurrentLeader_run (s := s₂) h.skipped
  refine ⟨{ s₂ with out := s.out ++ [(.prepare (sys.vote blocks.length block p),
    keepFromPeers (sys.config p) (sys.leader blocks.length))] }, ?_, ?_, h.phase, ?_, ?_, rfl⟩
  · unfold handleLdrPrepareComb
    rw [bind_of_ok hverify]
    have hcond : (!false && true &&
        (decide ((sys.proposal blocks.length block).comb.acc.size = qsize (sys.config p)) ||
          decide ((sys.proposal blocks.length block).comb.acc.size = (sys.config p).tqsize)) &&
        (sys.proposal blocks.length block).comb.block.extends
          (sys.proposal blocks.length block).comb.acc.hash) = true := by
      show (true && (decide (sys.f + 1 = qsize (sys.config p)) || _) && block.extends newHash) = true
      rw [sys.qsize_config, decide_eq_true rfl, hext]
      rfl
    show (if blocks.length ≥ s.view then _ else _ : HandlerM Unit) s = _
    rw [if_pos (show blocks.length ≥ s.view from h.view.le), bind_of_ok hlead, if_pos hcond,
      if_pos (show (sys.proposal blocks.length block).comb.acc.view = s.view from h.view.symm)]
    show respondToLdrPrepareComb _ _ block (sys.accum blocks.length) .none s = _
    unfold respondToLdrPrepareComb
    rw [bind_of_ok hcall, if_pos rfl]
    refine (bind_of_ok hblocks).trans ?_
    rw [bind_of_ok hlead₂]
    rfl
  · refine ⟨⟨h.executed, h.views, h.commits, h.clients, h.answered, h.skipped, h.running, h.view⟩, ?_, ?_,
      hfresh.executed, ?_, h.later, ?_⟩
    · show s.tee.damysusIncrement = _
      rw [h.tee]
      rfl
    · show (s.blocks.insert s.view block).lookup _ = _
      rw [h.view, AList.lookup_insert]
    · intro w hw
      have hw' := h.fresh w hw.le
      refine ⟨hw'.newviews, hw'.prepares, hw'.teePrepares, hw'.proposals, ?_, hw'.processed, hw'.executed⟩
      show (s.blocks.insert s.view block).lookup w = none
      rw [AList.lookup_insert_ne (by rw [h.view]; exact Nat.ne_of_gt hw)]
      exact hw'.block
    · show _ ∈ s₁.signed
      rw [State.signed_spoke]
      exact List.mem_append_right _ (List.mem_singleton_self _)
  · constructor
    · intro t ht
      show t ∈ s₁.signed
      rw [State.signed_spoke]
      exact List.mem_append_left _ ht
    · exact fun _ hm => List.mem_append_left _ hm
  · exact List.mem_append_right _ (List.mem_singleton_self _)

/-! ### The leader proposes -/

/-- The state after a call in which the enclave of the leader has accumulated. -/
def State.accumulated (s : State) (c : Call) (acc : Accum) : State :=
  { s with calls := s.calls ++ [⟨s.tee, c, .accum acc, s.tee⟩] }

theorem State.signed_accumulated (s : State) (c : Call) (acc : Accum) :
    (s.accumulated c acc).signed = s.signed ++ [.accum acc.toAccumData] := by
  unfold signed accumulated
  rw [List.flatMap_append]
  rfl

/-- The logged new-views are those of some replicas. -/
theorem Collected.eq_map {log : Log} {senders : List PID} (h : Collected log v senders) :
    ∃ signers : List PID, signers.Perm senders ∧
      log.teeNewviewsComb.get v = signers.map (newviewOf v) := by
  refine ⟨(log.teeNewviewsComb.get v).map fun m => m.sign.signer, ?_, ?_⟩
  · have hmap := h.map fun m => m.sign.signer
    have hid : (senders.map (newviewOf v)).map (fun m => m.sign.signer) = senders := by
      rw [List.map_map]
      exact List.map_id senders
    rwa [hid] at hmap
  · rw [List.map_map]
    refine (List.map_id _).symm.trans (List.map_congr_left fun m hm => ?_)
    obtain ⟨q, -, rfl⟩ := List.mem_map.mp (h.mem_iff.mp hm)
    rfl

/-- All new-views have the same data. -/
theorem sameNewViewSigns_newviews (v : View) (q : PID) (signers : List PID)
    (hfits : (q :: signers).length ≤ maxNumSignatures) :
    (sameNewViewSigns ((q :: signers).map (newviewOf v))).entries = (q :: signers).map idealSign ∧
      (sameNewViewSigns ((q :: signers).map (newviewOf v))).size = (q :: signers).length := by
  have hlength : (newviewOf v q :: signers.map (newviewOf v)).length ≤ maxNumSignatures := by
    rw [List.length_cons, List.length_map]
    exact hfits
  obtain ⟨hsame, hsigns⟩ := samePayload_cons hlength
  have hall : ∀ m ∈ signers.map (newviewOf v), eqRData m.data (newviewOf v q).data = true := by
    rw [List.forall_mem_map]
    intro q' _
    exact eqRData_eq_true.mpr ⟨rfl, rfl, rfl, rfl, rfl⟩
  obtain ⟨hsize, hentries⟩ := hsigns (hsame.mpr hall)
  rw [List.map_cons]
  constructor
  · rw [hentries, List.map_cons, List.map_map]
    rfl
  · rw [hsize, List.length_cons, List.length_map]
    rfl

/-- The leader's enclave accumulates the new-views of a quorum. -/
theorem newviews2accComb_run (hfits : sys.f + 1 ≤ maxNumSignatures) (hp : p = sys.leader v)
    {signers : List PID} (hlength : signers.length = sys.f + 1) (hnodup : signers.Nodup)
    (hseen : ∀ q ∈ signers, q < sys.n ∧ Seen st p s q (.rdata (newViewIn v))) :
    ∃ c, newviews2accComb (sys.config p) (sys.oracle st p) (signers.map (newviewOf v)) (sys.f + 1) s =
      .ok (sys.accum v) (s.accumulated c (sys.accum v)) := by
  cases signers with
  | nil => cases hlength
  | cons q signers =>
    obtain ⟨hentries, hsize⟩ := sameNewViewSigns_newviews v q signers (hlength ▸ hfits)
    have hquorum : Quorum sys st p s (sameNewViewSigns ((q :: signers).map (newviewOf v)))
        (.rdata (newViewIn v)) (q :: signers) :=
      ⟨hentries, hsize, hlength ▸ Nat.succ_pos _, hlength ▸ hfits, hnodup, hseen⟩
    let just : Just := ⟨true, newViewIn v, sameNewViewSigns ((q :: signers).map (newviewOf v))⟩
    have hcount : countSigners (just.signs.entries.take (qsize (sys.config p))) = sys.f + 1 := by
      have hle : just.signs.size ≤ qsize (sys.config p) := by
        rw [sys.qsize_config, ← hlength]
        exact hsize.le
      rw [take_entries_of_le hle, countSigners_of_nodup hquorum.signers_nodup]
      show (sameNewViewSigns ((q :: signers).map (newviewOf v))).entries.length = _
      rw [hentries, List.length_map, hlength]
    have hverify := hquorum.verifyText
    have haccum : combTEEaccumSp ((sys.oracle st p).crypto s.calls) (enclave (sys.config p)) just =
        sys.accum v := by
      have hcond : (decide ((newViewIn v).phase = Phase1.newview.byte) &&
          (enclave (sys.config p)).verifyText ((sys.oracle st p).crypto s.calls).verifySign just.signs
            (.rdata (newViewIn v))) = true := Bool.and_eq_true_iff.mpr ⟨decide_eq_true rfl, hverify⟩
      show combAccumOf _ _ v 0 newHash (if (decide ((newViewIn v).phase = Phase1.newview.byte) &&
          (enclave (sys.config p)).verifyText ((sys.oracle st p).crypto s.calls).verifySign just.signs
            (.rdata (newViewIn v))) = true then
        countSigners (just.signs.entries.take (qsize (sys.config p))) else 0) = _
      rw [if_pos hcond, hcount]
      show (⟨sys.accumData v, idealSign p⟩ : Accum) = ⟨sys.accumData v, idealSign (sys.leader v)⟩
      rw [hp]
    refine ⟨.accumSp just, ?_⟩
    unfold newviews2accComb
    rw [if_pos (hsize.trans hlength).ge]
    show EStateM.Result.ok (combTEEaccumSp ((sys.oracle st p).crypto s.calls) (enclave (sys.config p)) just)
      (s.accumulated (.accumSp just) (combTEEaccumSp ((sys.oracle st p).crypto s.calls)
        (enclave (sys.config p)) just)) = _
    rw [haccum]

/-- The block of a view that holds the first waiting transactions. -/
def System.blockOf (sys : System) (v : View) (waiting : List Transaction) : Block :=
  let trans := waiting.take maxNumTransactions
  ⟨concatDigits (sys.leader v) v, true, newHash, trans.length, Vector.ofFn fun i => trans.getD i.val .dummy⟩

theorem createNewBlock_run (hp : p = sys.leader s.view)
    (hid : concatDigits (sys.leader s.view) s.view < 2 ^ 31) :
    createNewBlock (sys.config p) newHash s = .ok (sys.blockOf s.view s.transactions)
      { s with transactions := s.transactions.drop maxNumTransactions } := by
  have hmyid : (sys.config p).myid = sys.leader s.view := hp
  unfold createNewBlock
  show (if concatDigits (sys.config p).myid s.view < 2 ^ 31 then _ else _ : HandlerM Block) _ = _
  rw [hmyid, if_pos hid]
  rfl

/-- The leader has proposed the block of its view, and has the votes of these replicas. -/
structure Leading (sys : System) (p : PID) (cid : CID) (blocks : List Block) (block : Block)
    (voters : List PID) (s : State) : Prop extends Voted sys cid blocks block s where
  phase : s.phase = .prepare
  votes : (s.log.teePreparesComb.get blocks.length).Perm (voters.map (sys.vote blocks.length block))
  others : s.log.preparesComb.get blocks.length = []

/-- The state in which the leader has proposed. -/
def State.proposed (sys : System) (s : State) (p : PID) (block : Block) : State :=
  let s' := s.spoke p (.prepare (block.hash sys.sha256) (sys.accum s.view)) (sys.voteData s.view block)
  { s' with
    phase := .prepare
    processedNewViews := viewInsert s.view s.processedNewViews
    blocks := s.blocks.insert s.view block
    out := s.out ++ [(.ldrprepare (sys.proposal s.view block), removeFromPeersPure (sys.config p) p)]
    log := (s.log.storeTEEPrepComb (sys.vote s.view block p)).2 }

/-- With the new-views of a quorum the leader proposes. -/
theorem prepareComb_run (hall : sys.AllTEE) (hfits : sys.f + 1 ≤ maxNumSignatures) (hview : s.view = v)
    (hp : p = sys.leader v) {senders : List PID} (hcollected : Collected s.log v senders)
    (hlength : senders.length = sys.f + 1) (hnodup : senders.Nodup)
    (hseen : ∀ q ∈ senders, q < sys.n ∧ Seen st p s q (.rdata (newViewIn v)))
    (hid : concatDigits (sys.leader v) v < 2 ^ 31) (htee : s.tee = ⟨newHash, 0, v, .prepare⟩)
    (hprocessed : v ∉ s.processedNewViews) :
    ∃ c, (do
        prepareComb (sys.config p) (sys.oracle st p)
        modify fun s => if s.view ∈ s.processedNewViews then { s with phase := .prepare } else s :
        HandlerM Unit) s =
      .ok () (({ s.accumulated c (sys.accum v) with
        transactions := s.transactions.drop maxNumTransactions } : State).proposed sys p
          (sys.blockOf v s.transactions)) := by
  subst hview hp
  obtain ⟨signers, hperm, hlog⟩ := hcollected.eq_map
  -- the log holds just `f+1` new-views, so all of them are taken
  have hlength' : signers.length = sys.f + 1 := hperm.length_eq.trans hlength
  have htqsize := sys.tqsize_config (sys.leader s.view)
  have hnewviews : s.log.getTEENewViewComb s.view (sys.config (sys.leader s.view)).tqsize =
      signers.map (newviewOf s.view) := by
    unfold Log.getTEENewViewComb
    rw [hlog, List.take_of_length_le]
    rw [List.length_map, hlength', htqsize]
  obtain ⟨c, haccum⟩ := newviews2accComb_run (s := s) hfits rfl hlength'
    (hperm.nodup_iff.mpr hnodup) fun q hq => hseen q (hperm.mem_iff.mp hq)
  rw [← htqsize] at haccum
  -- the states between the calls of `processQC`, each with the call that leads to it
  let s₁ := s.accumulated c (sys.accum s.view)
  let block := sys.blockOf s.view s.transactions
  have hblock : createNewBlock (sys.config (sys.leader s.view)) newHash s₁ =
      .ok block { s₁ with transactions := s.transactions.drop maxNumTransactions } :=
    createNewBlock_run (s := s₁) rfl hid
  let s₂ : State := { s₁ with transactions := s.transactions.drop maxNumTransactions }
  have hown : Seen st (sys.leader s.view) s₂ (sys.leader s.view) (.accum (sys.accumData s.view)) := by
    apply Seen.self
    show _ ∈ s₁.signed
    rw [State.signed_accumulated]
    exact List.mem_append_right _ (List.mem_singleton_self _)
  let s₃ := s₂.spoke (sys.leader s.view) (.prepare (block.hash sys.sha256) (sys.accum s.view))
    (sys.voteData s.view block)
  have hprepare : ∀ proof, callTEEprepareComb (sys.config (sys.leader s.view))
      (sys.oracle st (sys.leader s.view)) block (sys.accum s.view) proof s₂ =
        .ok ⟨true, sys.voteData s.view block, Signs.one (idealSign (sys.leader s.view))⟩ s₃ :=
    callTEEprepareComb_run (s := s₂) hall hown htee block
  let s₄ : State := { s₃ with
    processedNewViews := viewInsert s.view s.processedNewViews
    blocks := s.blocks.insert s.view block }
  have hmodify : (modify fun s => { s with
      processedNewViews := viewInsert s.view s.processedNewViews
      blocks := s.blocks.insert s.view block } : HandlerM Unit) s₃ = .ok () s₄ := rfl
  let s₅ : State := { s₄ with
    out := s.out ++ [(.ldrprepare (sys.proposal s.view block),
      removeFromPeersPure (sys.config (sys.leader s.view)) (sys.leader s.view))] }
  have hsend : sendMsg (.ldrprepare ⟨sys.accum s.view, block,
      (Signs.one (idealSign (sys.leader s.view))).get 0⟩)
      (removeFromPeersPure (sys.config (sys.leader s.view)) (sys.leader s.view)) s₄ = .ok () s₅ := rfl
  let s₆ : State := { s₅ with log := (s.log.storeTEEPrepComb (sys.vote s.view block (sys.leader s.view))).2 }
  have htee : (sys.config (sys.leader s.view)).isTEE (sys.leader s.view) = true :=
    hall.isTEE _ (hall.leader_lt s.view)
  have hprocess : processQC (sys.config (sys.leader s.view)) (sys.oracle st (sys.leader s.view))
      (signers.map (newviewOf s.view)) .tee s = .ok () s₆ := by
    unfold processQC
    show (if s.view ∈ s.processedNewViews then _ else _ : HandlerM Unit) s = _
    rw [if_neg hprocessed]
    refine (bind_of_ok haccum).trans ?_
    rw [if_neg (show ¬ (!(sys.accum s.view).set) = true from Bool.false_ne_true)]
    refine (bind_of_ok hblock).trans ?_
    rw [bind_of_ok (hprepare _)]
    refine (bind_of_ok hmodify).trans ?_
    rw [if_pos (show (Signs.one (idealSign (sys.leader s.view))).size = 1 from rfl)]
    refine (bind_of_ok hsend).trans ?_
    show EStateM.Result.ok () { s₅ with
      log := if (sys.config (sys.leader s.view)).isTEE (sys.leader s.view) = true then
          (s.log.storeTEEPrepComb (sys.vote s.view block (sys.leader s.view))).2
        else (s.log.storePrepComb (sys.vote s.view block (sys.leader s.view))).2 } = _
    rw [if_pos htee]
  have hprepared : prepareComb (sys.config (sys.leader s.view)) (sys.oracle st (sys.leader s.view)) s =
      .ok () s₆ := by
    unfold prepareComb
    show (if ((sys.config (sys.leader s.view)).fastQC && decide ((s.log.getTEENewViewComb s.view
        (sys.config (sys.leader s.view)).tqsize).length ≥ (sys.config (sys.leader s.view)).tqsize)) = true
      then processQC _ _ (s.log.getTEENewViewComb s.view (sys.config (sys.leader s.view)).tqsize) .tee
      else _ : HandlerM Unit) s = _
    rw [hnewviews, List.length_map, hlength', htqsize, hall.fastQC, decide_eq_true le_rfl, Bool.and_self,
      if_pos rfl]
    exact hprocess
  have hmem : s₆.view ∈ s₆.processedNewViews := mem_viewInsert s.view s.processedNewViews
  refine ⟨c, (bind_of_ok hprepared).trans ?_⟩
  show EStateM.Result.ok () (if s₆.view ∈ s₆.processedNewViews then { s₆ with phase := .prepare } else s₆) = _
  rw [if_pos hmem]
  rfl

/-- **The leader proposes** when the last new-view of a quorum comes in. -/
theorem Entered.propose {cid : CID} {blocks : List Block} (hall : sys.AllTEE)
    (hfits : sys.f + 1 ≤ maxNumSignatures) (h : Entered cid blocks s) (hp : p = sys.leader blocks.length)
    {senders : List PID} {q : PID} (hcollected : Collected s.log blocks.length senders)
    (hlength : senders.length = sys.f) (hnodup : (q :: senders).Nodup)
    (hseen : ∀ q' ∈ q :: senders, q' < sys.n ∧ Seen st p s q' (.rdata (newViewIn blocks.length)))
    (hid : concatDigits (sys.leader blocks.length) blocks.length < 2 ^ 31) :
    ∃ s', handleNewviewComb (sys.config p) (sys.oracle st p) (newviewOf blocks.length q) s = .ok () s' ∧
      Leading sys p cid blocks (sys.blockOf blocks.length s.transactions) [p] s' ∧ Grows s s' ∧
      (.ldrprepare (sys.proposal blocks.length (sys.blockOf blocks.length s.transactions)),
        removeFromPeersPure (sys.config p) p) ∈ s'.out ∧
      .accum (sys.accumData blocks.length) ∈ s'.signed ∧
      s'.transactions = s.transactions.drop maxNumTransactions := by
  have hfresh := h.fresh _ le_rfl
  obtain ⟨hq, hqseen⟩ := hseen q List.mem_cons_self
  obtain ⟨hnew, hrest⟩ := List.nodup_cons.mp hnodup
  have hrun := handleNewviewComb_run hall h.view.le h.skipped hp hq hqseen hcollected hnew hfresh.newviews
  rw [if_pos ⟨h.phase, hlength.ge⟩] at hrun
  let s₀ := s.withLog (s.log.storeTEENvComb (newviewOf blocks.length q)).2
  have hcollected₀ : Collected s₀.log blocks.length (q :: senders) := hcollected.store hnew
  have hlength₀ : (q :: senders).length = sys.f + 1 := congrArg Nat.succ hlength
  obtain ⟨c, hprepare⟩ := prepareComb_run (s := s₀) hall hfits h.view hp hcollected₀ hlength₀ hnodup
    hseen hid h.tee hfresh.processed
  let block := sys.blockOf blocks.length s.transactions
  let s₁ : State := { s₀.accumulated c (sys.accum blocks.length) with
    transactions := s.transactions.drop maxNumTransactions }
  have hsigned₁ : s₁.signed = s.signed ++ [.accum (sys.accumData blocks.length)] :=
    s₀.signed_accumulated c (sys.accum blocks.length)
  have hview₁ : s₁.view = blocks.length := h.view
  have hsigned : (s₁.proposed sys p block).signed =
      s.signed ++ [.accum (sys.accumData blocks.length)] ++ [.rdata (sys.voteData blocks.length block)] := by
    rw [← hsigned₁, ← hview₁]
    exact s₁.signed_spoke p _ _
  have hvote : (s₁.proposed sys p block).log = (s₀.log.storeTEEPrepComb (sys.vote blocks.length block p)).2 := by
    rw [← hview₁]
    rfl
  have hnone : s₀.log.teePreparesComb.get blocks.length = [] := hfresh.teePrepares
  refine ⟨s₁.proposed sys p block, hrun.trans hprepare, ?_, ?_, ?_, ?_, rfl⟩
  · refine ⟨⟨⟨h.executed, h.views, h.commits, h.clients, h.answered, h.skipped, h.running, h.view⟩, ?_, ?_,
      hfresh.executed, fun w hw => ?_, fun w hw => ?_, ?_⟩, rfl, ?_, ?_⟩
    · show s.tee.damysusIncrement = _
      rw [h.tee]
      rfl
    · show (s.blocks.insert s.view block).lookup _ = _
      rw [h.view, AList.lookup_insert]
    · have hw' := h.fresh w hw.le
      have hne : w ≠ s.view := by
        rw [h.view]
        exact Nat.ne_of_gt hw
      refine ⟨?_, ?_, ?_, ?_, ?_, ?_, hw'.executed⟩
      · rw [hvote]
        exact hw'.newviews
      · rw [hvote]
        exact hw'.prepares
      · rw [hvote]
        have hframe : (s₀.log.storeTEEPrepComb (sys.vote blocks.length block p)).2.teePreparesComb.get w =
            s₀.log.teePreparesComb.get w := ViewLog.get_store_of_ne (Nat.ne_of_gt hw)
        exact hframe.trans hw'.teePrepares
      · rw [hvote]
        exact hw'.proposals
      · show (s.blocks.insert s.view block).lookup w = none
        rw [AList.lookup_insert_ne hne]
        exact hw'.block
      · show w ∉ viewInsert s.view s.processedNewViews
        unfold viewInsert
        split
        · exact hw'.processed
        · rw [List.mem_cons, not_or]
          exact ⟨hne, hw'.processed⟩
    · rw [hvote]
      exact (storeTEENvComb_frame s.log q (Nat.ne_of_gt hw)).trans (h.later w hw)
    · rw [hsigned]
      exact List.mem_append_right _ (List.mem_singleton_self _)
    · rw [hvote]
      have hlog : (s₀.log.storeTEEPrepComb (sys.vote blocks.length block p)).2.teePreparesComb.get blocks.length =
          setInsert MsgVoteComb.lt (sys.vote blocks.length block p) [] := by
        rw [← hnone]
        rcases ViewLog.get_store MsgVoteComb.lt msgVoteCombFrom s₀.log.teePreparesComb
          (sys.vote blocks.length block p) with ⟨hdup, -⟩ | ⟨-, hget⟩
        · have hdup : msgVoteCombFrom (s₀.log.teePreparesComb.get blocks.length)
            (sys.vote blocks.length block p) = true := hdup
          rw [hnone] at hdup
          cases hdup
        · exact hget
      rw [hlog]
      exact List.Perm.refl _
    · rw [hvote]
      exact hfresh.prepares
  · constructor
    · intro t ht
      rw [hsigned]
      exact List.mem_append_left _ (List.mem_append_left _ ht)
    · exact fun _ hm => List.mem_append_left _ hm
  · show _ ∈ s.out ++ [(Msg.ldrprepare (sys.proposal s.view block), removeFromPeersPure (sys.config p) p)]
    rw [h.view]
    exact List.mem_append_right _ (List.mem_singleton_self _)
  · rw [hsigned]
    exact List.mem_append_left _ (List.mem_append_right _ (List.mem_singleton_self _))

/-! ### The leader counts the votes -/

theorem Leading.exists_vote {cid : CID} {blocks : List Block} {block : Block} {voters : List PID}
    (h : Leading sys p cid blocks block voters s) {m : MsgVoteComb}
    (hm : m ∈ s.log.teePreparesComb.get blocks.length) :
    ∃ q ∈ voters, sys.vote blocks.length block q = m :=
  List.mem_map.mp (h.votes.mem_iff.mp hm)

theorem Leading.signers_perm {cid : CID} {blocks : List Block} {block : Block} {voters : List PID}
    (h : Leading sys p cid blocks block voters s) :
    ((s.log.teePreparesComb.get blocks.length).map fun m => m.vote.signer).Perm voters := by
  have hmap := h.votes.map fun m => m.vote.signer
  have hid : (voters.map (sys.vote blocks.length block)).map (fun m => m.vote.signer) = voters := by
    rw [List.map_map]
    exact List.map_id voters
  rwa [hid] at hmap

/-- The votes that are stored. -/
theorem Leading.votesOf {cid : CID} {blocks : List Block} {block : Block} {voters : List PID}
    (hall : sys.AllTEE) (h : Leading sys p cid blocks block voters s) (hnodup : voters.Nodup)
    (hknown : ∀ q ∈ voters, q < sys.n) :
    VotesOf (sys.config p) true (s.log.teePreparesComb.get blocks.length) := by
  refine ⟨fun m hm => ?_, h.signers_perm.nodup_iff.mpr hnodup, fun m hm => ?_⟩
  · obtain ⟨q, -, rfl⟩ := h.exists_vote hm
    rfl
  · obtain ⟨q, hq, rfl⟩ := h.exists_vote hm
    exact hall.isTEE p (hknown q hq)

/-- A vote that is new comes in. -/
theorem Leading.store {cid : CID} {blocks : List Block} {block : Block} {voters : List PID} {q : PID}
    (hall : sys.AllTEE) (h : Leading sys p cid blocks block voters s) (hnodup : (q :: voters).Nodup)
    (hknown : ∀ q' ∈ q :: voters, q' < sys.n) :
    (s.log.storeTEEPrepComb (sys.vote blocks.length block q)).1 = voters.length + 1 ∧
      Leading sys p cid blocks block (q :: voters)
        (s.withLog (s.log.storeTEEPrepComb (sys.vote blocks.length block q)).2) := by
  obtain ⟨hnew, hrest⟩ := List.nodup_cons.mp hnodup
  have hvotes : VotesOf (sys.config p) true
      (s.log.teePreparesComb.get (sys.vote blocks.length block q).data.propv) :=
    h.votesOf hall hrest fun q' hq' => hknown q' (List.mem_cons_of_mem q hq')
  have hone : (sys.vote blocks.length block q).signs.size = 1 := rfl
  have hlength := h.votes.length_eq
  rw [List.length_map] at hlength
  rcases hvotes.store_cases hone with ⟨hold, -⟩ | ⟨-, hcount, hperm⟩
  · exact absurd (h.signers_perm.mem_iff.mp hold) hnew
  · refine ⟨hcount.trans (congrArg Nat.succ hlength), ?_⟩
    refine ⟨⟨⟨h.executed, h.views, h.commits, h.clients, h.answered, h.skipped, h.running, h.view⟩, h.tee,
      h.stored, h.unexecuted, fun w hw => ?_, h.later, h.signed⟩, h.phase, ?_, h.others⟩
    · have hw' := h.fresh w hw
      have hframe : (s.log.storeTEEPrepComb (sys.vote blocks.length block q)).2.teePreparesComb.get w =
          s.log.teePreparesComb.get w := ViewLog.get_store_of_ne (Nat.ne_of_gt hw)
      exact ⟨hw'.newviews, hw'.prepares, hframe.trans hw'.teePrepares, hw'.proposals, hw'.block, hw'.processed,
        hw'.executed⟩
    · exact hperm.trans (h.votes.cons _)

/-- A vote is counted, and with `f+1` of them the leader decides. -/
theorem Leading.handlePrepareComb_run {cid : CID} {blocks : List Block} {block : Block} {voters : List PID}
    {q : PID} (hall : sys.AllTEE) (h : Leading sys p cid blocks block voters s)
    (hp : p = sys.leader blocks.length) (hnodup : (q :: voters).Nodup) (hknown : ∀ q' ∈ q :: voters, q' < sys.n)
    (hseen : Seen st p s q (.rdata (sys.voteData blocks.length block))) (fuel : ℕ) :
    handlePrepareComb (sys.config p) (sys.oracle st p) fuel (sys.vote blocks.length block q) s =
      (if sys.f ≤ voters.length then do
          setPhase .newview
          decideComb (sys.config p) (sys.oracle st p) (executeComb (sys.config p) (sys.oracle st p) fuel)
            (sys.voteData blocks.length block) .tee
        else pure () : HandlerM Unit)
        (s.withLog (s.log.storeTEEPrepComb (sys.vote blocks.length block q)).2) := by
  have hq := hknown q List.mem_cons_self
  obtain ⟨hstored, hleading⟩ := h.store hall hnodup hknown
  let s' := s.withLog (s.log.storeTEEPrepComb (sys.vote blocks.length block q)).2
  have hlead : amLeaderOf (sys.config p) (sys.vote blocks.length block q).data.propv s = .ok true s := by
    rw [← decide_eq_true hp]
    exact amLeaderOf_run h.skipped _
  have hverify : verifyCombVote (sys.config p) ((sys.oracle st p).crypto s.calls)
      (sys.vote blocks.length block q).data (sys.vote blocks.length block q).signs .prepare = true := by
    unfold verifyCombVote
    rw [Bool.and_eq_true]
    exact ⟨decide_eq_true rfl, (Quorum.one hq hseen).verifyCombSigns hall false⟩
  have hnone : (s'.log.getPrepareComb blocks.length (qsize (sys.config p))).size = 0 := by
    show (VoteLog.getSigns s.log.preparesComb blocks.length _).size = 0
    unfold VoteLog.getSigns
    rw [h.others]
    rfl
  have hcount : countVote (sys.config p) Log.storeTEEPrepComb Log.storePrepComb Log.getTEEPrepareComb
      Log.getPrepareComb (sys.vote blocks.length block q) s = .ok (voters.length + 1, 0) s' := by
    unfold countVote
    show (if (sys.config p).isTEE q = true then _ else _ : HandlerM (ℕ × ℕ)) s = _
    rw [if_pos (hall.isTEE p hq)]
    show EStateM.Result.ok ((s.log.storeTEEPrepComb (sys.vote blocks.length block q)).1,
      if (s.log.storeTEEPrepComb (sys.vote blocks.length block q)).1 ≠ 0 then
        (s'.log.getPrepareComb blocks.length (qsize (sys.config p))).size else 0) s' = _
    rw [hnone, hstored, ite_self]
  have hleader : getCurrentLeader (sys.config p) s' = .ok p s' := by
    rw [hp, ← h.view]
    exact getCurrentLeader_run (s := s') h.skipped
  unfold handlePrepareComb handleVote
  show (if blocks.length = s.view then _ else _ : HandlerM Unit) s = _
  rw [if_pos h.view.symm, bind_of_ok hlead, if_pos rfl, if_pos hverify, bind_of_ok hcount]
  dsimp only
  rw [hall.fastQC, sys.tqsize_config, sys.qsize_config, decide_eq_true h.phase, Bool.and_true, Bool.true_and,
    Bool.and_true]
  by_cases henough : sys.f ≤ voters.length
  · rw [if_pos (decide_eq_true (Nat.succ_le_succ henough)), if_pos henough, bind_of_ok hleader,
      if_pos (hall.isTEE p (hp ▸ hall.leader_lt _))]
    rfl
  · have hfew : ¬ voters.length + 1 ≥ sys.f + 1 := fun hle => henough (Nat.le_of_succ_le_succ hle)
    have hne : ¬ voters.length + 1 + 0 = sys.f + 1 := fun heq => henough (Nat.le_of_succ_le_succ heq.ge)
    rw [decide_eq_false hfew, decide_eq_false hne, if_neg Bool.false_ne_true, if_neg Bool.false_ne_true,
      if_neg henough]

/-! ### The certificate -/

/-- The signatures are those of these replicas. -/
def SignedBy (signs : Signs) (signers : List PID) : Prop :=
  signs.entries = signers.map idealSign ∧ signs.size = signers.length

/-- A certificate of a quorum is accepted. -/
theorem Quorum.verifyCombQC (hall : sys.AllTEE) {signs : Signs} {data : RData} {signers : List PID}
    (h : Quorum sys st p s signs (.rdata data) signers) (hlength : signers.length = sys.f + 1) {phase : Phase1}
    (hphase : data.phase = phase.byte) :
    verifyCombQC (sys.config p) ((sys.oracle st p).crypto s.calls) data signs phase = true := by
  have hsize : signs.size = (sys.config p).tqsize := by rw [h.size, hlength, sys.tqsize_config]
  have hverify := h.verifyCombSigns hall true
  rw [← h.size, hsize] at hverify
  unfold Damysus.verifyCombQC
  rw [decide_eq_true hphase, decide_eq_true hsize, hverify]
  rfl

/-- The certificate that the leader takes out of its log. -/
theorem Leading.certificate {cid : CID} {blocks : List Block} {block : Block} {voters : List PID}
    (hfits : sys.f + 1 ≤ maxNumSignatures) (h : Leading sys p cid blocks block voters s)
    (hlength : voters.length = sys.f + 1) :
    ∃ signers : List PID, signers.Perm voters ∧
      SignedBy (s.log.getTEEPrepareComb blocks.length (sys.config p).tqsize) signers := by
  let votes := s.log.teePreparesComb.get blocks.length
  let signers := votes.map fun m => m.vote.signer
  have hone : ∀ m ∈ votes, m.signs.size = 1 := by
    intro m hm
    obtain ⟨q, -, rfl⟩ := h.exists_vote hm
    rfl
  have hperm : signers.Perm voters := h.signers_perm
  have hsigns : votes.map MsgVoteComb.vote = signers.map idealSign := by
    rw [List.map_map]
    refine List.map_congr_left fun m hm => ?_
    obtain ⟨q, -, rfl⟩ := h.exists_vote hm
    rfl
  have hfits' : (sys.config p).tqsize ≤ maxNumSignatures := by rwa [sys.tqsize_config]
  obtain ⟨hentries, hsize⟩ := VoteLog.entries_getSigns hfits' hone
  have hlength' : signers.length = (sys.config p).tqsize := by
    rw [hperm.length_eq, hlength, sys.tqsize_config]
  have htake : (votes.map MsgVoteComb.vote).take (sys.config p).tqsize = signers.map idealSign := by
    rw [hsigns, List.take_of_length_le]
    rw [List.length_map, hlength']
  refine ⟨signers, hperm, hentries.trans htake, ?_⟩
  show (s.log.teePreparesComb.getSigns blocks.length (sys.config p).tqsize).size = _
  rw [← Signs.length_entries (hsize.trans hfits'), hentries, htake, List.length_map]

/-- **The leader decides** when it has the votes of a quorum: it sends the certificate and executes. -/
theorem Leading.decide {cid : CID} {blocks : List Block} {block : Block} {voters : List PID}
    (hall : sys.AllTEE) (hfits : sys.f + 1 ≤ maxNumSignatures) (h : Leading sys p cid blocks block voters s)
    (hp : p = sys.leader blocks.length) (hlength : voters.length = sys.f + 1) (hnodup : voters.Nodup)
    (hseen : ∀ q ∈ voters, q < sys.n ∧ Seen st p s q (.rdata (sys.voteData blocks.length block)))
    (hlt : blocks.length + 1 < 2 ^ 32) (hmax : sys.maxViews = 0 ∨ blocks.length + 1 < sys.maxViews) (fuel : ℕ) :
    ∃ s' signs signers, (do
        setPhase .newview
        decideComb (sys.config p) (sys.oracle st p) (executeComb (sys.config p) (sys.oracle st p) (fuel + 3))
          (sys.voteData blocks.length block) .tee : HandlerM Unit) s = .ok () s' ∧
      Begun sys p cid (blocks ++ [block]) s' ∧ Grows s s' ∧ signers.Perm voters ∧ SignedBy signs signers ∧
      (.prepare ⟨sys.voteData blocks.length block, signs⟩, removeFromPeersPure (sys.config p) p) ∈ s'.out ∧
      s'.transactions = s.transactions := by
  obtain ⟨signers, hperm, hsigned⟩ := h.certificate hfits hlength
  let signs := s.log.getTEEPrepareComb blocks.length (sys.config p).tqsize
  let s₁ : State := { s with phase := .newview }
  have hlength' : signers.length = sys.f + 1 := hperm.length_eq.trans hlength
  have hquorum : Quorum sys st p s signs (.rdata (sys.voteData blocks.length block)) signers :=
    ⟨hsigned.1, hsigned.2, hlength' ▸ Nat.succ_pos _, hlength' ▸ hfits, hperm.nodup_iff.mpr hnodup,
      fun q hq => hseen q (hperm.mem_iff.mp hq)⟩
  have hprepare : (sys.voteData blocks.length block).phase = Phase1.prepare.byte := rfl
  have hverify := hquorum.verifyCombQC hall hlength' hprepare
  have hleader : getCurrentLeader (sys.config p) s₁ = .ok p s₁ := by
    rw [hp, ← h.view]
    exact getCurrentLeader_run (s := s₁) h.skipped
  let s₂ : State := { s₁ with
    out := s.out ++ [(.prepare ⟨sys.voteData blocks.length block, signs⟩, removeFromPeersPure (sys.config p) p)] }
  have hvoted : Voted sys cid blocks block s₂ := by
    refine ⟨⟨h.executed, h.views, h.commits, h.clients, h.answered, h.skipped, h.running, h.view⟩, h.tee,
      h.stored, h.unexecuted, fun w hw => ?_, h.later, h.signed⟩
    exact (h.fresh w hw).of_eq rfl rfl rfl rfl
  obtain ⟨s', hrun, hbegun, hgrows, htrans⟩ := hvoted.execute (p := p) st hall (hp ▸ hall.leader_lt _) rfl hlt
    hmax fuel
  refine ⟨s', signs, signers, ?_, hbegun, ⟨hgrows.signed, fun m hm => ?_⟩, hperm, hsigned, ?_, htrans⟩
  · have hphase : setPhase .newview s = .ok () s₁ := rfl
    have hsend : sendMsg (.prepare ⟨sys.voteData blocks.length block, signs⟩)
      (removeFromPeersPure (sys.config p) (sys.config p).myid) s₁ = .ok () s₂ := rfl
    rw [bind_of_ok hphase]
    unfold decideComb
    rw [bind_of_ok hleader]
    show (if (sys.config p).isTEE p = true then _ else _ : HandlerM Unit) s₁ = _
    rw [if_pos (hall.isTEE p (hp ▸ hall.leader_lt _))]
    show (if verifyCombQC (sys.config p) ((sys.oracle st p).crypto s.calls) (sys.voteData blocks.length block) signs
      .prepare = true then _ else _ : HandlerM Unit) s₁ = _
    rw [if_pos hverify]
    refine (bind_of_ok hsend).trans ?_
    exact hrun
  · exact hgrows.out (List.mem_append_left _ hm)
  · exact hgrows.out (List.mem_append_right _ (List.mem_singleton_self _))

/-- **A backup executes** when it gets the certificate. -/
theorem Voted.decided {cid : CID} {blocks : List Block} {block : Block} {signs : Signs} {signers : List PID}
    (hall : sys.AllTEE) (hlt' : p < sys.n) (h : Voted sys cid blocks block s) (hp : p ≠ sys.leader blocks.length)
    (hphase : s.phase = .newview)
    (hquorum : Quorum sys st p s signs (.rdata (sys.voteData blocks.length block)) signers)
    (hlength : signers.length = sys.f + 1) (hlt : blocks.length + 1 < 2 ^ 32)
    (hmax : sys.maxViews = 0 ∨ blocks.length + 1 < sys.maxViews) (fuel : ℕ) :
    ∃ s', handlePrepareComb (sys.config p) (sys.oracle st p) (fuel + 3)
        ⟨sys.voteData blocks.length block, signs⟩ s = .ok () s' ∧
      Begun sys p cid (blocks ++ [block]) s' ∧ Grows s s' ∧ s'.transactions = s.transactions := by
  have hprepare : (sys.voteData blocks.length block).phase = Phase1.prepare.byte := rfl
  have hverify := hquorum.verifyCombQC hall hlength hprepare
  have hlead : amLeaderOf (sys.config p) blocks.length s = .ok false s := by
    rw [← decide_eq_false hp]
    exact amLeaderOf_run h.skipped _
  have hleader : getCurrentLeader (sys.config p) s = .ok (sys.leader blocks.length) s := by
    rw [← h.view]
    exact getCurrentLeader_run h.skipped
  obtain ⟨s', hrun, hbegun, hgrows, htrans⟩ := h.execute st hall hlt' hphase hlt hmax fuel
  refine ⟨s', ?_, hbegun, hgrows, htrans⟩
  unfold handlePrepareComb handleVote
  show (if blocks.length = s.view then _ else _ : HandlerM Unit) s = _
  rw [if_pos h.view.symm]
  refine (bind_of_ok hlead).trans ?_
  rw [if_neg Bool.false_ne_true]
  show (if verifyCombQC (sys.config p) ((sys.oracle st p).crypto s.calls) (sys.voteData blocks.length block) signs
      .prepare = true then _ else _ : HandlerM Unit) s = _
  rw [if_pos hverify]
  unfold respondToPrepareComb
  rw [bind_of_ok hleader]
  show (if verifyCombQC (sys.config p) ((sys.oracle st p).crypto s.calls) (sys.voteData blocks.length block) signs
      .prepare = true then _ else _ : HandlerM Unit) s = _
  rw [if_pos hverify, if_pos (hall.isTEE p (hall.leader_lt _))]
  exact hrun

/-! ### Clients -/

/-- **A replica starts** when its client has sent the start message. -/
theorem handleStart_run (st : SystemState) (hall : sys.AllTEE) (hp : p < sys.n) (cid : CID) :
    ∃ s', handleStart (sys.config p) (sys.oracle st p) cid .init = .ok () s' ∧ Begun sys p cid [] s' ∧
      s'.transactions = [] := by
  let s₁ : State := { State.init with clients := AList.insert cid true ∅, started := true }
  let s₂ := s₁.spoke p .sign (newViewIn 0)
  have hsigned : .rdata (newViewIn 0) ∈ s₂.signed := by
    rw [State.signed_spoke]
    exact List.mem_append_right _ (List.mem_singleton_self _)
  have hsign : callTEEsignComb (sys.config p) (sys.oracle st p) s₁ =
      .ok ⟨true, newViewIn 0, Signs.one (idealSign p)⟩ s₂ := rfl
  have hlead : ∀ v, getLeaderOf (sys.config p) v s₁ = .ok (sys.leader v) s₁ := getLeaderOf_run (s := s₁) rfl
  have ham : amCurrentLeader (sys.config p) s₂ = .ok (decide (p = sys.leader 0)) s₂ :=
    amCurrentLeader_run (s := s₂) rfl
  have hentered : ∀ out, Entered cid [] { s₂ with out := out } := fun out =>
    ⟨⟨rfl, rfl, rfl, rfl, rfl, rfl, rfl, rfl⟩, rfl, rfl,
      fun w _ => ⟨ViewLog.get_empty w, ViewLog.get_empty w, ViewLog.get_empty w, ViewLog.get_empty w, rfl,
        List.not_mem_nil, List.not_mem_nil⟩,
      fun w _ => ViewLog.get_empty w, hsigned⟩
  have hnone : s₂.log.teeNewviewsComb.get 0 = [] := ViewLog.get_empty 0
  have hread : (get : HandlerM State) s₁ = .ok s₁ s₁ := rfl
  have hset : (decide ((Signs.one (idealSign p)).size = 1)) = true := rfl
  have hrun : handleStart (sys.config p) (sys.oracle st p) cid .init =
      (if decide (p = sys.leader 0) = true then
          handleNewviewComb (sys.config p) (sys.oracle st p) (newviewOf 0 p)
        else sendMsg (.newview (newviewOf 0 p)) (keepFromPeers (sys.config p) (sys.leader 0)) :
        HandlerM Unit) s₂ := by
    show getStarted (sys.config p) (sys.oracle st p) s₁ = _
    unfold getStarted
    rw [bind_of_ok (show getCurrentLeader (sys.config p) s₁ = .ok (sys.leader 0) s₁ from hlead 0), bind_of_ok hread,
      bind_of_ok (hlead _), bind_of_ok hsign]
    dsimp only
    rw [hset, Bool.and_self, if_pos rfl, bind_of_ok ham]
    rfl
  by_cases hleader : p = sys.leader 0
  · have hseen : Seen st p s₂ p (.rdata (newViewIn 0)) := .self hsigned
    have hnewview := handleNewviewComb_run (v := 0) (s := s₂) (q := p) hall le_rfl rfl hleader hp hseen
      (.of_eq hnone) List.not_mem_nil (ViewLog.get_empty 0)
    have hfew : ¬ (s₂.phase = .newview ∧ sys.f ≤ ([] : List PID).length) := fun hle =>
      absurd (Nat.lt_of_lt_of_le Nat.zero_lt_one sys.f_pos) (Nat.not_lt.mpr hle.2)
    rw [if_neg hfew] at hnewview
    rw [decide_eq_true hleader, if_pos rfl] at hrun
    have hbegun : Begun sys p cid [] (s₂.withLog (s₂.log.storeTEENvComb (newviewOf 0 p)).2) := by
      refine ⟨(hentered []).store p, ?_, fun hne => absurd hleader hne⟩
      rw [List.length_nil, if_pos hleader]
      exact (Collected.of_eq hnone).store List.not_mem_nil
    exact ⟨_, hrun.trans hnewview, hbegun, rfl⟩
  · rw [decide_eq_false hleader, if_neg Bool.false_ne_true] at hrun
    refine ⟨_, hrun.trans rfl, ⟨hentered _, ?_, fun _ => ?_⟩, rfl⟩
    · rw [List.length_nil, if_neg hleader]
      exact .of_eq hnone
    · exact List.mem_append_right _ (List.mem_singleton_self _)

/-- A transaction of the client waits for a block. -/
theorem Begun.transaction {cid : CID} {blocks : List Block} (h : Begun sys p cid blocks s) {t : Transaction}
    (ht : t.clientid = cid) :
    handleTransaction t s = .ok () { s with transactions := s.transactions ++ [t] } ∧
      Begun sys p cid blocks { s with transactions := s.transactions ++ [t] } := by
  have hclient : s.clients.lookup t.clientid = some true := by
    rw [h.clients, ht, AList.lookup_insert]
  constructor
  · show EStateM.Result.ok () (if s.clients.lookup t.clientid = some true then
      { s with transactions := s.transactions ++ [t] } else s) = _
    rw [if_pos hclient]
  · exact ⟨⟨⟨h.executed, h.views, h.commits, h.clients, h.answered, h.skipped, h.running, h.view⟩, h.phase, h.tee,
      fun w hw => (h.fresh w hw).of_eq rfl rfl rfl rfl, h.later, h.signed⟩, h.own, h.sent⟩

/-- A replica that has not stopped takes an input. -/
theorem State.react_of_ok {s' : State} {fuel : ℕ} {i : Input} (hrunning : s.stopped = false)
    (hi : i.isTimeout = false) (h : handle (sys.config p) (sys.oracle st p) fuel i s = .ok () s') :
    s.react (sys.config p) (sys.oracle st p) fuel i = s' := by
  unfold react
  rw [hrunning, hi, if_neg Bool.false_ne_true, Bool.false_and, if_neg Bool.false_ne_true, h]

end Raftel.Damysus
