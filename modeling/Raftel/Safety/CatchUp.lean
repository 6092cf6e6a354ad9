import Raftel.Equiv.Waiting
import Raftel.Safety.InStep
import Raftel.Safety.LeaderQuorum

/-!
# Messages that come before their view

The leader's proposal and certificates for the next view may come before a backup enters it.  The backup
keeps them in four containers, and `startNewViewComb` replays them once it has sent its new-view.  Two
copies of the backup are compared, one that has received the first messages early and one that has not:
until the replay they differ in what waits (`SameBut`), and a replayed message is answered like one that
is received (`Stage.replay`).  But nothing is replayed when the last signature is no new-view data, which
happens when the component was ahead of its replica.

* `catchesUp_iff` : catching up equals live processing exactly when the component was not ahead
* `not_catchesUp_early_proposals` : after early proposals of the first view it was, and the leader's
  messages are forgotten
-/

namespace Raftel

open Lib

variable {Key : Type}

/-! ### What is to hold -/

/-- What the leader of a view sends to a backup. -/
structure LeaderMessages where
  proposal : MsgLdrPrepareComb
  prepare : MsgPrepareComb
  precommit : MsgPreCommitComb
  commit : MsgCommitComb

/-- In order; the `prepare` certificate of a TEE leader is the last message. -/
def LeaderMessages.sent (msgs : LeaderMessages) (tee : Bool) : List Msg :=
  .ldrprepare msgs.proposal :: .prepare msgs.prepare ::
    if tee then [] else [.precommit msgs.precommit, .commit msgs.commit]

section Defs

variable (cfg : HandlerConfig Key) (o : Oracle Key)

/-- A certificate of view `v` for the block, which verifies whenever it is checked. -/
structure CertifiedFor (phase : Phase1) (block : Block) (v : View) (msg : MsgVoteComb) : Prop where
  view : msg.data.propv = v
  hash : eqHashes (block.hash o.sha256) msg.data.proph = true
  verified : ∀ calls, verifyCombQC cfg (o.crypto calls) msg.data msg.signs phase = true

/-- The messages are those of a correct leader `p` of view `v` : a proposal that passes the checks of
`handleLdrPrepareComb`, and certificates for the proposed block. -/
structure LeaderMessages.FromLeader (msgs : LeaderMessages) (p : PID) (v : View) : Prop where
  view : msgs.proposal.acc.view = v
  set : msgs.proposal.acc.set = true ∧ msgs.proposal.sign.set = true
  signers : msgs.proposal.sign.signer = p ∧ msgs.proposal.acc.sign.signer = p
  accSigned : ∀ calls, (Signs.one msgs.proposal.acc.sign).verify (o.verify calls) cfg.nodes
    (.accum msgs.proposal.acc.toAccumData) = true
  signed : ∀ calls, (Signs.one msgs.proposal.sign).verify (o.verify calls) cfg.nodes
    (.rdata ⟨msgs.proposal.block.hash o.sha256, v, msgs.proposal.acc.hash, msgs.proposal.acc.prepv,
      Phase1.prepare.byte⟩) = true
  size : msgs.proposal.acc.size = cfg.qsize ∨ msgs.proposal.acc.size = cfg.tqsize
  parent : msgs.proposal.block.extends msgs.proposal.acc.hash = true
  prepare : CertifiedFor cfg o .prepare msgs.proposal.block v msgs.prepare
  precommit : cfg.isTEE p = false → CertifiedFor cfg o .precommit msgs.proposal.block v msgs.precommit
  commit : cfg.isTEE p = false → CertifiedFor cfg o .commit msgs.proposal.block v msgs.commit

/-- A running backup that knows the leader `p` of the next view, for which no message waits. -/
structure HandlerState.Awaiting (s : HandlerState) (p : PID) : Prop where
  running : s.stopped = false
  bound : s.tc.view < 2 ^ 32
  leader : (cfg.leaderOf s.skippedLeaders (s.view + 1)).1 = p
  peer : p ∈ cfg.peers
  proposals : s.log.ldrpreparesComb.get (s.view + 1) = []
  prepares : s.futurePrepareQCs.get (s.view + 1) = []
  precommits : s.futurePreCommitQCs.get (s.view + 1) = []
  commits : s.futureCommitQCs.get (s.view + 1) = []

/-- A handler runs, or a function that a handler calls. -/
def HandlerState.ran (s : HandlerState) (m : HandlerM Unit) : HandlerState :=
  match m s with
  | .ok _ s' => s'
  | .error e s' => if e.ends false then { s' with stopped := true } else s'

/-- `startNewViewComb` -/
def HandlerState.startNewView (s : HandlerState) (fuel : ℕ) : HandlerState :=
  s.ran (startNewViewComb cfg o (executeComb cfg o fuel) fuel)

/-- The messages arrive in order. -/
def HandlerState.deliver (s : HandlerState) (fuel : ℕ) (msgs : List Msg) : HandlerState :=
  msgs.foldl (fun s msg => s.react cfg o fuel (.peer msg)) s

/-- The first `n` messages arrive before the next view is started, the others after it. -/
def HandlerState.deliverAround (s : HandlerState) (fuel : ℕ) (msgs : List Msg) (n : ℕ) : HandlerState :=
  (((s.deliver cfg o fuel (msgs.take n)).startNewView cfg o fuel).deliver cfg o fuel (msgs.drop n))

end Defs

def Msg.isVote : Msg → Bool
  | prepare _ => true
  | precommit _ => true
  | commit _ => true
  | _ => false

/-- The votes that were sent to a replica. -/
def HandlerState.votesTo (s : HandlerState) (p : PID) : List Msg :=
  (s.out.filter fun e => e.1.isVote && p ∈ e.2).map Prod.fst

/-- The same trusted state, the same executions and the same votes to `p`. -/
structure SameOutcome (p : PID) (s s' : HandlerState) : Prop where
  trusted : s.tc = s'.tc
  executed : s.executed = s'.executed
  votes : s.votesTo p = s'.votesTo p

/-- **Catch-up equals live processing**, for the messages of leader `p` : however many of them arrive
before the view is started, the outcome is that of receiving all of them after it. -/
def CatchesUp (cfg : HandlerConfig Key) (o : Oracle Key) (fuel : ℕ) (s : HandlerState) (p : PID)
    (msgs : LeaderMessages) : Prop :=
  ∀ n, SameOutcome p (s.deliverAround cfg o fuel (msgs.sent (cfg.isTEE p)) n)
    ((s.startNewView cfg o fuel).deliver cfg o fuel (msgs.sent (cfg.isTEE p)))

/-- The component has signed nothing for the next view. -/
def HandlerState.NotAhead (s : HandlerState) : Prop :=
  s.tc.view ≤ s.view ∨ (s.tc.view = s.view + 1 ∧ s.tc.phase = .newview)

section Backup

variable {cfg : HandlerConfig Key} {o : Oracle Key} {fuel : ℕ} {p : PID} {v k : View}

/-! ### Messages of the current view -/

/-- The rest of a handler after the checks, at a backup. -/
def respondTo (cfg : HandlerConfig Key) (o : Oracle Key) (fuel : ℕ) : Msg → HandlerM Unit
  | .newview _ => pure ()
  | .ldrprepare msg => respondToLdrPrepareComb cfg o msg.block msg.acc msg.proof
  | .prepare msg => respondToPrepareComb cfg o (executeComb cfg o fuel) msg
  | .precommit msg => respondToPreCommitComb cfg o msg
  | .commit msg => respondToCommitComb cfg o (executeComb cfg o fuel) msg

theorem blind_respondTo (fuel : ℕ) (msg : Msg) : Blind cfg v v (respondTo cfg o fuel msg) := by
  cases msg with
  | newview msg => exact .ret fun _ _ h => h
  | ldrprepare msg => exact blind_respondToLdrPrepareComb _ _ _
  | prepare msg => exact blind_respondToPrepareComb (blind_executeComb fuel) msg
  | precommit msg => exact blind_respondToPreCommitComb msg
  | commit msg => exact blind_respondToCommitComb (blind_executeComb fuel) msg

/-- The backup is in view `v` and follows `p`. -/
structure HandlerState.Follows (cfg : HandlerConfig Key) (p : PID) (v : View) (t : HandlerState) : Prop where
  running : t.stopped = false
  view : t.view = v
  leader : (cfg.leaderOf t.skippedLeaders v).1 = p
  backup : cfg.myid ≠ p

theorem getLeaderOf_eq (t : HandlerState) (w : View) :
    getLeaderOf cfg w t = .ok (cfg.leaderOf t.skippedLeaders w).1 (t.lookedUp cfg w) := rfl

theorem getCurrentLeader_eq (t : HandlerState) :
    getCurrentLeader cfg t = .ok (cfg.leaderOf t.skippedLeaders t.view).1 (t.lookedUp cfg t.view) := rfl

theorem amLeaderOf_eq (t : HandlerState) (w : View) :
    amLeaderOf cfg w t = .ok (cfg.myid = (cfg.leaderOf t.skippedLeaders w).1) (t.lookedUp cfg w) := rfl

theorem HandlerState.lookedUp_lookedUp (t : HandlerState) (u w : View) :
    (t.lookedUp cfg u).lookedUp cfg w = t.lookedUp cfg w := by
  unfold HandlerState.lookedUp
  dsimp only
  rw [cfg.leaderOf_lookedUp]

/-- The proposal passes the check of the signatures. -/
theorem verifyLdrPrepareComb_of_fromLeader {msgs : LeaderMessages} (hmsgs : msgs.FromLeader cfg o p v)
    {t : HandlerState} (hleader : (cfg.leaderOf t.skippedLeaders v).1 = p) :
    verifyLdrPrepareComb cfg o msgs.proposal t = .ok true (t.lookedUp cfg v) := by
  unfold verifyLdrPrepareComb
  rw [hmsgs.view, bind_of_ok (getLeaderOf_eq t v), hleader]
  have hcheck : (msgs.proposal.acc.set && msgs.proposal.sign.set && msgs.proposal.sign.signer = p
      && msgs.proposal.acc.sign.signer = p
      && (Signs.one msgs.proposal.acc.sign).verify (o.verify (t.lookedUp cfg v).calls) cfg.nodes
        (.accum msgs.proposal.acc.toAccumData)
      && (Signs.one msgs.proposal.sign).verify (o.verify (t.lookedUp cfg v).calls) cfg.nodes
        (.rdata ⟨msgs.proposal.block.hash o.sha256, v, msgs.proposal.acc.hash, msgs.proposal.acc.prepv,
          Phase1.prepare.byte⟩)) = true := by
    simp [hmsgs.set, hmsgs.signers, hmsgs.accSigned, hmsgs.signed]
  exact congrArg (EStateM.Result.ok · (t.lookedUp cfg v)) hcheck

theorem handle_proposal {msgs : LeaderMessages} {t : HandlerState} (ht : t.Follows cfg p v)
    (hmsgs : msgs.FromLeader cfg o p v) :
    handle cfg o fuel (.peer (.ldrprepare msgs.proposal)) t =
      respondTo cfg o fuel (.ldrprepare msgs.proposal) (t.lookedUp cfg v) := by
  show handleLdrPrepareComb cfg o msgs.proposal t = _
  unfold handleLdrPrepareComb
  -- the leader is looked up for the signatures and once more for `amLeaderOf`
  rw [bind_of_ok (verifyLdrPrepareComb_of_fromLeader hmsgs ht.leader), hmsgs.view]
  show (if v ≥ t.view then _ else _ : HandlerM Unit) (t.lookedUp cfg v) = _
  rw [if_pos ht.view.le, bind_of_ok (amLeaderOf_eq _ _), t.lookedUp_lookedUp]
  show (if (!decide (cfg.myid = (cfg.leaderOf (cfg.leaderOf t.skippedLeaders v).2 v).1) && true && _
    && _) = true then _ else _ : HandlerM Unit) (t.lookedUp cfg v) = _
  rw [cfg.leaderOf_lookedUp, ht.leader, hmsgs.parent]
  rw [if_pos (by simpa [ht.backup] using hmsgs.size)]
  show (if v = t.view then _ else _ : HandlerM Unit) (t.lookedUp cfg v) = _
  rw [if_pos ht.view.symm]
  rfl

theorem handle_prepare {msg : MsgVoteComb} {block : Block} {t : HandlerState} (ht : t.Follows cfg p v)
    (hmsg : CertifiedFor cfg o .prepare block v msg) :
    handle cfg o fuel (.peer (.prepare msg)) t = respondTo cfg o fuel (.prepare msg) (t.lookedUp cfg v) := by
  show handlePrepareComb cfg o fuel msg t = _
  unfold handlePrepareComb
  show (if msg.data.propv = t.view then _ else _ : HandlerM Unit) t = _
  rw [if_pos (hmsg.view.trans ht.view.symm), hmsg.view, bind_of_ok (amLeaderOf_eq t v), ht.leader,
    if_neg (by simpa using ht.backup), if_pos (hmsg.verified _)]
  rfl

theorem handle_precommit {msg : MsgVoteComb} {block : Block} {t : HandlerState} (ht : t.Follows cfg p v)
    (hmsg : CertifiedFor cfg o .precommit block v msg) :
    handle cfg o fuel (.peer (.precommit msg)) t = respondTo cfg o fuel (.precommit msg) (t.lookedUp cfg v) := by
  show handlePreCommitComb cfg o msg t = _
  unfold handlePreCommitComb
  show (if msg.data.propv = t.view then _ else _ : HandlerM Unit) t = _
  rw [if_pos (hmsg.view.trans ht.view.symm), hmsg.view, bind_of_ok (amLeaderOf_eq t v), ht.leader,
    if_neg (by simpa using ht.backup), if_pos (hmsg.verified _)]
  rfl

theorem handle_commit {msg : MsgVoteComb} {block : Block} {t : HandlerState} (ht : t.Follows cfg p v)
    (hmsg : CertifiedFor cfg o .commit block v msg) :
    handle cfg o fuel (.peer (.commit msg)) t = respondTo cfg o fuel (.commit msg) (t.lookedUp cfg v) := by
  show handleCommitComb cfg o fuel msg t = _
  unfold handleCommitComb
  show (if msg.data.propv = t.view then _ else _ : HandlerM Unit) t = _
  rw [if_pos (hmsg.view.trans ht.view.symm), hmsg.view, bind_of_ok (amLeaderOf_eq t v), ht.leader,
    if_neg (by simpa using ht.backup), if_pos (hmsg.verified _)]
  rfl

/-- A message of the leader of view `v`, with a certificate for the block. -/
inductive Expected (cfg : HandlerConfig Key) (o : Oracle Key) (p : PID) (v : View) (block : Block) : Msg → Prop
  | proposal {msgs : LeaderMessages} (h : msgs.FromLeader cfg o p v) :
      Expected cfg o p v block (.ldrprepare msgs.proposal)
  | prepare {msg : MsgPrepareComb} (h : CertifiedFor cfg o .prepare block v msg) :
      Expected cfg o p v block (.prepare msg)
  | precommit {msg : MsgPreCommitComb} (h : CertifiedFor cfg o .precommit block v msg) :
      Expected cfg o p v block (.precommit msg)
  | commit {msg : MsgCommitComb} (h : CertifiedFor cfg o .commit block v msg) :
      Expected cfg o p v block (.commit msg)

variable {block : Block} {msg : Msg} {t t' : HandlerState}

theorem HandlerState.Follows.lookedUp (ht : t.Follows cfg p v) (w : View) :
    (t.lookedUp cfg w).Follows cfg p v := by
  refine ⟨ht.running, ht.view, ?_, ht.backup⟩
  rw [← ht.leader]
  exact congrArg Prod.fst (cfg.leaderOf_lookedUp _ w v)

theorem react_eq_ran (ht : t.stopped = false) (msg : Msg) :
    t.react cfg o fuel (.peer msg) = t.ran (handle cfg o fuel (.peer msg)) := by
  unfold HandlerState.react HandlerState.ran
  rw [if_neg (by rw [ht]; decide)]
  rfl

/-- In its view, the backup responds. -/
theorem react_current (ht : t.Follows cfg p v) (hmsg : Expected cfg o p v block msg) :
    t.react cfg o fuel (.peer msg) = (t.lookedUp cfg v).ran (respondTo cfg o fuel msg) := by
  have hhandle : handle cfg o fuel (.peer msg) t = respondTo cfg o fuel msg (t.lookedUp cfg v) := by
    cases hmsg with
    | proposal h => exact handle_proposal ht h
    | prepare h => exact handle_prepare ht h
    | precommit h => exact handle_precommit ht h
    | commit h => exact handle_commit ht h
  rw [react_eq_ran ht.running]
  unfold HandlerState.ran
  rw [hhandle]

/-! ### Responses that stay in the view -/

/-- What waits, the view and the leaders stay the same. -/
structure HandlerState.Stays (cfg : HandlerConfig Key) (t u : HandlerState) : Prop where
  view : u.view = t.view
  stopped : u.stopped = t.stopped
  log : u.log = t.log
  prepares : u.futurePrepareQCs = t.futurePrepareQCs
  precommits : u.futurePreCommitQCs = t.futurePreCommitQCs
  commits : u.futureCommitQCs = t.futureCommitQCs
  leaders : ∀ w, cfg.leaderOf u.skippedLeaders w = cfg.leaderOf t.skippedLeaders w

/-- After the message the view goes on: all but the last one of the leader. -/
def Msg.Continues (cfg : HandlerConfig Key) (p : PID) : Msg → Prop
  | newview _ => False
  | ldrprepare _ => True
  | prepare _ => cfg.isTEE p = false
  | precommit _ => True
  | commit _ => False

/-- A certificate is stored, and the vote is sent to the leader. -/
theorem sendVote_stays (cfg : HandlerConfig Key) (f : Just → Msg) (j : Just) (t u : HandlerState)
    (hu : t.Stays cfg u) :
    ∃ u', (if j.set then do
        let leader ← getCurrentLeader cfg
        sendMsg (f j) (cfg.keepFromPeers leader)
      else pure () : HandlerM Unit) u = .ok () u' ∧ t.Stays cfg u' := by
  obtain ⟨view, stopped, log, prep, pc, com, leaders⟩ := hu
  split
  · refine ⟨_, rfl, view, stopped, log, prep, pc, com, fun w => ?_⟩
    exact (cfg.leaderOf_lookedUp _ _ w).trans (leaders w)
  · exact ⟨u, rfl, view, stopped, log, prep, pc, com, leaders⟩

theorem respondTo_stays (fuel : ℕ) (ht : t.Follows cfg p v) (hmsg : Expected cfg o p v block msg)
    (hmore : msg.Continues cfg p) :
    ∃ u, respondTo cfg o fuel msg t = .ok () u ∧ t.Stays cfg u := by
  have hcalled : ∀ c, t.Stays cfg (t.called cfg o c).2 :=
    fun c => ⟨rfl, rfl, rfl, rfl, rfl, rfl, fun _ => rfl⟩
  cases hmsg with
  | @proposal msgs h =>
    set c : Call := .prepare msgs.proposal.block msgs.proposal.acc (setNewViews msgs.proposal.proof) with hc
    show ∃ u, (if (t.called cfg o c).1.toJust.set = true then _ else pure () : HandlerM Unit)
      (t.called cfg o c).2 = .ok () u ∧ _
    split
    · refine ⟨_, rfl, rfl, rfl, rfl, rfl, rfl, rfl, fun w => ?_⟩
      exact cfg.leaderOf_lookedUp _ _ w
    · exact ⟨_, rfl, hcalled c⟩
  | @prepare msg h =>
    have hleader : (cfg.leaderOf t.skippedLeaders t.view).1 = p := ht.view.symm ▸ ht.leader
    show ∃ u, respondToPrepareComb cfg o (executeComb cfg o fuel) msg t = .ok () u ∧ _
    unfold respondToPrepareComb
    rw [bind_of_ok (getCurrentLeader_eq t), hleader]
    show ∃ u, (if verifyCombQC cfg (o.crypto t.calls) msg.data msg.signs .prepare = true then _ else _ :
      HandlerM Unit) (t.lookedUp cfg t.view) = .ok () u ∧ _
    -- nothing is executed, as the leader is no TEE replica
    rw [if_pos (h.verified _), if_neg (by rw [show cfg.isTEE p = false from hmore]; decide)]
    refine sendVote_stays cfg (fun j => .precommit ⟨j.rdata, j.signs⟩) _ _
      ((t.lookedUp cfg t.view).called cfg o (.store ⟨true, msg.data, msg.signs⟩)).2 ?_
    exact ⟨rfl, rfl, rfl, rfl, rfl, rfl, fun w => cfg.leaderOf_lookedUp _ _ w⟩
  | @precommit msg h =>
    exact sendVote_stays cfg (fun j => .commit ⟨j.rdata, j.signs⟩) _ _ _
      (hcalled (.store ⟨true, msg.data, msg.signs⟩))
  | commit h => exact hmore.elim

/-! ### Two backups in one view -/

/-- Both are in view `v` and follow `p`; they differ in what waits for views up to `v`. -/
structure Stage (cfg : HandlerConfig Key) (p : PID) (v : View) (t t' : HandlerState) : Prop where
  same : SameBut cfg v v t t'
  follows : t.Follows cfg p v

theorem Stage.follows' (h : Stage cfg p v t t') : t'.Follows cfg p v := by
  obtain ⟨same, running, view, leader, backup⟩ := h
  cases same with
  | mk sk prop prep pc com skipped =>
    exact ⟨running, view, (congrArg Prod.fst (skipped v)).trans leader, backup⟩

theorem SameBut.trans {s s' s'' : HandlerState} (h : SameBut cfg v k s s') (h' : SameBut cfg v k s' s'') :
    SameBut cfg v k s s'' := by
  cases h with
  | mk sk prop prep pc com skipped hprop hprep hpc hcom view bound =>
    cases h' with
    | mk sk' prop' prep' pc' com' skipped' hprop' hprep' hpc' hcom' =>
      exact .mk sk' prop' prep' pc' com' (fun w => (skipped' w).trans (skipped w))
        (fun w hw => (hprop' w hw).trans (hprop w hw)) (fun w hw => (hprep' w hw).trans (hprep w hw))
        (fun w hw => (hpc' w hw).trans (hpc w hw)) (fun w hw => (hcom' w hw).trans (hcom w hw)) view bound

/-- It does not matter whether the leader has been looked up. -/
theorem SameBut.lookupLeft {s s' : HandlerState} (h : SameBut cfg v k s s') (w : View) :
    SameBut cfg v k (s.lookedUp cfg w) s' := by
  cases h with
  | mk sk prop prep pc com skipped hprop hprep hpc hcom view bound =>
    refine .mk (s := s.lookedUp cfg w) sk prop prep pc com (fun u => ?_) hprop hprep hpc hcom view bound
    exact (skipped u).trans (cfg.leaderOf_lookedUp _ w u).symm

theorem Stage.lookupLeft (h : Stage cfg p v t t') (w : View) : Stage cfg p v (t.lookedUp cfg w) t' :=
  ⟨h.same.lookupLeft w, h.follows.lookedUp w⟩

theorem Stage.lookup (h : Stage cfg p v t t') (w : View) :
    Stage cfg p v (t.lookedUp cfg w) (t'.lookedUp cfg w) :=
  ⟨h.same.lookup w, h.follows.lookedUp w⟩

/-- Both respond alike and stay in the view. -/
theorem Stage.respond (fuel : ℕ) (h : Stage cfg p v t t') (hmsg : Expected cfg o p v block msg)
    (hmore : msg.Continues cfg p) :
    ∃ u u', respondTo cfg o fuel msg t = .ok () u ∧ respondTo cfg o fuel msg t' = .ok () u' ∧
      Stage cfg p v u u' ∧ t'.Stays cfg u' := by
  obtain ⟨u, hu, hstays⟩ := respondTo_stays fuel h.follows hmsg hmore
  obtain ⟨u', hu', hstays'⟩ := respondTo_stays fuel h.follows' hmsg hmore
  have hsame := blind_respondTo (o := o) fuel msg t t' h.same
  rw [hu, hu'] at hsame
  cases hsame with
  | ok hsame =>
    refine ⟨u, u', hu, hu', ⟨hsame, ?_⟩, hstays'⟩
    exact ⟨hstays.stopped.trans h.follows.running, hstays.view.trans h.follows.view,
      (congrArg Prod.fst (hstays.leaders v)).trans h.follows.leader, h.follows.backup⟩

theorem ran_of_ok {m : HandlerM Unit} {u : HandlerState} (h : m t = .ok () u) : t.ran m = u := by
  unfold HandlerState.ran
  rw [h]

/-- After the same result, the states are the same but for what waits. -/
theorem ran_same {m m' : HandlerM Unit} {s s' : HandlerState}
    (h : SameResult (SameBut cfg v k) (SameBut cfg v 0) (m s) (m' s')) :
    SameBut cfg v 0 (s.ran m) (s'.ran m') := by
  unfold HandlerState.ran
  generalize m s = r at h ⊢
  generalize m' s' = r' at h ⊢
  cases h with
  | ok h => exact h.mono (Nat.zero_le k)
  | @error e s s' h =>
    -- the exception ends both or neither
    dsimp only
    split
    · cases h with
      | mk sk prop prep pc com skipped hprop hprep hpc hcom view bound =>
        exact .mk sk prop prep pc com skipped hprop hprep hpc hcom view bound
    · exact h

/-- The rest of the leader's messages: the view goes on until the last one. -/
inductive Remaining (cfg : HandlerConfig Key) (o : Oracle Key) (p : PID) (v : View) (block : Block) :
    List Msg → Prop
  | nil : Remaining cfg o p v block []
  | last {msg : Msg} (h : Expected cfg o p v block msg) : Remaining cfg o p v block [msg]
  | more {msg : Msg} {msgs : List Msg} (h : Expected cfg o p v block msg) (hmore : msg.Continues cfg p)
      (hrest : Remaining cfg o p v block msgs) : Remaining cfg o p v block (msg :: msgs)

theorem Stage.react (h : Stage cfg p v t t') (hmsg : Expected cfg o p v block msg)
    (hmore : msg.Continues cfg p) :
    Stage cfg p v (t.react cfg o fuel (.peer msg)) (t'.react cfg o fuel (.peer msg)) := by
  obtain ⟨u, u', hu, hu', hstage, -⟩ := (h.lookup v).respond fuel hmsg hmore
  rw [react_current h.follows hmsg, react_current h.follows' hmsg, ran_of_ok hu, ran_of_ok hu']
  exact hstage

/-- The messages that arrive in the view have the same effect. -/
theorem Stage.deliver (h : Stage cfg p v t t') {msgs : List Msg} (hmsgs : Remaining cfg o p v block msgs) :
    SameBut cfg v 0 (t.deliver cfg o fuel msgs) (t'.deliver cfg o fuel msgs) := by
  induction hmsgs generalizing t t' with
  | nil => exact h.same.mono (Nat.zero_le v)
  | @last msg hmsg =>
    show SameBut cfg v 0 (t.react cfg o fuel (.peer msg)) (t'.react cfg o fuel (.peer msg))
    rw [react_current h.follows hmsg, react_current h.follows' hmsg]
    exact ran_same (blind_respondTo fuel msg _ _ (h.lookup v).same)
  | more hmsg hmore hrest ih => exact ih (h.react hmsg hmore)

/-! ### The replay -/

/-- `replayQCs` from the `commit` certificates on. -/
def replayCommitQCs (cfg : HandlerConfig Key) (o : Oracle Key) (exec : RData → HandlerM Unit) (v : View)
    (block : Block) : HandlerM Unit := do
  let s ← get
  match s.futureCommitQCs.get v with
  | [] => pure ()
  | qc :: _ =>
    if !eqHashes (block.hash o.sha256) qc.data.proph then pure ()
    else
      modify fun s => { s with futureCommitQCs := s.futureCommitQCs.erase v }
      respondToCommitComb cfg o exec qc

/-- `replayQCs` from the `precommit` certificates on. -/
def replayPreCommitQCs (cfg : HandlerConfig Key) (o : Oracle Key) (exec : RData → HandlerM Unit) (v : View)
    (block : Block) : HandlerM Unit := do
  let s ← get
  if s.view ≠ v then pure ()
  else
    match s.futurePreCommitQCs.get v with
    | [] => pure ()
    | qc :: _ =>
      if !eqHashes (block.hash o.sha256) qc.data.proph then pure ()
      else
        modify fun s => { s with futurePreCommitQCs := s.futurePreCommitQCs.erase v }
        respondToPreCommitComb cfg o qc
        replayCommitQCs cfg o exec v block

/-- What waits for the view `v` is taken out. -/
theorem SameBut.take {s s' : HandlerState} (h : SameBut cfg v k s s') {prep pc com : VoteLog}
    (hp : prep = s'.futurePrepareQCs ∨ prep = s'.futurePrepareQCs.erase v)
    (hq : pc = s'.futurePreCommitQCs ∨ pc = s'.futurePreCommitQCs.erase v)
    (hc : com = s'.futureCommitQCs ∨ com = s'.futureCommitQCs.erase v) :
    SameBut cfg v k s
      { s' with futurePrepareQCs := prep, futurePreCommitQCs := pc, futureCommitQCs := com } := by
  have hget : ∀ {q l : VoteLog}, q = l ∨ q = l.erase v → ∀ w, v < w → q.get w = l.get w := by
    rintro q l (rfl | rfl) w hw
    · rfl
    · rw [ViewLog.get_erase, if_neg hw.ne']
  cases h with
  | mk sk prop _ _ _ skipped hprop hprep hpc hcom view bound =>
    exact .mk sk prop prep pc com skipped hprop (fun w hw => (hget hp w hw).trans (hprep w hw))
      (fun w hw => (hget hq w hw).trans (hpc w hw)) (fun w hw => (hget hc w hw).trans (hcom w hw)) view bound

section Replay

variable {exec : RData → HandlerM Unit} {qc : MsgVoteComb}

theorem replayCommitQCs_nil (h : t.futureCommitQCs.get v = []) :
    replayCommitQCs cfg o exec v block t = .ok () t := by
  show (match t.futureCommitQCs.get v with
    | [] => pure ()
    | qc :: _ => _ : HandlerM Unit) t = _
  rw [h]
  rfl

theorem replayCommitQCs_one (h : t.futureCommitQCs.get v = [qc])
    (hhash : eqHashes (block.hash o.sha256) qc.data.proph = true) :
    replayCommitQCs cfg o exec v block t =
      respondToCommitComb cfg o exec qc { t with futureCommitQCs := t.futureCommitQCs.erase v } := by
  show (match t.futureCommitQCs.get v with
    | [] => pure ()
    | qc :: _ => _ : HandlerM Unit) t = _
  rw [h]
  show (if (!eqHashes (block.hash o.sha256) qc.data.proph) = true then _ else _ : HandlerM Unit) t = _
  rw [hhash, if_neg (by decide)]
  rfl

theorem replayPreCommitQCs_nil (h : t.futurePreCommitQCs.get v = []) :
    replayPreCommitQCs cfg o exec v block t = .ok () t := by
  show (if t.view ≠ v then _ else match t.futurePreCommitQCs.get v with
    | [] => pure ()
    | qc :: _ => _ : HandlerM Unit) t = _
  rw [h]
  split <;> rfl

theorem replayPreCommitQCs_one (hview : t.view = v) (h : t.futurePreCommitQCs.get v = [qc])
    (hhash : eqHashes (block.hash o.sha256) qc.data.proph = true) :
    replayPreCommitQCs cfg o exec v block t =
      (respondToPreCommitComb cfg o qc >>= fun _ => replayCommitQCs cfg o exec v block)
        { t with futurePreCommitQCs := t.futurePreCommitQCs.erase v } := by
  show (if t.view ≠ v then _ else match t.futurePreCommitQCs.get v with
    | [] => pure ()
    | qc :: _ => _ : HandlerM Unit) t = _
  rw [if_neg (not_not.mpr hview), h]
  show (if (!eqHashes (block.hash o.sha256) qc.data.proph) = true then _ else _ : HandlerM Unit) t = _
  rw [hhash, if_neg (by decide)]
  rfl

theorem replayQCs_nil (h : t.futurePrepareQCs.get v = []) : replayQCs cfg o exec v block t = .ok () t := by
  show (match t.futurePrepareQCs.get v with
    | [] => pure ()
    | qc :: _ => _ : HandlerM Unit) t = _
  rw [h]
  rfl

theorem replayQCs_one (h : t.futurePrepareQCs.get v = [qc])
    (hhash : eqHashes (block.hash o.sha256) qc.data.proph = true) :
    replayQCs cfg o exec v block t =
      (respondToPrepareComb cfg o exec qc >>= fun _ => replayPreCommitQCs cfg o exec v block)
        { t with futurePrepareQCs := t.futurePrepareQCs.erase v } := by
  show (match t.futurePrepareQCs.get v with
    | [] => pure ()
    | qc :: _ => _ : HandlerM Unit) t = _
  rw [h]
  show (if (!eqHashes (block.hash o.sha256) qc.data.proph) = true then _ else _ : HandlerM Unit) t = _
  rw [hhash, if_neg (by decide)]
  rfl

end Replay

/-- The `commit` certificate, replayed or received. -/
theorem Stage.commitQCs (h : Stage cfg p v t t') {qc : MsgCommitComb}
    (hqc : CertifiedFor cfg o .commit block v qc) (early : Bool)
    (hwait : t'.futureCommitQCs.get v = if early then [qc] else []) :
    SameBut cfg v 0 (t.deliver cfg o fuel [.commit qc])
      ((t'.ran (replayCommitQCs cfg o (executeComb cfg o fuel) v block)).deliver cfg o fuel
        (if early then [] else [.commit qc])) := by
  cases early with
  | false =>
    rw [ran_of_ok (replayCommitQCs_nil hwait)]
    exact h.deliver (.last (.commit hqc))
  | true =>
    -- the live handler has looked up the leader, the replay has taken out the certificate
    show SameBut cfg v 0 (t.react cfg o fuel (.peer (.commit qc))) _
    rw [react_current h.follows (.commit hqc)]
    refine ran_same (k := v) ?_
    rw [replayCommitQCs_one hwait hqc.hash]
    exact blind_respondTo fuel (.commit qc) _ _
      ((h.lookupLeft v).same.take (Or.inl rfl) (Or.inl rfl) (Or.inr rfl))

theorem ran_bind_of_ok {m m' : HandlerM Unit} {u : HandlerState} (h : m t = .ok () u) :
    t.ran (m >>= fun _ => m') = u.ran m' := by
  unfold HandlerState.ran
  rw [bind_of_ok h]

/-- The `precommit` certificate and the rest. -/
theorem Stage.preCommitQCs (h : Stage cfg p v t t') {qc₁ : MsgPreCommitComb} {qc₂ : MsgCommitComb}
    (hqc₁ : CertifiedFor cfg o .precommit block v qc₁) (hqc₂ : CertifiedFor cfg o .commit block v qc₂)
    (early₁ early₂ : Bool) (hearly : early₂ = true → early₁ = true)
    (hwait₁ : t'.futurePreCommitQCs.get v = if early₁ then [qc₁] else [])
    (hwait₂ : t'.futureCommitQCs.get v = if early₂ then [qc₂] else []) :
    SameBut cfg v 0 (t.deliver cfg o fuel [.precommit qc₁, .commit qc₂])
      ((t'.ran (replayPreCommitQCs cfg o (executeComb cfg o fuel) v block)).deliver cfg o fuel
        (if early₁ then if early₂ then [] else [.commit qc₂] else [.precommit qc₁, .commit qc₂])) := by
  cases early₁ with
  | false =>
    rw [ran_of_ok (replayPreCommitQCs_nil hwait₁)]
    exact h.deliver (.more (.precommit hqc₁) trivial (.last (.commit hqc₂)))
  | true =>
    have hstage : Stage cfg p v (t.lookedUp cfg v)
        { t' with futurePreCommitQCs := t'.futurePreCommitQCs.erase v } :=
      ⟨(h.lookupLeft v).same.take (Or.inl rfl) (Or.inr rfl) (Or.inl rfl), h.follows.lookedUp v⟩
    obtain ⟨u, u', hu, hu', hnext, hstays⟩ := hstage.respond fuel (.precommit hqc₁) trivial
    have hlive : t.react cfg o fuel (.peer (.precommit qc₁)) = u := by
      rw [react_current h.follows (.precommit hqc₁), ran_of_ok hu]
    have hreplay : t'.ran (replayPreCommitQCs cfg o (executeComb cfg o fuel) v block) =
        u'.ran (replayCommitQCs cfg o (executeComb cfg o fuel) v block) := by
      rw [← ran_bind_of_ok hu']
      unfold HandlerState.ran
      rw [replayPreCommitQCs_one h.follows'.view hwait₁ hqc₁.hash]
      rfl
    show SameBut cfg v 0 ((t.react cfg o fuel (.peer (.precommit qc₁))).deliver cfg o fuel [.commit qc₂]) _
    rw [hlive, hreplay]
    exact hnext.commitQCs hqc₂ early₂ (by rw [hstays.commits]; exact hwait₂)

/-- The certificates, when the leader is not a TEE replica. -/
theorem Stage.normalQCs (h : Stage cfg p v t t') (htee : cfg.isTEE p = false) {qc₀ : MsgPrepareComb}
    {qc₁ : MsgPreCommitComb} {qc₂ : MsgCommitComb} (hqc₀ : CertifiedFor cfg o .prepare block v qc₀)
    (hqc₁ : CertifiedFor cfg o .precommit block v qc₁) (hqc₂ : CertifiedFor cfg o .commit block v qc₂)
    (early₀ early₁ early₂ : Bool) (hearly : early₂ = true → early₁ = true)
    (hwait₀ : t'.futurePrepareQCs.get v = if early₀ then [qc₀] else [])
    (hwait₁ : t'.futurePreCommitQCs.get v = if early₁ then [qc₁] else [])
    (hwait₂ : t'.futureCommitQCs.get v = if early₂ then [qc₂] else []) :
    SameBut cfg v 0 (t.deliver cfg o fuel [.prepare qc₀, .precommit qc₁, .commit qc₂])
      ((t'.ran (replayQCs cfg o (executeComb cfg o fuel) v block)).deliver cfg o fuel
        (if early₀ then
          if early₁ then if early₂ then [] else [.commit qc₂] else [.precommit qc₁, .commit qc₂]
          else [.prepare qc₀, .precommit qc₁, .commit qc₂])) := by
  cases early₀ with
  | false =>
    rw [ran_of_ok (replayQCs_nil hwait₀)]
    exact h.deliver (.more (.prepare hqc₀) htee (.more (.precommit hqc₁) trivial (.last (.commit hqc₂))))
  | true =>
    have hstage : Stage cfg p v (t.lookedUp cfg v)
        { t' with futurePrepareQCs := t'.futurePrepareQCs.erase v } :=
      ⟨(h.lookupLeft v).same.take (Or.inr rfl) (Or.inl rfl) (Or.inl rfl), h.follows.lookedUp v⟩
    obtain ⟨u, u', hu, hu', hnext, hstays⟩ := hstage.respond fuel (.prepare hqc₀) htee
    have hlive : t.react cfg o fuel (.peer (.prepare qc₀)) = u := by
      rw [react_current h.follows (.prepare hqc₀), ran_of_ok hu]
    have hreplay : t'.ran (replayQCs cfg o (executeComb cfg o fuel) v block) =
        u'.ran (replayPreCommitQCs cfg o (executeComb cfg o fuel) v block) := by
      rw [← ran_bind_of_ok hu']
      unfold HandlerState.ran
      rw [replayQCs_one hwait₀ hqc₀.hash]
      rfl
    show SameBut cfg v 0 ((t.react cfg o fuel (.peer (.prepare qc₀))).deliver cfg o fuel
      [.precommit qc₁, .commit qc₂]) _
    rw [hlive, hreplay]
    exact hnext.preCommitQCs hqc₁ hqc₂ early₁ early₂ hearly (by rw [hstays.precommits]; exact hwait₁)
      (by rw [hstays.commits]; exact hwait₂)

/-- While the certificate of a TEE leader is handled, no `precommit` certificate for the view comes in. -/
theorem precommits_none (ht : t.Follows cfg p v) {qc : MsgPrepareComb} (hview : qc.data.propv = v)
    (hnone : t.futurePreCommitQCs.get v = []) {u : HandlerState}
    (hu : respondToPrepareComb cfg o (executeComb cfg o fuel) qc t = .ok () u) :
    u.futurePreCommitQCs.get v = [] := by
  -- what comes in later are the messages that wait, and among them there is no such certificate
  set received : Msg → Prop := fun m => ∀ qc, m = .precommit qc → qc.data.propv ≠ v with hreceived
  have hkept : KeptBy cfg o True received (fun _ => True) fun s => ∀ m, s.Awaits m → received m :=
    ⟨fun s s' hstep hs m hm => (hstep.step.awaits hm).elim (hs m) id, Or.inl trivial, fun _ _ => trivial,
      fun s hs => hs⟩
  have hbefore : ∀ m, t.Awaits m → received m := by
    rintro m hm qc rfl hqc
    change qc ∈ t.futurePreCommitQCs.get qc.data.propv at hm
    rw [hqc, hnone] at hm
    exact List.not_mem_nil hm
  have hin : InView cfg (fun s => ∀ m, s.Awaits m → received m) qc.data.propv p t.phase t :=
    ⟨hbefore, ht.view.trans hview.symm, by rw [← ht.leader, ← ht.view]; rfl, rfl⟩
  have hrun := triple_respondToPrepareComb hkept (executes_executeComb fuel) (Or.inr trivial)
    (fun _ h => by cases h) t hin
  rw [hu] at hrun
  by_contra hsome
  obtain ⟨m, hm⟩ := List.exists_mem_of_ne_nil _ hsome
  have hmv : m.data.propv = v := u.futurePreCommitQCs.viewOf_of_mem_get hm
  refine hrun.1 (.precommit m) ?_ m rfl hmv
  change m ∈ u.futurePreCommitQCs.get m.data.propv
  rw [hmv]
  exact hm

theorem ran_bind_of_idle {m m' : HandlerM Unit} (h : ∀ u, m t = .ok () u → m' u = .ok () u) :
    t.ran (m >>= fun _ => m') = t.ran m := by
  unfold HandlerState.ran
  cases hm : m t with
  | ok a u => rw [bind_of_ok hm, h u hm]
  | error e u => rw [bind_of_error hm]

/-- The certificate of a TEE leader. -/
theorem Stage.teeQC (h : Stage cfg p v t t') {qc : MsgPrepareComb}
    (hqc : CertifiedFor cfg o .prepare block v qc) (early : Bool)
    (hwait : t'.futurePrepareQCs.get v = if early then [qc] else [])
    (hnone : t'.futurePreCommitQCs.get v = []) :
    SameBut cfg v 0 (t.deliver cfg o fuel [.prepare qc])
      ((t'.ran (replayQCs cfg o (executeComb cfg o fuel) v block)).deliver cfg o fuel
        (if early then [] else [.prepare qc])) := by
  cases early with
  | false =>
    rw [ran_of_ok (replayQCs_nil hwait)]
    exact h.deliver (.last (.prepare hqc))
  | true =>
    have hstage : Stage cfg p v (t.lookedUp cfg v)
        { t' with futurePrepareQCs := t'.futurePrepareQCs.erase v } :=
      ⟨(h.lookupLeft v).same.take (Or.inr rfl) (Or.inl rfl) (Or.inl rfl), h.follows.lookedUp v⟩
    have hidle : ∀ u, respondTo cfg o fuel (.prepare qc)
        { t' with futurePrepareQCs := t'.futurePrepareQCs.erase v } = .ok () u →
        replayPreCommitQCs cfg o (executeComb cfg o fuel) v block u = .ok () u :=
      fun u hu => replayPreCommitQCs_nil (precommits_none hstage.follows' hqc.view hnone hu)
    have hreplay : t'.ran (replayQCs cfg o (executeComb cfg o fuel) v block) =
        HandlerState.ran { t' with futurePrepareQCs := t'.futurePrepareQCs.erase v }
          (respondTo cfg o fuel (.prepare qc)) := by
      rw [← ran_bind_of_idle hidle]
      unfold HandlerState.ran
      rw [replayQCs_one hwait hqc.hash]
      rfl
    show SameBut cfg v 0 (t.react cfg o fuel (.peer (.prepare qc))) (t'.ran _)
    rw [react_current h.follows (.prepare hqc), hreplay]
    exact ran_same (blind_respondTo fuel (.prepare qc) _ _ hstage.same)

/-- The first `n` messages wait. -/
structure Waits (msgs : LeaderMessages) (v : View) (n : ℕ) (t : HandlerState) : Prop where
  proposals : t.log.ldrpreparesComb.get v = if 0 < n then [msgs.proposal] else []
  prepares : t.futurePrepareQCs.get v = if 1 < n then [msgs.prepare] else []
  precommits : t.futurePreCommitQCs.get v = if 2 < n then [msgs.precommit] else []
  commits : t.futureCommitQCs.get v = if 3 < n then [msgs.commit] else []

variable {msgs : LeaderMessages} {n : ℕ}

theorem LeaderMessages.FromLeader.remaining (h : msgs.FromLeader cfg o p v) :
    Remaining cfg o p v msgs.proposal.block (msgs.sent (cfg.isTEE p)) := by
  unfold LeaderMessages.sent
  cases htee : cfg.isTEE p with
  | true => exact .more (.proposal h) trivial (.last (.prepare h.prepare))
  | false =>
    exact .more (.proposal h) trivial (.more (.prepare h.prepare) htee
      (.more (.precommit (h.precommit htee)) trivial (.last (.commit (h.commit htee)))))

/-- The certificates, replayed as far as they wait and received otherwise. -/
theorem Stage.certificates (h : Stage cfg p v t t') (hmsgs : msgs.FromLeader cfg o p v)
    (hwait : Waits msgs v n t') (hpos : 1 ≤ n) (hle : n ≤ (msgs.sent (cfg.isTEE p)).length) :
    SameBut cfg v 0 (t.deliver cfg o fuel ((msgs.sent (cfg.isTEE p)).drop 1))
      ((t'.ran (replayQCs cfg o (executeComb cfg o fuel) v msgs.proposal.block)).deliver cfg o fuel
        ((msgs.sent (cfg.isTEE p)).drop n)) := by
  obtain ⟨-, hprep, hpc, hcom⟩ := hwait
  unfold LeaderMessages.sent at hle ⊢
  cases htee : cfg.isTEE p with
  | true =>
    -- one certificate, which waits or does not
    rw [htee] at hle
    change n ≤ 2 at hle
    interval_cases n
    · exact h.teeQC hmsgs.prepare false hprep hpc
    · exact h.teeQC hmsgs.prepare true hprep hpc
  | false =>
    -- the first `n - 1` of the three certificates wait
    rw [htee] at hle
    change n ≤ 4 at hle
    have hpre := hmsgs.precommit htee
    have hlast := hmsgs.commit htee
    interval_cases n
    · exact h.normalQCs htee hmsgs.prepare hpre hlast false false false id hprep hpc hcom
    · exact h.normalQCs htee hmsgs.prepare hpre hlast true false false id hprep hpc hcom
    · exact h.normalQCs htee hmsgs.prepare hpre hlast true true false (fun _ => rfl) hprep hpc hcom
    · exact h.normalQCs htee hmsgs.prepare hpre hlast true true true id hprep hpc hcom

/-- The certificates are replayed when a block is stored. -/
def replayBlock (cfg : HandlerConfig Key) (o : Oracle Key) (exec : RData → HandlerM Unit) (v : View) :
    Option Block → HandlerM Unit
  | none => pure ()
  | some block => replayQCs cfg o exec v block

/-- `handleEarlierMessagesComb` at a backup. -/
def replay (cfg : HandlerConfig Key) (o : Oracle Key) (exec : RData → HandlerM Unit) (v : View) :
    HandlerM Unit := do
  replayProposal cfg o v
  let s ← get
  replayBlock cfg o exec v (s.blocks.lookup v)

/-- The component accepts the proposal. -/
def HandlerState.Accepts (cfg : HandlerConfig Key) (o : Oracle Key) (t : HandlerState)
    (msg : MsgLdrPrepareComb) : Prop :=
  (t.called cfg o (.prepare msg.block msg.acc (setNewViews msg.proof))).1.toJust.set = true

/-- The state after an accepted proposal: the block is stored, and the leader gets a vote. -/
def HandlerState.votedFor (cfg : HandlerConfig Key) (o : Oracle Key) (t : HandlerState)
    (m : MsgLdrPrepareComb) : HandlerState :=
  let c : Call := .prepare m.block m.acc (setNewViews m.proof)
  let just := (t.called cfg o c).1.toJust
  { (t.called cfg o c).2 with
    blocks := t.blocks.insert t.view m.block
    skippedLeaders := (cfg.leaderOf t.skippedLeaders t.view).2
    out := t.out ++ [(.prepare ⟨just.rdata, just.signs⟩,
      cfg.keepFromPeers (cfg.leaderOf t.skippedLeaders t.view).1)] }

theorem respondTo_of_accepts {m : MsgLdrPrepareComb} (haccept : t.Accepts cfg o m) :
    respondTo cfg o fuel (.ldrprepare m) t = .ok () (t.votedFor cfg o m) := by
  have hset : (t.called cfg o (.prepare m.block m.acc (setNewViews m.proof))).1.toJust.set = true := haccept
  have hcall : callTEEprepareComb cfg o m.block m.acc m.proof t =
      .ok (t.called cfg o (.prepare m.block m.acc (setNewViews m.proof))).1.toJust
        (t.called cfg o (.prepare m.block m.acc (setNewViews m.proof))).2 := rfl
  show respondToLdrPrepareComb cfg o m.block m.acc m.proof t = _
  unfold respondToLdrPrepareComb
  rw [bind_of_ok hcall, if_pos hset]
  rfl

/-- An accepted block is stored. -/
theorem lookup_of_accepts {m : MsgLdrPrepareComb} {u : HandlerState} (ht : t.Follows cfg p v)
    (haccept : t.Accepts cfg o m) (hu : respondTo cfg o fuel (.ldrprepare m) t = .ok () u) :
    u.blocks.lookup v = some m.block := by
  rw [respondTo_of_accepts haccept] at hu
  cases hu
  show (t.blocks.insert t.view m.block).lookup v = some m.block
  rw [ht.view]
  exact AList.lookup_insert _

theorem replayProposal_nil (h : t.log.ldrpreparesComb.get v = []) :
    replayProposal cfg o v t = .ok () t := by
  have hfirst : t.log.firstLdrPrepareComb v = none := congrArg List.head? h
  have hget : (get : HandlerM HandlerState) t = .ok t t := rfl
  unfold replayProposal
  rw [bind_of_ok hget, hfirst]
  rfl

theorem replayProposal_one {m : MsgLdrPrepareComb} (h : t.log.ldrpreparesComb.get v = [m])
    (hset : m.sign.set = true) :
    replayProposal cfg o v t = respondToLdrPrepareComb cfg o m.block m.acc m.proof t := by
  have hfirst : t.log.firstLdrPrepareComb v = some m := congrArg List.head? h
  have hget : (get : HandlerM HandlerState) t = .ok t t := rfl
  unfold replayProposal
  rw [bind_of_ok hget, hfirst]
  show (if m.sign.set = true then _ else pure () : HandlerM Unit) t = _
  rw [if_pos hset]

theorem replay_none (hprop : t.log.ldrpreparesComb.get v = []) (hprep : t.futurePrepareQCs.get v = [])
    (exec : RData → HandlerM Unit) : t.ran (replay cfg o exec v) = t := by
  apply ran_of_ok
  unfold replay
  rw [bind_of_ok (replayProposal_nil hprop)]
  show replayBlock cfg o exec v (t.blocks.lookup v) t = _
  cases t.blocks.lookup v with
  | none => rfl
  | some block => exact replayQCs_nil hprep

/-- **The replay.**  What waits is answered like what is received. -/
theorem Stage.replay (h : Stage cfg p v t t') (hmsgs : msgs.FromLeader cfg o p v) (hwait : Waits msgs v n t')
    (haccept : t.Accepts cfg o msgs.proposal) (hle : n ≤ (msgs.sent (cfg.isTEE p)).length) :
    SameBut cfg v 0 (t.deliver cfg o fuel (msgs.sent (cfg.isTEE p)))
      ((t'.ran (replay cfg o (executeComb cfg o fuel) v)).deliver cfg o fuel
        ((msgs.sent (cfg.isTEE p)).drop n)) := by
  rcases Nat.eq_zero_or_pos n with rfl | hpos
  · -- no certificate is replayed without a proposal
    rw [replay_none hwait.proposals hwait.prepares]
    exact h.deliver hmsgs.remaining
  have hexp : Expected cfg o p v msgs.proposal.block (.ldrprepare msgs.proposal) := .proposal hmsgs
  obtain ⟨u, u', hu, hu', hnext, hstays⟩ := (h.lookupLeft v).respond fuel hexp trivial
  have hlive : t.react cfg o fuel (.peer (.ldrprepare msgs.proposal)) = u := by
    rw [react_current h.follows hexp, ran_of_ok hu]
  have haccept' : t'.Accepts cfg o msgs.proposal := by
    unfold HandlerState.Accepts
    rw [(h.same.called _).1]
    exact haccept
  have hblock := lookup_of_accepts h.follows' haccept' hu'
  have hfirst : replayProposal cfg o v t' = .ok () u' :=
    (replayProposal_one (hwait.proposals.trans (if_pos hpos)) hmsgs.set.2).trans hu'
  have hrest : Raftel.replay cfg o (executeComb cfg o fuel) v t' =
      replayQCs cfg o (executeComb cfg o fuel) v msgs.proposal.block u' := by
    unfold Raftel.replay
    rw [bind_of_ok hfirst]
    show replayBlock cfg o (executeComb cfg o fuel) v (u'.blocks.lookup v) u' = _
    rw [hblock]
    rfl
  have hreplay : t'.ran (Raftel.replay cfg o (executeComb cfg o fuel) v) =
      u'.ran (replayQCs cfg o (executeComb cfg o fuel) v msgs.proposal.block) := by
    unfold HandlerState.ran
    rw [hrest]
  show SameBut cfg v 0 ((t.react cfg o fuel (.peer (.ldrprepare msgs.proposal))).deliver cfg o fuel
    ((msgs.sent (cfg.isTEE p)).drop 1)) _
  rw [hlive, hreplay]
  refine hnext.certificates hmsgs ?_ hpos hle
  exact ⟨by rw [hstays.log]; exact hwait.proposals, by rw [hstays.prepares]; exact hwait.prepares,
    by rw [hstays.precommits]; exact hwait.precommits, by rw [hstays.commits]; exact hwait.commits⟩

/-! ### Messages that come early -/

/-- The message is kept for its view. -/
def HandlerState.kept (cfg : HandlerConfig Key) (t : HandlerState) : Msg → HandlerState
  | .newview _ => t
  | .ldrprepare msg => { t.lookedUp cfg msg.acc.view with log := (t.log.storeLdrPrepComb msg).2 }
  | .prepare msg => { t with futurePrepareQCs := t.futurePrepareQCs.insert MsgVoteComb.lt msg }
  | .precommit msg => { t with futurePreCommitQCs := t.futurePreCommitQCs.insert MsgVoteComb.lt msg }
  | .commit msg => { t with futureCommitQCs := t.futureCommitQCs.insert MsgVoteComb.lt msg }

/-- Before its view, a message of the leader is kept. -/
theorem react_early (hrun : t.stopped = false) (hview : t.view < v)
    (hleader : (cfg.leaderOf t.skippedLeaders v).1 = p) (hme : cfg.myid ≠ p)
    (hmsg : Expected cfg o p v block msg) : t.react cfg o fuel (.peer msg) = t.kept cfg msg := by
  rw [react_eq_ran hrun]
  apply ran_of_ok
  cases hmsg with
  | @proposal msgs h =>
    show handleLdrPrepareComb cfg o msgs.proposal t = _
    unfold handleLdrPrepareComb
    rw [bind_of_ok (verifyLdrPrepareComb_of_fromLeader h hleader), h.view]
    show (if v ≥ t.view then _ else _ : HandlerM Unit) (t.lookedUp cfg v) = _
    rw [if_pos hview.le, bind_of_ok (amLeaderOf_eq _ _), t.lookedUp_lookedUp]
    show (if (!decide (cfg.myid = (cfg.leaderOf (cfg.leaderOf t.skippedLeaders v).2 v).1) && true && _
      && _) = true then _ else _ : HandlerM Unit) (t.lookedUp cfg v) = _
    rw [cfg.leaderOf_lookedUp, hleader, h.parent, if_pos (by simpa [hme] using h.size)]
    show (if v = t.view then _ else _ : HandlerM Unit) (t.lookedUp cfg v) = _
    rw [if_neg hview.ne']
    unfold HandlerState.kept
    dsimp only
    rw [h.view]
    rfl
  | @prepare msg h =>
    -- a certificate is checked before it is kept
    show handlePrepareComb cfg o fuel msg t = _
    unfold handlePrepareComb
    show (if msg.data.propv = t.view then _ else if msg.data.propv > t.view then _ else _ : HandlerM Unit) t = _
    rw [h.view, if_neg hview.ne', if_pos hview, if_pos (h.verified _)]
    rfl
  | @precommit msg h =>
    show handlePreCommitComb cfg o msg t = _
    unfold handlePreCommitComb
    show (if msg.data.propv = t.view then _ else if msg.data.propv > t.view then _ else _ : HandlerM Unit) t = _
    rw [h.view, if_neg hview.ne', if_pos hview, if_pos (h.verified _)]
    rfl
  | @commit msg h =>
    show handleCommitComb cfg o fuel msg t = _
    unfold handleCommitComb
    show (if msg.data.propv = t.view then _ else if msg.data.propv > t.view then _ else _ : HandlerM Unit) t = _
    rw [h.view, if_neg hview.ne', if_pos hview, if_pos (h.verified _)]
    rfl

theorem get_insert_of_none {log : VoteLog} {m : MsgVoteComb} (hview : m.data.propv = v) (h : log.get v = []) :
    (log.insert MsgVoteComb.lt m).get v = [m] := by
  have hget := ViewLog.get_insert MsgVoteComb.lt log m
  rw [hview, h] at hget
  exact hget

theorem get_storeLdrPrepComb_of_none {log : Log} {m : MsgLdrPrepareComb} (hview : m.acc.view = v)
    (h : log.ldrpreparesComb.get v = []) : (log.storeLdrPrepComb m).2.ldrpreparesComb.get v = [m] := by
  have hstore := ViewLog.get_store MsgLdrPrepareComb.lt msgLdrPrepareCombFrom log.ldrpreparesComb m
  rw [hview, h] at hstore
  rcases hstore with ⟨hfrom, -⟩ | ⟨-, hget⟩
  · cases hfrom
  · exact hget

/-- A message that is kept waits for its view and changes nothing else. -/
theorem SameBut.kept {s : HandlerState} (h : SameBut cfg v k s t) (hmsg : Expected cfg o p v block msg) :
    SameBut cfg v k s (t.kept cfg msg) := by
  cases h with
  | mk sk prop prep pc com skipped hprop hprep hpc hcom view bound =>
    have hinsert : ∀ {log log' : VoteLog} {m : MsgVoteComb}, m.data.propv = v →
        (∀ w, v < w → log'.get w = log.get w) →
        ∀ w, v < w → (log'.insert MsgVoteComb.lt m).get w = log.get w := by
      intro log log' m hm hlog w hw
      rw [ViewLog.get_insert_of_ne (by rw [hm]; exact hw.ne'), hlog w hw]
    cases hmsg with
    | proposal h =>
      refine .mk _ _ prep pc com (fun w => ?_) (fun w hw => ?_) hprep hpc hcom view bound
      · exact (cfg.leaderOf_lookedUp _ _ w).trans (skipped w)
      · exact (ViewLog.get_store_of_ne (by rw [h.view]; exact hw.ne')).trans (hprop w hw)
    | prepare h => exact .mk sk prop _ pc com skipped hprop (hinsert h.view hprep) hpc hcom view bound
    | precommit h => exact .mk sk prop prep _ com skipped hprop hprep (hinsert h.view hpc) hcom view bound
    | commit h => exact .mk sk prop prep pc _ skipped hprop hprep hpc (hinsert h.view hcom) view bound

theorem HandlerState.deliver_take {s : HandlerState} {l : List Msg} (hn : n < l.length) :
    s.deliver cfg o fuel (l.take (n + 1)) = (s.deliver cfg o fuel (l.take n)).react cfg o fuel (.peer l[n]) := by
  unfold HandlerState.deliver
  rw [← List.take_append_getElem hn, List.foldl_append]
  rfl

/-- One more message waits. -/
theorem Waits.succ (hmsgs : msgs.FromLeader cfg o p v) {tee : Bool} (htee : cfg.isTEE p = tee)
    (hn : n < (msgs.sent tee).length) (h : Waits msgs v n t) :
    Expected cfg o p v msgs.proposal.block (msgs.sent tee)[n] ∧
      Waits msgs v (n + 1) (t.kept cfg (msgs.sent tee)[n]) := by
  obtain ⟨hprop, hprep, hpc, hcom⟩ := h
  have hfirst : n = 0 → Waits msgs v 1 (t.kept cfg (.ldrprepare msgs.proposal)) := by
    rintro rfl
    exact ⟨get_storeLdrPrepComb_of_none hmsgs.view hprop, hprep, hpc, hcom⟩
  have hsecond : n = 1 → Waits msgs v 2 (t.kept cfg (.prepare msgs.prepare)) := by
    rintro rfl
    exact ⟨hprop, get_insert_of_none hmsgs.prepare.view hprep, hpc, hcom⟩
  cases tee with
  | true =>
    change n < 2 at hn
    interval_cases n
    · exact ⟨.proposal hmsgs, hfirst rfl⟩
    · exact ⟨.prepare hmsgs.prepare, hsecond rfl⟩
  | false =>
    change n < 4 at hn
    interval_cases n
    · exact ⟨.proposal hmsgs, hfirst rfl⟩
    · exact ⟨.prepare hmsgs.prepare, hsecond rfl⟩
    · exact ⟨.precommit (hmsgs.precommit htee),
        hprop, hprep, get_insert_of_none (hmsgs.precommit htee).view hpc, hcom⟩
    · exact ⟨.commit (hmsgs.commit htee),
        hprop, hprep, hpc, get_insert_of_none (hmsgs.commit htee).view hcom⟩

theorem ne_of_mem_peers (h : p ∈ cfg.peers) : cfg.myid ≠ p := by
  unfold HandlerConfig.peers at h
  rw [List.mem_filter, Bool.and_eq_true, decide_eq_true_eq] at h
  exact h.2.1.symm

/-- The first messages arrive before the view: they wait, and nothing else changes. -/
theorem HandlerState.Awaiting.early {s : HandlerState} (fuel : ℕ) (hs : s.Awaiting cfg p)
    (hmsgs : msgs.FromLeader cfg o p (s.view + 1)) (hle : n ≤ (msgs.sent (cfg.isTEE p)).length) :
    SameBut cfg (s.view + 1) s.view s (s.deliver cfg o fuel ((msgs.sent (cfg.isTEE p)).take n)) ∧
      Waits msgs (s.view + 1) n (s.deliver cfg o fuel ((msgs.sent (cfg.isTEE p)).take n)) := by
  induction n with
  | zero => exact ⟨.refl le_rfl hs.bound, hs.proposals, hs.prepares, hs.precommits, hs.commits⟩
  | succ n ih =>
    obtain ⟨hsame, hwait⟩ := ih (Nat.le_of_succ_le hle)
    rw [HandlerState.deliver_take hle]
    generalize s.deliver cfg o fuel ((msgs.sent (cfg.isTEE p)).take n) = t at hsame hwait ⊢
    obtain ⟨hexp, hnext⟩ := hwait.succ hmsgs rfl hle
    have hrun : t.stopped = false := by
      cases hsame
      exact hs.running
    have hleader : (cfg.leaderOf t.skippedLeaders (s.view + 1)).1 = p := by
      rw [← hs.leader]
      cases hsame with
      | mk sk prop prep pc com skipped => exact congrArg Prod.fst (skipped _)
    have hview : t.view < s.view + 1 := by
      rw [hsame.view_eq]
      exact Nat.lt_succ_self _
    rw [react_early hrun hview hleader (ne_of_mem_peers hs.peer) hexp]
    exact ⟨hsame.kept hexp, hnext⟩

/-! ### Starting the view -/

variable {s : HandlerState} {just : Just}

/-- The state of a backup after it has sent its new-view. -/
def HandlerState.announced (cfg : HandlerConfig Key) (t : HandlerState) (just : Just) : HandlerState :=
  { t with
    skippedLeaders := (cfg.leaderOf (cfg.leaderOf t.skippedLeaders t.view).2 t.view).2
    out := t.out ++ [(.newview ⟨just.rdata, just.signs.get 0⟩,
      cfg.keepFromPeers (cfg.leaderOf t.skippedLeaders t.view).1)] }

theorem SameBut.announced (h : SameBut cfg v k t t') (just : Just) :
    SameBut cfg v k (t.announced cfg just) (t'.announced cfg just) := by
  cases h with
  | mk sk prop prep pc com skipped hprop hprep hpc hcom view bound =>
    unfold HandlerState.announced
    dsimp only
    rw [skipped]
    exact .mk _ prop prep pc com (fun _ => rfl) hprop hprep hpc hcom view bound

/-- A backup that signs a new-view sends it and takes up what waits. -/
theorem startNewView_of_newview (henter : enterView cfg o fuel s = .ok just t) (hset : just.set = true)
    (hpropv : just.rdata.propv = t.view) (hphase : just.rdata.phase = Phase1.newview.byte)
    (hsize : just.signs.size = 1) (hme : cfg.myid ≠ (cfg.leaderOf t.skippedLeaders t.view).1) :
    s.startNewView cfg o fuel =
      (t.announced cfg just).ran (replay cfg o (executeComb cfg o fuel) t.view) := by
  have hrun : startNewViewComb cfg o (executeComb cfg o fuel) fuel s =
      replay cfg o (executeComb cfg o fuel) t.view (t.announced cfg just) := by
    rw [startNewViewComb_eq, bind_of_ok henter, if_pos hset]
    unfold announceView
    show (if (just.rdata.propv = t.view && just.rdata.phase = Phase1.newview.byte
      && just.signs.size = 1) = true then _ else _ : HandlerM Unit) t = _
    rw [if_pos (by simp [hpropv, hphase, hsize]), bind_of_ok (getCurrentLeader_eq t), if_neg hme]
    set u : HandlerState := { t.lookedUp cfg t.view with
      out := t.out ++ [(.newview ⟨just.rdata, just.signs.get 0⟩,
        cfg.keepFromPeers (cfg.leaderOf t.skippedLeaders t.view).1)] } with hu
    show handleEarlierMessagesComb cfg o (executeComb cfg o fuel) u = _
    have hbackup : amCurrentLeader cfg u = .ok false (t.announced cfg just) := by
      have hne : ¬ cfg.myid = (cfg.leaderOf (cfg.leaderOf t.skippedLeaders t.view).2 t.view).1 := by
        rwa [cfg.leaderOf_lookedUp]
      exact congrArg (EStateM.Result.ok · (t.announced cfg just)) (decide_eq_false hne)
    unfold handleEarlierMessagesComb
    rw [bind_of_ok hbackup]
    rfl
  unfold HandlerState.startNewView HandlerState.ran
  rw [hrun]

/-- Otherwise nothing happens. -/
theorem startNewView_of_not_newview (henter : enterView cfg o fuel s = .ok just t)
    (hnot : ¬ (just.rdata.propv = t.view ∧ just.rdata.phase = Phase1.newview.byte)) :
    s.startNewView cfg o fuel = t := by
  apply ran_of_ok
  rw [startNewViewComb_eq, bind_of_ok henter]
  split
  · unfold announceView
    show (if (just.rdata.propv = t.view && just.rdata.phase = Phase1.newview.byte
      && just.signs.size = 1) = true then _ else _ : HandlerM Unit) t = _
    rw [if_neg]
    · rfl
    · intro h
      rw [Bool.and_eq_true, Bool.and_eq_true, decide_eq_true_eq, decide_eq_true_eq] at h
      exact hnot h.1
  · rfl

/-- The loop changes the component and the view only. -/
theorem enterView_ok_same (henter : enterView cfg o fuel s = .ok just t) :
    t = { s with tc := t.tc, calls := t.calls, view := t.view, timer := t.timer } := by
  obtain ⟨n, rfl, -⟩ := enterView_ok henter
  rw [HandlerState.signedTimes_eq]

/-- The call that leads to a later view leads to the beginning of the next one. -/
theorem CombState.increment_of_lt {st : CombState} {w : View} (hle : st.view ≤ w)
    (hlt : w < st.increment.view) : st.increment.view = w + 1 ∧ st.increment.phase = .newview := by
  unfold CombState.increment at hlt ⊢
  cases hphase : st.phase with
  | commit =>
    rw [hphase] at hlt
    have hmod : nextView st.view ≤ st.view + 1 := Nat.mod_le _ _
    change w < nextView st.view at hlt
    exact ⟨le_antisymm (hmod.trans (Nat.succ_le_succ hle)) hlt, rfl⟩
  | newview =>
    rw [hphase] at hlt
    exact absurd hlt (Nat.not_lt.mpr hle)
  | prepare =>
    rw [hphase] at hlt
    exact absurd hlt (Nat.not_lt.mpr hle)
  | precommit =>
    rw [hphase] at hlt
    exact absurd hlt (Nat.not_lt.mpr hle)

/-- **When a new-view is signed.**  The last signature is new-view data for the view that is entered if and
only if the component was not ahead. -/
theorem newview_iff (henter : enterView cfg o fuel s = .ok just t) (hbound : s.tc.view < 2 ^ 32) :
    (just.rdata.propv = t.view ∧ just.rdata.phase = Phase1.newview.byte) ↔ s.NotAhead := by
  have hview := (enterView_view henter hbound).1
  obtain ⟨n, -, rfl, hlt, hrest⟩ := enterView_ok henter
  rw [HandlerState.signature_rdata, hview]
  cases n with
  | zero =>
    -- the component was ahead, or at the beginning of the view
    change (s.tc.view = s.view + 1 ∧ s.tc.phase.byte = Phase1.newview.byte) ↔ _
    rw [Phase1.byte_inj]
    exact ⟨Or.inr, fun h => h.resolve_left (Nat.not_le.mpr hlt)⟩
  | succ n =>
    -- the loop ends with the first signature for a later view, the one in phase `newview`
    have hle := hrest n (Nat.lt_succ_self n)
    have hbefore := hrest 0 (Nat.succ_pos n)
    have hstep : (s.signedTimes cfg o (n + 1)).tc = (s.signedTimes cfg o n).tc.increment :=
      HandlerState.called_sign_tc _
    rw [hstep] at hlt ⊢
    refine ⟨fun _ => Or.inl hbefore, fun _ => ?_⟩
    obtain ⟨hnext, hphase⟩ := CombState.increment_of_lt hle hlt
    exact ⟨hnext, congrArg Phase1.byte hphase⟩

/-- States that are the same but for what waits have the same outcome. -/
theorem SameBut.outcome (h : SameBut cfg v k s t) (p : PID) : SameOutcome p t s := by
  cases h
  exact ⟨rfl, rfl, rfl⟩

/-- When the view is started, the backup follows its leader. -/
theorem HandlerState.Awaiting.follows (hs : s.Awaiting cfg p) (henter : enterView cfg o fuel s = .ok just t) :
    t.Follows cfg p (s.view + 1) := by
  have hview := (enterView_view henter hs.bound).1
  have hsame := enterView_ok_same henter
  refine ⟨?_, hview, ?_, ne_of_mem_peers hs.peer⟩
  · rw [hsame]
    exact hs.running
  · rw [hsame]
    exact hs.leader

theorem enterView_set (henter : enterView cfg o fuel s = .ok just t) :
    just.set = true ∧ just.signs.size = 1 := by
  obtain ⟨n, -, rfl, -⟩ := enterView_ok henter
  exact ⟨HandlerState.signature_set _, (HandlerState.called_signs (HandlerState.signature_set _)).1⟩

/-- The view is started alike, whatever waits for it. -/
theorem enterView_same {s' : HandlerState} (h : SameBut cfg v k s s')
    (henter : enterView cfg o fuel s = .ok just t) :
    ∃ t', enterView cfg o fuel s' = .ok just t' ∧ SameBut cfg v (k + 1) t t' := by
  have hresult := lockstep_enterView (o := o) fuel s s' h
  rw [henter] at hresult
  generalize enterView cfg o fuel s' = r at hresult ⊢
  cases hresult with
  | ok h => exact ⟨_, rfl, h⟩

theorem Waits.enterView {s' t' : HandlerState} (h : Waits msgs v n s')
    (henter : enterView cfg o fuel s' = .ok just t') : Waits msgs v n t' := by
  obtain ⟨hprop, hprep, hpc, hcom⟩ := h
  have hsame := enterView_ok_same henter
  rw [hsame]
  exact ⟨hprop, hprep, hpc, hcom⟩

theorem Waits.announced (h : Waits msgs v n t) (just : Just) : Waits msgs v n (t.announced cfg just) :=
  ⟨h.proposals, h.prepares, h.precommits, h.commits⟩

/-- The component was not ahead: the backup catches up. -/
theorem catchesUp_of_notAhead (hs : s.Awaiting cfg p) (hmsgs : msgs.FromLeader cfg o p (s.view + 1))
    (henter : enterView cfg o fuel s = .ok just t)
    (haccept : (s.startNewView cfg o fuel).Accepts cfg o msgs.proposal) (h : s.NotAhead) :
    CatchesUp cfg o fuel s p msgs := by
  obtain ⟨hpropv, hphase⟩ := (newview_iff henter hs.bound).mpr h
  obtain ⟨hset, hsize⟩ := enterView_set henter
  have hfollows := hs.follows henter
  have hstart : ∀ {s' t' : HandlerState}, SameBut cfg (s.view + 1) (s.view + 1) t t' →
      enterView cfg o fuel s' = .ok just t' → s'.startNewView cfg o fuel =
        (t'.announced cfg just).ran (replay cfg o (executeComb cfg o fuel) (s.view + 1)) := by
    intro s' t' hsame henter'
    have hstage : Stage cfg p (s.view + 1) t t' := ⟨hsame, hfollows⟩
    have hview := hstage.follows'.view
    rw [← hview]
    refine startNewView_of_newview henter' hset ?_ hphase hsize ?_
    · rw [hpropv, hfollows.view, hview]
    · rw [hview, hstage.follows'.leader]
      exact hfollows.backup
  have hnow : Waits msgs (s.view + 1) 0 (t.announced cfg just) :=
    (Waits.enterView ⟨hs.proposals, hs.prepares, hs.precommits, hs.commits⟩ henter).announced just
  have hlive : s.startNewView cfg o fuel = t.announced cfg just := by
    rw [hstart (.refl hfollows.view.ge (enterView_view henter hs.bound).2) henter]
    exact replay_none hnow.proposals hnow.prepares _
  have hfew : ∀ n ≤ (msgs.sent (cfg.isTEE p)).length,
      SameOutcome p (s.deliverAround cfg o fuel (msgs.sent (cfg.isTEE p)) n)
        ((s.startNewView cfg o fuel).deliver cfg o fuel (msgs.sent (cfg.isTEE p))) := by
    intro n hle
    obtain ⟨hsame, hwait⟩ := hs.early fuel hmsgs hle
    obtain ⟨t', henter', hsame'⟩ := enterView_same hsame henter
    have hstage : Stage cfg p (s.view + 1) (t.announced cfg just) (t'.announced cfg just) := by
      refine ⟨hsame'.announced just, hfollows.running, hfollows.view, ?_, hfollows.backup⟩
      rw [← hfollows.leader]
      exact (congrArg Prod.fst (cfg.leaderOf_lookedUp _ _ _)).trans
        (congrArg Prod.fst (cfg.leaderOf_lookedUp _ _ _))
    unfold HandlerState.deliverAround
    rw [hstart hsame' henter', hlive]
    rw [hlive] at haccept
    exact (hstage.replay hmsgs ((hwait.enterView henter').announced just) haccept hle).outcome p
  intro n
  rcases le_total n (msgs.sent (cfg.isTEE p)).length with hle | hge
  · exact hfew n hle
  · -- there are no more messages to come early
    have hall := hfew _ le_rfl
    unfold HandlerState.deliverAround at hall ⊢
    rw [List.take_length, List.drop_length] at hall
    rwa [List.take_of_length_le hge, List.drop_of_length_le hge]

/-- Messages are not unsent. -/
theorem deliver_out (t : HandlerState) (l : List Msg) : t.out <+: (t.deliver cfg o fuel l).out := by
  induction l generalizing t with
  | nil => exact List.prefix_rfl
  | cons msg l ih =>
    refine List.IsPrefix.trans ?_ (ih _)
    refine react_kept (kept_out cfg o t.out) fuel (.peer msg) (fun s₁ hbegin => ?_) fun _ _ _ => trivial
    cases hbegin <;> exact List.prefix_rfl

theorem votesTo_mono {s t : HandlerState} (h : s.out <+: t.out) : s.votesTo p <+: t.votesTo p :=
  (h.filter _).map _

/-- The leader gets a vote for an accepted proposal. -/
theorem length_votesTo_votedFor (ht : t.Follows cfg p v) (hpeer : p ∈ cfg.peers) (m : MsgLdrPrepareComb) :
    ((t.votedFor cfg o m).votesTo p).length = (t.votesTo p).length + 1 := by
  have hsent : p ∈ cfg.keepFromPeers (cfg.leaderOf t.skippedLeaders t.view).1 := by
    rw [ht.view, ht.leader]
    exact List.mem_filter.mpr ⟨hpeer, decide_eq_true rfl⟩
  unfold HandlerState.votesTo HandlerState.votedFor
  simp [Msg.isVote, hsent]

/-- The component was ahead: the backup forgets the proposal that came early. -/
theorem not_catchesUp_of_ahead (hs : s.Awaiting cfg p) (hmsgs : msgs.FromLeader cfg o p (s.view + 1))
    (henter : enterView cfg o fuel s = .ok just t)
    (haccept : (s.startNewView cfg o fuel).Accepts cfg o msgs.proposal) (h : ¬ s.NotAhead) :
    ¬ CatchesUp cfg o fuel s p msgs := by
  intro hcatch
  have hnot : ¬ (just.rdata.propv = t.view ∧ just.rdata.phase = Phase1.newview.byte) :=
    fun hnew => h ((newview_iff henter hs.bound).mp hnew)
  have hfollows := hs.follows henter
  have hlive := startNewView_of_not_newview henter hnot
  have hvotes := (hcatch (msgs.sent (cfg.isTEE p)).length).votes
  rw [hlive] at haccept hvotes
  -- all messages come early, and nothing is taken up
  obtain ⟨hsame, -⟩ := hs.early fuel hmsgs le_rfl
  obtain ⟨t', henter', hsame'⟩ := enterView_same hsame henter
  have hnone : (s.deliverAround cfg o fuel (msgs.sent (cfg.isTEE p))
      (msgs.sent (cfg.isTEE p)).length).votesTo p = t.votesTo p := by
    have hnot' : ¬ (just.rdata.propv = t'.view ∧ just.rdata.phase = Phase1.newview.byte) := by
      rwa [hsame'.view_eq]
    unfold HandlerState.deliverAround
    rw [startNewView_of_not_newview henter' hnot', List.drop_length]
    cases hsame'
    rfl
  -- live, the leader gets a vote for the proposal
  have hexp : Expected cfg o p (s.view + 1) msgs.proposal.block (.ldrprepare msgs.proposal) := .proposal hmsgs
  have hvote : t.react cfg o fuel (.peer (.ldrprepare msgs.proposal)) =
      (t.lookedUp cfg (s.view + 1)).votedFor cfg o msgs.proposal := by
    rw [react_current hfollows hexp]
    exact ran_of_ok (respondTo_of_accepts haccept)
  have hle : ((t.react cfg o fuel (.peer (.ldrprepare msgs.proposal))).votesTo p).length ≤
      ((t.deliver cfg o fuel (msgs.sent (cfg.isTEE p))).votesTo p).length :=
    (votesTo_mono (deliver_out _ ((msgs.sent (cfg.isTEE p)).drop 1))).length_le
  rw [hvote, length_votesTo_votedFor (hfollows.lookedUp (s.view + 1)) hs.peer, ← hvotes, hnone] at hle
  exact Nat.not_succ_le_self _ hle

/-- In a run whose first start message finds the component in the replica's view, it is never ahead. -/
theorem LiveRun.notAhead {sha : Text → Digest} (hrun : LiveRun cfg sha StartsInStep s)
    (henter : enterView cfg o fuel s = .ok just t) (hbound : s.tc.view < 2 ^ 32) : s.NotAhead := by
  obtain ⟨hview, hlt⟩ := enterView_view henter hbound
  obtain ⟨n, rfl, -, hnext, -⟩ := enterView_ok henter
  have hsigned : (s.signedTimes cfg o n).tc.view < 2 ^ 32 := by
    rw [HandlerState.signedTimes_tc]
    exact CombState.iterate_increment_lt hbound n
  exact (hrun.inStep (lt_of_le_of_lt hnext hsigned)).imp_left le_of_eq

/-- **Catching up equals live processing**, for all numbers of messages that come early, if and only if
the component has signed nothing for the next view.  It has not in the runs in which it is in the
replica's view when the first start message arrives. -/
theorem catchesUp_iff (cfg : HandlerConfig Key) (o : Oracle Key) (fuel : ℕ) (s : HandlerState) (p : PID)
    (msgs : LeaderMessages) (hs : s.Awaiting cfg p) (hmsgs : msgs.FromLeader cfg o p (s.view + 1))
    (henter : ∃ just t, enterView cfg o fuel s = .ok just t)
    (haccept : (s.startNewView cfg o fuel).Accepts cfg o msgs.proposal) :
    (CatchesUp cfg o fuel s p msgs ↔ s.NotAhead) ∧
      ∀ sha, LiveRun cfg sha StartsInStep s → CatchesUp cfg o fuel s p msgs := by
  obtain ⟨just, t, henter⟩ := henter
  have hcatch := catchesUp_of_notAhead hs hmsgs henter haccept
  refine ⟨⟨fun h => ?_, hcatch⟩, fun sha hrun => hcatch (hrun.notAhead henter hs.bound)⟩
  by_contra hahead
  exact not_catchesUp_of_ahead hs hmsgs henter haccept hahead h

end Backup

/-! ### The second view of a late start -/

section Late

/-- The new-view data of view 2 after a first view without a certificate. -/
def lateNewView : RData := ⟨noHash, 2, newHash, 0, Phase1.newview.byte⟩

/-- The accumulator of leader 2. -/
def lateAccum : Accum := ⟨⟨true, 2, 0, newHash, 3⟩, idealSign 2⟩

/-- The votes of view 2, for a block that extends genesis. -/
def lateVote (phase : Phase1) : RData := ⟨(emptyBlock 22).hash twoBlocksSha, 2, newHash, 0, phase.byte⟩

def lateCertificate (phase : Phase1) : MsgVoteComb :=
  ⟨lateVote phase, .ofList [idealSign 0, idealSign 1, idealSign 2]⟩

/-- What leader 2 sends in view 2. -/
def lateMessages : LeaderMessages where
  proposal := ⟨lateAccum, emptyBlock 22, .ofMsgs [⟨lateNewView, idealSign 0⟩,
    ⟨lateNewView, idealSign 1⟩, ⟨lateNewView, idealSign 2⟩], idealSign 2⟩
  prepare := lateCertificate .prepare
  precommit := lateCertificate .precommit
  commit := lateCertificate .commit

/-- What replicas 0, 1 and 2 have signed in view 2. -/
def lateSigned (q : PID) : List SignedText :=
  if q ≤ 2 then
    .rdata lateNewView :: .accum lateAccum.toAccumData ::
      [Phase1.prepare, .precommit, .commit].map fun phase => .rdata (lateVote phase)
  else []

def lateOracle : Oracle Unit where
  sha256 := twoBlocksSha
  signBuf _ _ := idealBytes
  verify _ s _ t := t ∈ lateSigned s.signer

theorem lateCertificate_certifiedFor {phase : Phase1}
    (h : verifyCombQC (noTEESystem.config 3) (lateOracle.crypto []) (lateVote phase)
      (lateCertificate phase).signs phase = true) :
    CertifiedFor (noTEESystem.config 3) lateOracle phase (emptyBlock 22) 2 (lateCertificate phase) where
  view := rfl
  hash := (by decide +kernel : eqHashes ((emptyBlock 22).hash twoBlocksSha) (lateVote .prepare).proph = true)
  verified _ := h

theorem lateMessages_fromLeader :
    lateMessages.FromLeader (noTEESystem.config 3) lateOracle 2 2 where
  view := rfl
  set := by decide
  signers := by decide
  accSigned _ := (by decide +kernel : (Signs.one lateMessages.proposal.acc.sign).verify
    (lateOracle.verify []) (noTEESystem.config 3).nodes (.accum lateMessages.proposal.acc.toAccumData) = true)
  signed _ := (by decide +kernel : (Signs.one lateMessages.proposal.sign).verify
    (lateOracle.verify []) (noTEESystem.config 3).nodes (.rdata (lateVote .prepare)) = true)
  size := by decide +kernel
  parent := by decide +kernel
  prepare := lateCertificate_certifiedFor (by decide +kernel)
  precommit _ := lateCertificate_certifiedFor (by decide +kernel)
  commit _ := lateCertificate_certifiedFor (by decide +kernel)

theorem HandlerState.awaiting_of_checks {cfg : HandlerConfig Key} {s : HandlerState} {p : PID}
    (h : s.stopped = false ∧ s.tc.view < 2 ^ 32 ∧ (cfg.leaderOf s.skippedLeaders (s.view + 1)).1 = p ∧
      p ∈ cfg.peers ∧ s.log.ldrpreparesComb.get (s.view + 1) = [] ∧ s.futurePrepareQCs.get (s.view + 1) = [] ∧
      s.futurePreCommitQCs.get (s.view + 1) = [] ∧ s.futureCommitQCs.get (s.view + 1) = []) :
    s.Awaiting cfg p := by
  obtain ⟨running, bound, leader, peer, proposals, prepares, precommits, commits⟩ := h
  exact ⟨running, bound, leader, peer, proposals, prepares, precommits, commits⟩

theorem lateStart_awaiting : (lateStart 3).Awaiting (noTEESystem.config 3) 2 ∧
    (lateStart 4).Awaiting (noTEESystem.config 3) 2 :=
  ⟨HandlerState.awaiting_of_checks (by decide +kernel), HandlerState.awaiting_of_checks (by decide +kernel)⟩

/-- In view 2 both accept the proposal. -/
theorem lateStart_accepts :
    ((lateStart 3).startNewView (noTEESystem.config 3) lateOracle 9).Accepts (noTEESystem.config 3)
        lateOracle lateMessages.proposal ∧
      ((lateStart 4).startNewView (noTEESystem.config 3) lateOracle 9).Accepts (noTEESystem.config 3)
        lateOracle lateMessages.proposal := by
  unfold HandlerState.Accepts
  constructor <;> decide +kernel

theorem lateStart_enters {n : ℕ} (h : entersWith (noTEESystem.config 3) lateOracle 9 (lateStart n)
    (fun _ _ => true) = true) :
    ∃ just t, enterView (noTEESystem.config 3) lateOracle 9 (lateStart n) = .ok just t := by
  obtain ⟨just, t, henter, -⟩ := exists_of_entersWith h
  exact ⟨just, t, henter⟩

/-- **The early messages are forgotten.**  After four early proposals of the first view, the component signs
for phase `prepare` of view 2 when the view is started; no new-view is sent, and of the leader's messages
that came before none is answered. -/
theorem not_catchesUp_early_proposals :
    HostRun (noTEESystem.config 3) twoBlocksSha (lateStart 4) ∧
      (lateStart 4).Awaiting (noTEESystem.config 3) 2 ∧
      lateMessages.FromLeader (noTEESystem.config 3) lateOracle 2 ((lateStart 4).view + 1) ∧
      (∃ just t, enterView (noTEESystem.config 3) lateOracle 9 (lateStart 4) = .ok just t) ∧
      ((lateStart 4).startNewView (noTEESystem.config 3) lateOracle 9).Accepts (noTEESystem.config 3)
        lateOracle lateMessages.proposal ∧
      ¬ CatchesUp (noTEESystem.config 3) lateOracle 9 (lateStart 4) 2 lateMessages := by
  have hview : (lateStart 4).view + 1 = 2 := by decide +kernel
  refine ⟨lateStart_run 4, lateStart_awaiting.2, ?_, lateStart_enters (by decide +kernel), lateStart_accepts.2,
    fun h => ?_⟩
  · rw [hview]
    exact lateMessages_fromLeader
  · have hvotes := congrArg List.length (h 4).votes
    exact absurd hvotes (by decide +kernel)

/-- After three early proposals of the first view the component is in step; all four messages may come
before the view, and the block is executed. -/
theorem catchesUp_late_start :
    LiveRun (noTEESystem.config 3) twoBlocksSha StartsInStep (lateStart 3) ∧
      CatchesUp (noTEESystem.config 3) lateOracle 9 (lateStart 3) 2 lateMessages ∧
      ((lateStart 3).deliverAround (noTEESystem.config 3) lateOracle 9
        (lateMessages.sent false) 4).executed ≠ [] := by
  have hview : (lateStart 3).view + 1 = 2 := by decide +kernel
  have hmsgs : lateMessages.FromLeader (noTEESystem.config 3) lateOracle 2 ((lateStart 3).view + 1) := by
    rw [hview]
    exact lateMessages_fromLeader
  have hrun : LiveRun (noTEESystem.config 3) twoBlocksSha StartsInStep (lateStart 3) :=
    lateStart_startsInStep.liveRun.resolve_left (by decide +kernel)
  refine ⟨hrun, ?_, by decide +kernel⟩
  exact (catchesUp_iff (noTEESystem.config 3) lateOracle 9 (lateStart 3) 2 lateMessages lateStart_awaiting.1
    hmsgs (lateStart_enters (by decide +kernel)) lateStart_accepts.1).2 twoBlocksSha hrun

end Late

end Raftel
