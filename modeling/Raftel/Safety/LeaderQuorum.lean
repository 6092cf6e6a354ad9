import Raftel.Safety.VoteLogs

/-!
# The leader counts votes

The three handlers of votes have one shape: the vote is stored, the votes of TEE nodes and of the others are
counted, and when there are enough the leader leaves the phase and sends a certificate made of what is
stored.  The counts come from two places, the size of the set for the class of the vote and the getter
for the other class, and are compared by `==` in some handlers and by `>=` in others.

* `Round.handle_leader` : what a handler does with a valid vote
* `Round.Counted.quorum_none` : the comparisons find a quorum exactly when a new vote completes one
* `Round.Clean.handle` : a leader that finds a quorum sends an accepted certificate
* `leader_leaves_on_quorum` : the leader leaves with the first vote that completes a quorum
-/

namespace Raftel

open Lib

variable {Key : Type}

/-! ### Rounds -/

/-- The three rounds in which a leader collects votes. -/
inductive Round
  | prepare
  | precommit
  | commit
  deriving DecidableEq

namespace Round

/-- The phase in which a leader collects the votes of a round. -/
def phase : Round → Phase1
  | prepare => .prepare
  | precommit => .precommit
  | commit => .commit

/-- The vote or certificate of a round, as a message. -/
def message : Round → MsgVoteComb → Msg
  | prepare => .prepare
  | precommit => .precommit
  | commit => .commit

/-- The votes of TEE nodes. -/
def teeLog : Round → Log → VoteLog
  | prepare => Log.teePreparesComb
  | precommit => Log.teePrecommitsComb
  | commit => Log.teeCommitsComb

/-- The votes of the others. -/
def otherLog : Round → Log → VoteLog
  | prepare => Log.preparesComb
  | precommit => Log.precommitsComb
  | commit => Log.commitsComb

def storeTEE : Round → Log → MsgVoteComb → ℕ × Log
  | prepare => Log.storeTEEPrepComb
  | precommit => Log.storeTEEPcComb
  | commit => Log.storeTEEComComb

def storeOther : Round → Log → MsgVoteComb → ℕ × Log
  | prepare => Log.storePrepComb
  | precommit => Log.storePcComb
  | commit => Log.storeComComb

/-- The stored votes of a view. -/
def votes (r : Round) (log : Log) (v : View) : List MsgVoteComb :=
  (r.teeLog log).get v ++ (r.otherLog log).get v

section Defs

variable (cfg : HandlerConfig Key) (o : Oracle Key)

/-- The handler of the round. -/
def handle (r : Round) (fuel : ℕ) (msg : MsgVoteComb) : HandlerM Unit :=
  Raftel.handle cfg o fuel (.peer (r.message msg))

/-- The log with a vote stored on its side. -/
def stored (r : Round) (log : Log) (msg : MsgVoteComb) : Log :=
  if cfg.isTEE msg.vote.signer then (r.storeTEE log msg).2 else (r.storeOther log msg).2

/-- The two counts that a handler compares. -/
def counts (r : Round) (log : Log) (msg : MsgVoteComb) : ℕ × ℕ :=
  if cfg.isTEE msg.vote.signer then
    ((r.storeTEE log msg).1, if (r.storeTEE log msg).1 ≠ 0 then
      ((r.otherLog (r.storeTEE log msg).2).getSigns msg.data.propv cfg.qsize).size else 0)
  else
    (if (r.storeOther log msg).1 ≠ 0 then
      ((r.teeLog (r.storeOther log msg).2).getSigns msg.data.propv cfg.tqsize).size else 0,
      (r.storeOther log msg).1)

/-- The comparisons of the handlers. -/
def quorum (r : Round) (teecount ncount : ℕ) : Option QcType :=
  if (match r with
      | prepare => cfg.fastQC && teecount ≥ cfg.tqsize
      | _ => decide (teecount = cfg.tqsize)) then some .tee
  else if teecount + ncount = cfg.qsize then some .normal
  else none

/-- What a leader with a quorum does: it sets the next phase and sends a certificate. -/
def leave (r : Round) (fuel : ℕ) (data : RData) (qcType : QcType) : HandlerM Unit :=
  match r with
  | prepare => do
    let leader ← getCurrentLeader cfg
    if cfg.isTEE leader then
      setPhase .newview
      decideComb cfg o (executeComb cfg o fuel) data qcType
    else
      setPhase .precommit
      preCommitComb cfg o data qcType
  | precommit => do
    setPhase .commit
    commitComb cfg o data qcType
  | commit => do
    setPhase .newview
    decideComb cfg o (executeComb cfg o fuel) data qcType

/-- The signatures of the certificate. -/
def signs (r : Round) (log : Log) (v : View) : QcType → Signs
  | .tee => (r.teeLog log).getSigns v cfg.tqsize
  | .normal => VoteLog.merged (r.teeLog log) (r.otherLog log) v cfg.qsize

end Defs

end Round

/-- The state with a vote stored; the leader of its view has been looked up. -/
def HandlerState.withVote (cfg : HandlerConfig Key) (r : Round) (msg : MsgVoteComb)
    (s : HandlerState) : HandlerState :=
  { s with
    skippedLeaders := (cfg.leaderOf s.skippedLeaders msg.data.propv).2
    log := r.stored cfg s.log msg }

section Handle

variable {cfg : HandlerConfig Key} {o : Oracle Key} {r : Round} {fuel : ℕ} {msg : MsgVoteComb}
  {s : HandlerState}

/-- The counting of the handlers. -/
theorem Round.countVote_run {storeTEE store : Log → MsgVoteComb → ℕ × Log}
    {getTEE get' : Log → View → ℕ → Signs} (hTEE : storeTEE = r.storeTEE) (hstore : store = r.storeOther)
    (hgetTEE : getTEE = fun log => (r.teeLog log).getSigns)
    (hget : get' = fun log => (r.otherLog log).getSigns) :
    countVote cfg storeTEE store getTEE get' msg
        { s with skippedLeaders := (cfg.leaderOf s.skippedLeaders msg.data.propv).2 } =
      .ok (r.counts cfg s.log msg) (s.withVote cfg r msg) := by
  subst hTEE hstore hgetTEE hget
  unfold Round.counts HandlerState.withVote Round.stored
  by_cases htee : cfg.isTEE msg.vote.signer = true
  · rw [if_pos htee, if_pos htee]
    show (if cfg.isTEE msg.vote.signer then _ else _ : HandlerM (ℕ × ℕ)) _ = _
    rw [if_pos htee]
    rfl
  · rw [if_neg htee, if_neg htee]
    show (if cfg.isTEE msg.vote.signer then _ else _ : HandlerM (ℕ × ℕ)) _ = _
    rw [if_neg htee]
    rfl

/-- **What a handler does** with a valid vote, at the leader: it stores the vote, and in the phase of the
round it compares the counts and leaves the phase if they make a quorum. -/
theorem Round.handle_leader (hview : msg.data.propv = s.view)
    (hleader : s.leader cfg = cfg.myid)
    (hvote : verifyCombVote cfg (o.crypto s.calls) msg.data msg.signs r.phase = true) :
    r.handle cfg o fuel msg s =
      (if s.phase = r.phase then
          r.quorum cfg (r.counts cfg s.log msg).1 (r.counts cfg s.log msg).2
        else none).elim (pure ()) (r.leave cfg o fuel msg.data) (s.withVote cfg r msg) := by
  have hlead : amLeaderOf cfg msg.data.propv s =
      .ok true { s with skippedLeaders := (cfg.leaderOf s.skippedLeaders msg.data.propv).2 } := by
    have heq : cfg.myid = (cfg.leaderOf s.skippedLeaders msg.data.propv).1 := hview ▸ hleader.symm
    show EStateM.Result.ok (decide (cfg.myid = (cfg.leaderOf s.skippedLeaders msg.data.propv).1)) _ = _
    rw [decide_eq_true heq]
    rfl
  -- the three handlers store in other logs and compare in their own phase; the comparison with the phase comes first
  cases r with
  | prepare =>
    have hvote : verifyCombVote cfg (o.crypto s.calls) msg.data msg.signs .prepare = true := hvote
    have hcount : countVote cfg Log.storeTEEPrepComb Log.storePrepComb Log.getTEEPrepareComb Log.getPrepareComb
        msg { s with skippedLeaders := (cfg.leaderOf s.skippedLeaders msg.data.propv).2 } =
        .ok (Round.counts cfg .prepare s.log msg) (s.withVote cfg .prepare msg) :=
      Round.countVote_run rfl rfl rfl rfl
    show (if msg.data.propv = s.view then _ else _ : HandlerM Unit) s = _
    rw [if_pos hview, bind_of_ok hlead, if_pos rfl, if_pos hvote, bind_of_ok hcount]
    obtain ⟨teecount, ncount⟩ := Round.counts cfg .prepare s.log msg
    by_cases hphase : s.phase = .prepare
    · rw [if_pos (show s.phase = Round.prepare.phase from hphase)]
      simp only [Round.quorum, hphase, decide_true, Bool.and_true, decide_eq_true_eq]
      split
      · rfl
      · split
        · rfl
        · rfl
    · rw [if_neg (show s.phase ≠ Round.prepare.phase from hphase)]
      simp only [hphase, decide_false, Bool.and_false, Bool.false_eq_true, if_false]
      rfl
  | precommit =>
    have hvote : verifyCombVote cfg (o.crypto s.calls) msg.data msg.signs .precommit = true := hvote
    have hcount : countVote cfg Log.storeTEEPcComb Log.storePcComb Log.getTEEPrecommitComb Log.getPrecommitComb
        msg { s with skippedLeaders := (cfg.leaderOf s.skippedLeaders msg.data.propv).2 } =
        .ok (Round.counts cfg .precommit s.log msg) (s.withVote cfg .precommit msg) :=
      Round.countVote_run rfl rfl rfl rfl
    show (if msg.data.propv = s.view then _ else _ : HandlerM Unit) s = _
    rw [if_pos hview, bind_of_ok hlead, if_pos rfl, if_pos hvote, bind_of_ok hcount]
    obtain ⟨teecount, ncount⟩ := Round.counts cfg .precommit s.log msg
    by_cases hphase : s.phase = .precommit
    · rw [if_pos (show s.phase = Round.precommit.phase from hphase)]
      simp only [Round.quorum, hphase, decide_true, Bool.and_true, decide_eq_true_eq]
      split
      · rfl
      · split
        · rfl
        · rfl
    · rw [if_neg (show s.phase ≠ Round.precommit.phase from hphase)]
      simp only [hphase, decide_false, Bool.and_false, Bool.false_eq_true, if_false]
      rfl
  | commit =>
    have hvote : verifyCombVote cfg (o.crypto s.calls) msg.data msg.signs .commit = true := hvote
    have hcount : countVote cfg Log.storeTEEComComb Log.storeComComb Log.getTEECommitComb Log.getCommitComb
        msg { s with skippedLeaders := (cfg.leaderOf s.skippedLeaders msg.data.propv).2 } =
        .ok (Round.counts cfg .commit s.log msg) (s.withVote cfg .commit msg) :=
      Round.countVote_run rfl rfl rfl rfl
    show (if msg.data.propv = s.view then _ else _ : HandlerM Unit) s = _
    rw [if_pos hview, bind_of_ok hlead, if_pos rfl, if_pos hvote, bind_of_ok hcount]
    obtain ⟨teecount, ncount⟩ := Round.counts cfg .commit s.log msg
    by_cases hphase : s.phase = .commit
    · rw [if_pos (show s.phase = Round.commit.phase from hphase)]
      simp only [Round.quorum, hphase, decide_true, Bool.and_true, decide_eq_true_eq]
      split
      · rfl
      · split
        · rfl
        · rfl
    · rw [if_neg (show s.phase ≠ Round.commit.phase from hphase)]
      simp only [hphase, decide_false, Bool.and_false, Bool.false_eq_true, if_false]
      rfl

end Handle

/-! ### What is stored and what is counted -/

/-- The number of votes of TEE nodes. -/
def HandlerConfig.teeVotes (cfg : HandlerConfig Key) (votes : List MsgVoteComb) : ℕ :=
  (votes.filter fun m => cfg.isTEE m.vote.signer).length

/-- Enough votes for a certificate: of TEE nodes, if there are enough TEE nodes, or of all nodes. -/
def HandlerConfig.Held (cfg : HandlerConfig Key) (votes : List MsgVoteComb) : Prop :=
  (cfg.tqsize ≤ cfg.totalTEE ∧ cfg.tqsize ≤ cfg.teeVotes votes) ∨ cfg.qsize ≤ votes.length

/-- The vote is new, and with it there are enough. -/
def HandlerConfig.Completes (cfg : HandlerConfig Key) (votes : List MsgVoteComb) (msg : MsgVoteComb) :
    Prop :=
  msg.vote.signer ∉ votes.map (fun m => m.vote.signer) ∧ cfg.Held (msg :: votes)

/-- A deployment: at least one fault is tolerated, the TEE nodes are as many as configured, and a quorum
fits into the arrays. -/
structure HandlerConfig.Sized (cfg : HandlerConfig Key) : Prop where
  faults : 1 ≤ cfg.numFaults
  tee_le : cfg.totalTEE ≤ cfg.total
  tees : (cfg.nodes.keys.filter fun id => cfg.isTEE id).length = cfg.totalTEE
  qsize_le : cfg.qsize ≤ maxNumSignatures

section Counts

variable {cfg : HandlerConfig Key} {r : Round} {log : Log} {msg : MsgVoteComb} {v : View}

theorem HandlerConfig.Sized.tqsize_le (hcfg : cfg.Sized) : cfg.tqsize ≤ cfg.qsize := by
  have htee := hcfg.tee_le
  have hfaults := hcfg.faults
  unfold HandlerConfig.total at htee
  unfold HandlerConfig.tqsize HandlerConfig.qsize HandlerConfig.total
  omega

theorem Log.OneEach.tee (h : log.OneEach cfg) (r : Round) (v : View) :
    VotesOf cfg true ((r.teeLog log).get v) := by
  cases r with
  | prepare => exact h.teePrepares v
  | precommit => exact h.teePrecommits v
  | commit => exact h.teeCommits v

theorem Log.OneEach.other (h : log.OneEach cfg) (r : Round) (v : View) :
    VotesOf cfg false ((r.otherLog log).get v) := by
  cases r with
  | prepare => exact h.prepares v
  | precommit => exact h.precommits v
  | commit => exact h.commits v

/-- The votes of TEE nodes among the stored ones. -/
theorem Log.OneEach.teeVotes (h : log.OneEach cfg) (r : Round) (v : View) :
    cfg.teeVotes (r.votes log v) = ((r.teeLog log).get v).length := by
  have htee : ((r.teeLog log).get v).filter (fun m => cfg.isTEE m.vote.signer) = (r.teeLog log).get v :=
    List.filter_eq_self.mpr (h.tee r v).kind
  have hother : ((r.otherLog log).get v).filter (fun m => cfg.isTEE m.vote.signer) = [] := by
    refine List.filter_eq_nil_iff.mpr fun m hm => ?_
    rw [(h.other r v).kind m hm]
    exact Bool.false_ne_true
  unfold HandlerConfig.teeVotes Round.votes
  rw [List.filter_append, htee, hother, List.append_nil]

/-- A TEE node and another node are different nodes. -/
theorem Log.OneEach.nodup_votes (h : log.OneEach cfg) (r : Round) (v : View) :
    ((r.votes log v).map fun m => m.vote.signer).Nodup := by
  unfold Round.votes
  rw [List.map_append]
  refine List.Nodup.append (h.tee r v).nodup (h.other r v).nodup fun k hk hk' => ?_
  obtain ⟨m, hm, rfl⟩ := List.mem_map.mp hk
  obtain ⟨m', hm', heq⟩ := List.mem_map.mp hk'
  have hkind := (h.other r v).kind m' hm'
  rw [heq, (h.tee r v).kind m hm] at hkind
  exact absurd hkind (by decide)

/-- There are at most as many votes of TEE nodes as TEE nodes. -/
theorem VotesOf.length_le (hcfg : cfg.Sized) {msgs : List MsgVoteComb} (h : VotesOf cfg true msgs) :
    msgs.length ≤ cfg.totalTEE := by
  have hsub : msgs.map (fun m => m.vote.signer) ⊆ cfg.nodes.keys.filter fun id => cfg.isTEE id := by
    intro id hid
    obtain ⟨m, hm, rfl⟩ := List.mem_map.mp hid
    have htee := h.kind m hm
    refine List.mem_filter.mpr ⟨?_, htee⟩
    unfold HandlerConfig.isTEE at htee
    rw [← AList.mem_keys, ← AList.lookup_isSome]
    cases hl : cfg.nodes.lookup m.vote.signer with
    | none =>
      rw [hl] at htee
      cases htee
    | some nd => rfl
  have hle := (h.nodup.subperm hsub).length_le
  rw [List.length_map, hcfg.tees] at hle
  exact hle

/-- The getters return as many signatures as there are votes, up to `n`. -/
theorem VotesOf.size_getSigns {tee : Bool} {votes : VoteLog} {n : ℕ} (hn : n ≤ maxNumSignatures)
    (h : VotesOf cfg tee (votes.get v)) : (votes.getSigns v n).size = min n (votes.get v).length := by
  obtain ⟨hentries, hsize⟩ := VoteLog.entries_getSigns hn h.one
  rw [← Signs.length_entries (hsize.trans hn), hentries, List.length_take, List.length_map]

/-- **One vote is stored.**  It is a duplicate, and nothing changes, or it is added and counted. -/
theorem VotesOf.store_cases {tee : Bool} {votes : VoteLog}
    (h : VotesOf cfg tee (votes.get msg.data.propv)) (hone : msg.signs.size = 1) :
    (msg.vote.signer ∈ (votes.get msg.data.propv).map (fun m => m.vote.signer) ∧
        votes.store MsgVoteComb.lt msgVoteCombFrom msg = (0, votes)) ∨
      (msg.vote.signer ∉ (votes.get msg.data.propv).map (fun m => m.vote.signer) ∧
        (votes.store MsgVoteComb.lt msgVoteCombFrom msg).1 =
          (votes.get msg.data.propv).length + 1 ∧
        ((votes.store MsgVoteComb.lt msgVoteCombFrom msg).2.get msg.data.propv).Perm
          (msg :: votes.get msg.data.propv)) := by
  have hfrom : msgVoteCombFrom (votes.get msg.data.propv) msg = true ↔
      msg.vote.signer ∈ (votes.get msg.data.propv).map fun m => m.vote.signer :=
    msgVoteCombFrom_iff h.one hone
  have hperm : msg.vote.signer ∉ (votes.get msg.data.propv).map (fun m => m.vote.signer) →
      (setInsert MsgVoteComb.lt msg (votes.get msg.data.propv)).Perm
        (msg :: votes.get msg.data.propv) := by
    intro hnew
    refine setInsert_perm fun m hm => MsgVoteComb.lt_or_lt hone (h.one m hm) fun heq => hnew ?_
    exact List.mem_map.mpr ⟨m, hm, heq.symm⟩
  unfold ViewLog.store
  cases hl : votes.map.lookup msg.data.propv with
  | none =>
    -- the first vote of the view
    have hnil : votes.get msg.data.propv = [] := by
      unfold ViewLog.get
      rw [hl]
      rfl
    rw [hnil] at hperm ⊢
    refine Or.inr ⟨List.not_mem_nil, rfl, ?_⟩
    show ((votes.insert MsgVoteComb.lt msg).get msg.data.propv).Perm _
    rw [ViewLog.get_insert, hnil]
    exact hperm List.not_mem_nil
  | some msgs =>
    have hmsgs : votes.get msg.data.propv = msgs := by
      unfold ViewLog.get
      rw [hl]
      rfl
    rw [hmsgs] at hfrom
    dsimp only
    by_cases hdup : msgVoteCombFrom msgs msg = true
    · rw [if_pos hdup]
      exact Or.inl ⟨hmsgs ▸ hfrom.mp hdup, rfl⟩
    · rw [if_neg hdup]
      have hnew : msg.vote.signer ∉ (votes.get msg.data.propv).map (fun m => m.vote.signer) :=
        fun hmem => hdup (hfrom.mpr (hmsgs ▸ hmem))
      have hget : (votes.insert MsgVoteComb.lt msg).get msg.data.propv =
          setInsert MsgVoteComb.lt msg (votes.get msg.data.propv) := ViewLog.get_insert _ _ _
      refine Or.inr ⟨hnew, ?_, ?_⟩
      · show ((votes.insert MsgVoteComb.lt msg).get msg.data.propv).length = _
        rw [hget, (hperm hnew).length_eq]
        rfl
      · show ((votes.insert MsgVoteComb.lt msg).get msg.data.propv).Perm _
        rw [hget]
        exact hperm hnew

/-! ### One round -/

/-- The logs of a round after a vote has been stored with those of TEE nodes. -/
theorem Round.storeTEE_spec (r : Round) (log : Log) (msg : MsgVoteComb) :
    (r.storeTEE log msg).1 = ((r.teeLog log).store MsgVoteComb.lt msgVoteCombFrom msg).1 ∧
      r.teeLog (r.storeTEE log msg).2 =
        ((r.teeLog log).store MsgVoteComb.lt msgVoteCombFrom msg).2 ∧
      r.otherLog (r.storeTEE log msg).2 = r.otherLog log := by
  cases r <;> exact ⟨rfl, rfl, rfl⟩

/-- The same for the others. -/
theorem Round.storeOther_spec (r : Round) (log : Log) (msg : MsgVoteComb) :
    (r.storeOther log msg).1 = ((r.otherLog log).store MsgVoteComb.lt msgVoteCombFrom msg).1 ∧
      r.otherLog (r.storeOther log msg).2 =
        ((r.otherLog log).store MsgVoteComb.lt msgVoteCombFrom msg).2 ∧
      r.teeLog (r.storeOther log msg).2 = r.teeLog log := by
  cases r <;> exact ⟨rfl, rfl, rfl⟩

/-- What a round holds for a view after a vote, and what is counted.  A duplicate is counted as nothing;
the votes of the other class are counted up to the size of a quorum. -/
inductive Round.Counted (cfg : HandlerConfig Key) (r : Round) (log : Log) (msg : MsgVoteComb) :
    ℕ × ℕ → Log → Prop
  | duplicate {log' : Log}
      (old : msg.vote.signer ∈ (r.votes log msg.data.propv).map fun m => m.vote.signer)
      (tee : r.teeLog log' = r.teeLog log) (other : r.otherLog log' = r.otherLog log) :
      Counted cfg r log msg (0, 0) log'
  | tee {log' : Log} (isTEE : cfg.isTEE msg.vote.signer = true)
      (new : msg.vote.signer ∉ (r.votes log msg.data.propv).map fun m => m.vote.signer)
      (tee : ((r.teeLog log').get msg.data.propv).Perm (msg :: (r.teeLog log).get msg.data.propv))
      (other : r.otherLog log' = r.otherLog log) :
      Counted cfg r log msg (((r.teeLog log).get msg.data.propv).length + 1,
        min cfg.qsize ((r.otherLog log).get msg.data.propv).length) log'
  | other {log' : Log} (isTEE : cfg.isTEE msg.vote.signer = false)
      (new : msg.vote.signer ∉ (r.votes log msg.data.propv).map fun m => m.vote.signer)
      (tee : r.teeLog log' = r.teeLog log)
      (other : ((r.otherLog log').get msg.data.propv).Perm
        (msg :: (r.otherLog log).get msg.data.propv)) :
      Counted cfg r log msg (min cfg.tqsize ((r.teeLog log).get msg.data.propv).length,
        ((r.otherLog log).get msg.data.propv).length + 1) log'

/-- A node that has voted as one kind of node has not voted as the other. -/
theorem VotesOf.not_mem_of_kind {tee : Bool} {msgs : List MsgVoteComb} (h : VotesOf cfg tee msgs)
    (hkind : cfg.isTEE msg.vote.signer ≠ tee) :
    msg.vote.signer ∉ msgs.map fun m => m.vote.signer := by
  intro hmem
  obtain ⟨m, hm, heq⟩ := List.mem_map.mp hmem
  exact hkind (heq ▸ h.kind m hm)

/-- **What is counted** when a vote is stored. -/
theorem Round.counted (hcfg : cfg.Sized) (hlog : log.OneEach cfg) (hone : msg.signs.size = 1) :
    r.Counted cfg log msg (r.counts cfg log msg) (r.stored cfg log msg) := by
  have htee := hlog.tee r msg.data.propv
  have hother := hlog.other r msg.data.propv
  have hmem : msg.vote.signer ∈ ((r.votes log msg.data.propv).map fun m => m.vote.signer) ↔
      (msg.vote.signer ∈ ((r.teeLog log).get msg.data.propv).map fun m => m.vote.signer) ∨
        (msg.vote.signer ∈ ((r.otherLog log).get msg.data.propv).map fun m => m.vote.signer) := by
    unfold Round.votes
    rw [List.map_append, List.mem_append]
  -- the vote is stored with those of its kind of node, and the other log is only counted
  by_cases hkind : cfg.isTEE msg.vote.signer = true
  · have hstored : r.stored cfg log msg = (r.storeTEE log msg).2 := if_pos hkind
    have hne : cfg.isTEE msg.vote.signer ≠ false := by
      rw [hkind]
      decide
    have hnot := hother.not_mem_of_kind hne
    obtain ⟨hcount, hteeLog, hotherLog⟩ := r.storeTEE_spec log msg
    unfold Round.counts
    rw [if_pos hkind, hstored, hotherLog, hother.size_getSigns hcfg.qsize_le]
    rcases htee.store_cases hone with ⟨hold, hsame⟩ | ⟨hnew, hlength, hperm⟩
    · rw [hsame] at hcount hteeLog
      rw [hcount]
      exact .duplicate (hmem.mpr (Or.inl hold)) hteeLog hotherLog
    · rw [hcount, hlength, if_pos (Nat.succ_ne_zero _)]
      rw [← hteeLog] at hperm
      exact .tee hkind (fun h => (hmem.mp h).elim hnew hnot) hperm hotherLog
  · have hstored : r.stored cfg log msg = (r.storeOther log msg).2 := if_neg hkind
    rw [Bool.not_eq_true] at hkind
    have hne : cfg.isTEE msg.vote.signer ≠ true := by
      rw [hkind]
      decide
    have hnot := htee.not_mem_of_kind hne
    obtain ⟨hcount, hotherLog, hteeLog⟩ := r.storeOther_spec log msg
    unfold Round.counts
    rw [if_neg (by rw [hkind]; decide), hstored, hteeLog,
      htee.size_getSigns (hcfg.tqsize_le.trans hcfg.qsize_le)]
    rcases hother.store_cases hone with ⟨hold, hsame⟩ | ⟨hnew, hlength, hperm⟩
    · rw [hsame] at hcount hotherLog
      rw [hcount]
      exact .duplicate (hmem.mpr (Or.inr hold)) hteeLog hotherLog
    · rw [hcount, hlength, if_pos (Nat.succ_ne_zero _)]
      rw [← hotherLog] at hperm
      exact .other hkind (fun h => (hmem.mp h).elim hnot hnew) hteeLog hperm

/-! ### The comparisons -/

/-- There are enough votes for a certificate of the kind. -/
def Round.Enough (cfg : HandlerConfig Key) (r : Round) (log : Log) (v : View) : QcType → Prop
  | .tee => cfg.tqsize ≤ ((r.teeLog log).get v).length
  | .normal => cfg.qsize ≤ (r.votes log v).length

/-- The leader has no quorum yet.  In the phase `prepare` the next vote finds one of TEE nodes, since the
comparison is `>=` there. -/
structure Round.Below (cfg : HandlerConfig Key) (r : Round) (log : Log) (v : View) : Prop where
  all : (r.votes log v).length < cfg.qsize
  tee : r ≠ .prepare → ((r.teeLog log).get v).length < cfg.tqsize

theorem Round.length_votes (r : Round) (log : Log) (v : View) :
    (r.votes log v).length = ((r.teeLog log).get v).length + ((r.otherLog log).get v).length :=
  List.length_append

theorem HandlerConfig.sizes_pos (cfg : HandlerConfig Key) : 0 < cfg.qsize ∧ 0 < cfg.tqsize := by
  unfold HandlerConfig.qsize HandlerConfig.tqsize HandlerConfig.total
  omega

/-- The comparison of the TEE count. -/
theorem Round.quorum_eq (r : Round) (cfg : HandlerConfig Key) (teecount ncount : ℕ) :
    r.quorum cfg teecount ncount =
      if (r = .prepare ∧ cfg.tqsize ≤ cfg.totalTEE ∧ cfg.tqsize ≤ teecount) ∨
          (r ≠ .prepare ∧ teecount = cfg.tqsize) then some .tee
      else if teecount + ncount = cfg.qsize then some .normal
      else none := by
  unfold Round.quorum
  refine if_congr ?_ rfl rfl
  cases r with
  | prepare => simp [HandlerConfig.fastQC]
  | precommit => simp
  | commit => simp

variable {counts : ℕ × ℕ} {log' : Log}

/-- **What the comparisons find is there.** -/
theorem Round.Counted.enough (h : r.Counted cfg log msg counts log') {qcType : QcType}
    (hquorum : r.quorum cfg counts.1 counts.2 = some qcType) :
    r.Enough cfg log' msg.data.propv qcType := by
  obtain ⟨hq, htq⟩ := cfg.sizes_pos
  rw [r.quorum_eq] at hquorum
  cases h with
  | duplicate old tee other =>
    -- no comparison holds of two zeros
    dsimp only at hquorum
    rw [if_neg (by omega), if_neg (by omega)] at hquorum
    cases hquorum
  | tee isTEE new tee other =>
    have htee := tee.length_eq
    have hall := r.length_votes log' msg.data.propv
    rw [List.length_cons] at htee
    rw [other] at hall
    split at hquorum
    · cases hquorum
      show cfg.tqsize ≤ _
      omega
    · split at hquorum
      · cases hquorum
        show cfg.qsize ≤ _
        omega
      · cases hquorum
  | other isTEE new tee other =>
    have hother := other.length_eq
    have hall := r.length_votes log' msg.data.propv
    rw [List.length_cons] at hother
    rw [tee] at hall
    split at hquorum
    · cases hquorum
      show cfg.tqsize ≤ _
      rw [tee]
      omega
    · split at hquorum
      · cases hquorum
        show cfg.qsize ≤ _
        omega
      · cases hquorum

/-- A vote with which the leader finds a quorum of TEE nodes.  In the phase `prepare` there must be enough
TEE nodes; in the others the vote of a TEE node is the last one needed. -/
structure Round.TEEQuorum (cfg : HandlerConfig Key) (r : Round) (votes : List MsgVoteComb)
    (msg : MsgVoteComb) : Prop where
  enough : cfg.tqsize ≤ cfg.teeVotes (msg :: votes)
  nodes : r = .prepare → cfg.tqsize ≤ cfg.totalTEE
  last : r ≠ .prepare → cfg.isTEE msg.vote.signer = true → cfg.teeVotes votes < cfg.tqsize

/-- The vote is new, and with it the leader finds a quorum: of TEE nodes, or exactly `2f+1` votes. -/
def Round.Finds (cfg : HandlerConfig Key) (r : Round) (votes : List MsgVoteComb) (msg : MsgVoteComb)
    (qcType : QcType) : Prop :=
  msg.vote.signer ∉ votes.map (fun m => m.vote.signer) ∧
    match qcType with
    | .tee => r.TEEQuorum cfg votes msg
    | .normal => ¬ r.TEEQuorum cfg votes msg ∧ votes.length + 1 = cfg.qsize

/-- **What the comparisons find**, whatever is stored. -/
theorem Round.Counted.quorum_iff (h : r.Counted cfg log msg counts log') (hcfg : cfg.Sized)
    (hlog : log.OneEach cfg) (qcType : QcType) :
    r.quorum cfg counts.1 counts.2 = some qcType ↔
      r.Finds cfg (r.votes log msg.data.propv) msg qcType := by
  obtain ⟨hq, htq⟩ := cfg.sizes_pos
  have htqle := hcfg.tqsize_le
  have hbound := (hlog.tee r msg.data.propv).length_le hcfg
  have hteeVotes := hlog.teeVotes r msg.data.propv
  have hall := r.length_votes log msg.data.propv
  have hTEE : r.TEEQuorum cfg (r.votes log msg.data.propv) msg ↔
      cfg.tqsize ≤ cfg.teeVotes (msg :: r.votes log msg.data.propv) ∧
        (r = .prepare → cfg.tqsize ≤ cfg.totalTEE) ∧
        (r ≠ .prepare → cfg.isTEE msg.vote.signer = true →
          cfg.teeVotes (r.votes log msg.data.propv) < cfg.tqsize) :=
    ⟨fun h => ⟨h.enough, h.nodes, h.last⟩, fun h => ⟨h.1, h.2.1, h.2.2⟩⟩
  -- the three comparisons as facts about the stored votes
  suffices hcases : ((r = .prepare ∧ cfg.tqsize ≤ cfg.totalTEE ∧ cfg.tqsize ≤ counts.1) ∨
          (r ≠ .prepare ∧ counts.1 = cfg.tqsize) ↔
        msg.vote.signer ∉ (r.votes log msg.data.propv).map (fun m => m.vote.signer) ∧
          r.TEEQuorum cfg (r.votes log msg.data.propv) msg) ∧
      (¬ (msg.vote.signer ∉ (r.votes log msg.data.propv).map (fun m => m.vote.signer) ∧
          r.TEEQuorum cfg (r.votes log msg.data.propv) msg) → (counts.1 + counts.2 = cfg.qsize ↔
        msg.vote.signer ∉ (r.votes log msg.data.propv).map (fun m => m.vote.signer) ∧
          (r.votes log msg.data.propv).length + 1 = cfg.qsize)) by
    obtain ⟨htee, hnormal⟩ := hcases
    rw [r.quorum_eq]
    unfold Round.Finds
    by_cases hfound : msg.vote.signer ∉ (r.votes log msg.data.propv).map (fun m => m.vote.signer) ∧
        r.TEEQuorum cfg (r.votes log msg.data.propv) msg
    · rw [if_pos (htee.mpr hfound)]
      cases qcType with
      | tee => exact iff_of_true rfl hfound
      | normal => exact iff_of_false (by decide) fun h => h.2.1 hfound.2
    · rw [if_neg fun h => hfound (htee.mp h)]
      by_cases hsum : counts.1 + counts.2 = cfg.qsize
      · rw [if_pos hsum]
        obtain ⟨hnew, hlength⟩ := (hnormal hfound).mp hsum
        cases qcType with
        | tee => exact iff_of_false (by decide) hfound
        | normal => exact iff_of_true rfl ⟨hnew, fun h => hfound ⟨hnew, h⟩, hlength⟩
      · rw [if_neg hsum]
        have hnone := fun h => hsum ((hnormal hfound).mpr h)
        cases qcType with
        | tee => exact iff_of_false (by decide) hfound
        | normal => exact iff_of_false (by decide) fun h => hnone ⟨h.1, h.2.2⟩
  rw [hTEE]
  unfold HandlerConfig.teeVotes at hteeVotes ⊢
  cases h with
  | duplicate old tee other =>
    refine ⟨iff_of_false (by omega) fun h => h.1 old, fun _ => iff_of_false (by omega) fun h => h.1 old⟩
  | tee isTEE new tee other =>
    rw [List.filter_cons_of_pos (by simpa using isTEE), List.length_cons, hteeVotes, and_iff_right new,
      and_iff_right new]
    simp only [isTEE, forall_const]
    by_cases hr : r = .prepare
    · subst hr
      simp only [ne_eq, not_true_eq_false, false_and, or_false, true_and, forall_const,
        false_implies, and_true]
      omega
    · simp only [hr, ne_eq, not_false_eq_true, false_and, false_or, true_and, forall_const,
        false_implies]
      omega
  | other isTEE new tee other =>
    rw [List.filter_cons_of_neg (by simp [isTEE]), hteeVotes, and_iff_right new, and_iff_right new]
    simp only [isTEE, Bool.false_eq_true, false_implies, implies_true, and_true]
    by_cases hr : r = .prepare
    · subst hr
      simp only [ne_eq, not_true_eq_false, false_and, or_false, true_and, forall_const]
      omega
    · simp only [hr, ne_eq, not_false_eq_true, false_and, false_or, true_and, false_implies, and_true]
      omega

/-- **The comparisons find every quorum.**  As long as the leader has no quorum, they hold exactly when a
new vote completes one, and otherwise it still has none. -/
theorem Round.Counted.quorum_none (h : r.Counted cfg log msg counts log') (hcfg : cfg.Sized)
    (hlog : log.OneEach cfg) (hlog' : log'.OneEach cfg) (hbelow : r.Below cfg log msg.data.propv) :
    (r.quorum cfg counts.1 counts.2 = none ↔ ¬ cfg.Completes (r.votes log msg.data.propv) msg) ∧
      (r.quorum cfg counts.1 counts.2 = none → r.Below cfg log' msg.data.propv) := by
  obtain ⟨hq, htq⟩ := cfg.sizes_pos
  have hless := hbelow.all
  have hteeLess := hbelow.tee
  have hbound := (hlog'.tee r msg.data.propv).length_le hcfg
  have hteeVotes := hlog.teeVotes r msg.data.propv
  have hall := r.length_votes log msg.data.propv
  have hall' := r.length_votes log' msg.data.propv
  unfold HandlerConfig.teeVotes at hteeVotes
  have hnone : ∀ {c d : Prop} [Decidable c] [Decidable d],
      (if c then some QcType.tee else if d then some QcType.normal else none) = none ↔ ¬ c ∧ ¬ d := by
    intro c d _ _
    by_cases hc : c <;> by_cases hd : d <;> simp [hc, hd]
  rw [r.quorum_eq, hnone]
  unfold HandlerConfig.Completes HandlerConfig.Held HandlerConfig.teeVotes
  cases h with
  | duplicate old tee other =>
    rw [tee, other] at hall'
    refine ⟨iff_of_true ⟨by omega, by omega⟩ fun hnew => hnew.1 old, fun _ => ⟨by omega, fun hr => ?_⟩⟩
    rw [tee]
    exact hteeLess hr
  | tee isTEE new tee other =>
    have htee := tee.length_eq
    rw [List.length_cons] at htee
    rw [other] at hall'
    rw [List.filter_cons_of_pos (by simpa using isTEE), List.length_cons, hteeVotes, List.length_cons]
    have hmin : min cfg.qsize ((r.otherLog log).get msg.data.propv).length =
        ((r.otherLog log).get msg.data.propv).length := by omega
    rw [hmin]
    rw [and_iff_right new]
    by_cases hr : r = .prepare
    · rw [or_iff_left fun h => h.1 hr, and_iff_right hr]
      exact ⟨by omega, fun hnot => ⟨by omega, fun h => absurd hr h⟩⟩
    · -- a TEE quorum has TEE nodes
      have hcount := hteeLess hr
      rw [or_iff_right fun h => hr h.1, and_iff_right hr]
      exact ⟨by omega, fun hnot => ⟨by omega, fun _ => by omega⟩⟩
  | other isTEE new tee other =>
    have hother := other.length_eq
    rw [List.length_cons] at hother
    rw [tee] at hall' hbound
    rw [List.filter_cons_of_neg (by simp [isTEE]), hteeVotes, List.length_cons]
    rw [and_iff_right new]
    by_cases hr : r = .prepare
    · rw [or_iff_left fun h => h.1 hr, and_iff_right hr]
      exact ⟨by omega, fun hnot => ⟨by omega, fun h => absurd hr h⟩⟩
    · have hcount := hteeLess hr
      rw [or_iff_right fun h => hr h.1, and_iff_right hr]
      refine ⟨by omega, fun hnot => ⟨by omega, fun _ => ?_⟩⟩
      rw [tee]
      exact hcount

end Counts

/-! ### The certificate -/

section Certificate

variable {cfg : HandlerConfig Key} {cr : Crypto Key} {data : RData} {r : Round} {log : Log} {v : View}

/-- A set signature of a known node on the data. -/
def SignsData (cfg : HandlerConfig Key) (cr : Crypto Key) (data : RData) (s : Sign) : Prop :=
  s.set = true ∧ ∃ nd, cfg.nodes.lookup s.signer = some nd ∧
    cr.verifySign s nd.pub (.rdata data) = true

/-- `verifyCombSigns` accepts the given number of signatures of different known nodes. -/
theorem verifyCombSigns_iff {signs : Signs} {n : ℕ} {teeOnly : Bool} :
    verifyCombSigns cfg cr data signs n teeOnly = true ↔
      0 < n ∧ n ≤ maxNumSignatures ∧ signs.size = n ∧ (signs.entries.map Sign.signer).Nodup ∧
        (∀ s ∈ signs.entries, SignsData cfg cr data s) ∧
        (teeOnly = true → ∀ s ∈ signs.entries, cfg.isTEE s.signer = true) := by
  unfold verifyCombSigns
  split
  · next hbad =>
    refine iff_of_false Bool.false_ne_true fun h => ?_
    obtain ⟨hpos, hle, hsize, -⟩ := h
    omega
  next hgood =>
  rw [not_or, not_or, not_not] at hgood
  have hpos : 0 < n := Nat.pos_of_ne_zero hgood.1
  have hle : n ≤ maxNumSignatures := Nat.le_of_not_lt hgood.2.1
  rw [and_iff_right hpos, and_iff_right hle, and_iff_right hgood.2.2]
  cases hsigners : hostSignersFrom cfg.nodes signs.entries [] true with
  | none =>
    refine iff_of_false Bool.false_ne_true fun h => ?_
    obtain ⟨hnodup, hall, -⟩ := h
    have hknown : ∀ s ∈ signs.entries, s.set = true ∧ (cfg.nodes.lookup s.signer).isSome := by
      intro s hs
      obtain ⟨hset, nd, hnd, -⟩ := hall s hs
      exact ⟨hset, by rw [hnd]; rfl⟩
    have hsome : hostSignersFrom cfg.nodes signs.entries [] true = some _ :=
      hostSignersFrom_eq_some.mpr ⟨hnodup, fun _ _ => List.not_mem_nil, hknown, rfl⟩
    rw [hsigners] at hsome
    cases hsome
  | some allTEE =>
    obtain ⟨hnodup, -, hknown, hallTEE⟩ := hostSignersFrom_eq_some.mp hsigners
    have htee : allTEE = true ↔ ∀ s ∈ signs.entries, cfg.isTEE s.signer = true := by
      rw [hallTEE, Bool.true_and, List.all_eq_true]
      rfl
    have hver : signs.verify cr.verifySign cfg.nodes (.rdata data) = true ↔
        ∀ s ∈ signs.entries, SignsData cfg cr data s := by
      rw [Signs.verify_eq_true]
      exact forall₂_congr fun s hs => ⟨fun h => ⟨(hknown s hs).1, h⟩, fun h => h.2⟩
    dsimp only
    rw [and_iff_right hnodup, ← hver, ← htee]
    cases teeOnly <;> cases allTEE <;> simp

/-- A vote has one signature, of a known node on the data. -/
theorem verifyCombVote_iff {signs : Signs} {ph : Phase1} :
    verifyCombVote cfg cr data signs ph = true ↔
      data.phase = ph.byte ∧ signs.size = 1 ∧ SignsData cfg cr data (signs.get 0) := by
  have hmax : 1 ≤ maxNumSignatures := maxNumSignatures_pos
  unfold verifyCombVote
  rw [Bool.and_eq_true, decide_eq_true_eq, verifyCombSigns_iff]
  refine and_congr_right fun _ => ⟨fun h => ?_, fun h => ?_⟩
  · obtain ⟨-, -, hsize, -, hall, -⟩ := h
    rw [Signs.entries_of_size_one hsize] at hall
    exact ⟨hsize, hall _ List.mem_cons_self⟩
  · obtain ⟨hsize, hsigned⟩ := h
    rw [Signs.entries_of_size_one hsize]
    refine ⟨Nat.one_pos, hmax, hsize, List.nodup_singleton _, fun s hs => ?_, nofun⟩
    rw [List.mem_singleton.mp hs]
    exact hsigned

/-- The votes that a certificate is made of. -/
def Round.certified (cfg : HandlerConfig Key) (r : Round) (log : Log) (v : View) :
    QcType → List MsgVoteComb
  | .tee => ((r.teeLog log).get v).take cfg.tqsize
  | .normal => (r.votes log v).take cfg.qsize

theorem Round.mem_votes_of_certified {qcType : QcType} {m : MsgVoteComb}
    (hm : m ∈ r.certified cfg log v qcType) : m ∈ r.votes log v := by
  cases qcType with
  | tee => exact List.mem_append_left _ (List.mem_of_mem_take hm)
  | normal => exact List.mem_of_mem_take hm

/-- The signatures of a certificate are those of its votes. -/
theorem Round.entries_signs (hcfg : cfg.Sized) (hlog : log.OneEach cfg) (qcType : QcType) :
    (r.signs cfg log v qcType).entries = (r.certified cfg log v qcType).map MsgVoteComb.vote := by
  have htqle := hcfg.tqsize_le.trans hcfg.qsize_le
  cases qcType with
  | tee =>
    refine (VoteLog.entries_getSigns htqle (hlog.tee r v).one).1.trans ?_
    exact List.map_take.symm
  | normal =>
    refine (VoteLog.entries_merged hcfg.qsize_le (hlog.tee r v).one (hlog.other r v).one).1.trans ?_
    rw [← List.map_append]
    exact List.map_take.symm

/-- **Which certificates are accepted.**  When there are enough votes, the certificate is accepted if and
only if its votes are for the data. -/
theorem Round.verifyCombQC_signs (hcfg : cfg.Sized) (hlog : log.OneEach cfg)
    (hphase : data.phase = r.phase.byte) {qcType : QcType} (henough : r.Enough cfg log v qcType) :
    verifyCombQC cfg cr data (r.signs cfg log v qcType) r.phase = true ↔
      ∀ m ∈ r.certified cfg log v qcType, SignsData cfg cr data m.vote := by
  obtain ⟨hq, htq⟩ := cfg.sizes_pos
  have htqle := hcfg.tqsize_le.trans hcfg.qsize_le
  have htee := hlog.tee r v
  have hentries := r.entries_signs (v := v) hcfg hlog qcType
  have hsigned : (∀ s ∈ (r.signs cfg log v qcType).entries, SignsData cfg cr data s) ↔
      ∀ m ∈ r.certified cfg log v qcType, SignsData cfg cr data m.vote := by
    rw [hentries]
    exact List.forall_mem_map
  have hnodup : ((r.signs cfg log v qcType).entries.map Sign.signer).Nodup := by
    rw [hentries, List.map_map]
    cases qcType with
    | tee => exact htee.nodup.sublist ((List.take_sublist _ _).map _)
    | normal => exact (hlog.nodup_votes r v).sublist ((List.take_sublist _ _).map _)
  unfold verifyCombQC
  rw [Bool.and_eq_true, Bool.or_eq_true, Bool.and_eq_true, Bool.and_eq_true, decide_eq_true_eq,
    decide_eq_true_eq, decide_eq_true_eq, verifyCombSigns_iff, verifyCombSigns_iff, ← hsigned]
  refine ⟨fun h => ?_, fun h => ⟨hphase, ?_⟩⟩
  · obtain ⟨-, ⟨-, -, -, -, -, hall, -⟩ | ⟨-, -, -, -, -, hall, -⟩⟩ := h
    · exact hall
    · exact hall
  · cases qcType with
    | tee =>
      have hsize : (r.signs cfg log v .tee).size = cfg.tqsize :=
        (htee.size_getSigns htqle).trans (min_eq_left henough)
      refine Or.inl ⟨hsize, htq, htqle, hsize, hnodup, h, fun _ s hs => ?_⟩
      rw [hentries] at hs
      obtain ⟨m, hm, rfl⟩ := List.mem_map.mp hs
      exact htee.kind m (List.mem_of_mem_take hm)
    | normal =>
      have hlength : cfg.qsize ≤ ((r.teeLog log).get v).length + ((r.otherLog log).get v).length :=
        (show cfg.qsize ≤ (r.votes log v).length from henough).trans_eq (r.length_votes log v)
      have hsize : (r.signs cfg log v .normal).size = cfg.qsize :=
        (VotesOf.merged hcfg.qsize_le htee (hlog.other r v)).size.trans (min_eq_left hlength)
      exact Or.inr ⟨hsize, hq, hcfg.qsize_le, hsize, hnodup, h, nofun⟩

end Certificate

/-! ### Leaving the phase -/

section Leave

variable {cfg : HandlerConfig Key} {o : Oracle Key}

/-- No message is unsent. -/
theorem Step.out_prefix {misled : Prop} {received : Msg → Prop} {s s' : HandlerState}
    (h : Step cfg o misled received s s') :
    s.out <+: s'.out := by
  cases h with
  | quiet hq => exact hq.out
  | prepare =>
    unfold HandlerState.preparedWith
    dsimp only
    split <;> exact List.prefix_rfl
  | propose =>
    unfold HandlerState.proposedWith
    dsimp only
    split <;> exact List.prefix_rfl
  | enter hidle hdone henter =>
    obtain ⟨n, rfl, -⟩ := enterView_ok henter
    rw [HandlerState.signedTimes_eq]
  | hang hdone henter =>
    obtain ⟨n, rfl⟩ := enterView_error henter
    rw [HandlerState.signedTimes_eq]
  | lookup => exact List.prefix_rfl
  | accum => exact List.prefix_rfl
  | store => exact List.prefix_rfl
  | lead => exact List.prefix_rfl
  | phase => exact List.prefix_rfl
  | newview => exact List.prefix_rfl
  | vote => exact List.prefix_rfl
  | execute => exact List.prefix_rfl
  | stop => exact List.prefix_rfl

/-- Messages that have been sent stay sent. -/
theorem kept_out (cfg : HandlerConfig Key) (o : Oracle Key) (out : List (Msg × List PID)) :
    Kept cfg o True fun s => out <+: s.out :=
  ⟨fun _ _ hstep h => h.trans hstep.out_prefix, Or.inl trivial⟩

/-- Views that have ended have ended. -/
theorem kept_later (cfg : HandlerConfig Key) (o : Oracle Key) (v : View) :
    Kept cfg o True fun s => s.tc.view < 2 ^ 32 ∧ v < s.view :=
  ⟨fun _ _ hstep h => ⟨hstep.tc_lt h.1, h.2.trans_le (hstep.view_le h.1)⟩, Or.inl trivial⟩

/-- **Inversion** for an execution: nothing happens, or the block is executed and the clients are joined, or
the replica starts the next view. -/
theorem executeComb_cases (fuel : ℕ) (data : RData) (s : HandlerState) :
    endState (executeComb cfg o fuel data s) = s ∨
      ∃ block, (∃ joined, endState (executeComb cfg o fuel data s) =
          { s.committed cfg o data block with joined := joined }) ∨
        ∃ fuel', endState (executeComb cfg o fuel data s) = endState
          (startNewViewComb cfg o (executeComb cfg o fuel') fuel' (s.committed cfg o data block)) := by
  cases fuel with
  | zero => exact Or.inl rfl
  | succ fuel =>
    refine Triple.endState (P := fun s' => s' = s) (Q := fun s' => s' = s ∨
      ∃ block, (∃ joined, s' = { s.committed cfg o data block with joined := joined }) ∨ ∃ fuel', s' = endState
        (startNewViewComb cfg o (executeComb cfg o fuel') fuel' (s.committed cfg o data block))) ?_ rfl
    unfold executeComb
    refine Triple.read_bind fun s₀ hs₀ => ?_
    subst hs₀
    refine Triple.cond (fun _ => Triple.ret fun _ hs => Or.inl hs) fun _ => ?_
    split
    · exact Triple.ret fun _ hs => Or.inl hs
    next block _ =>
    refine Triple.cond (fun _ => Triple.ret fun _ hs => Or.inl hs) fun _ => ?_
    refine Triple.bind (Q := fun _ s => s = s₀.committed cfg o data block)
      (Triple.assign fun _ _ => rfl) fun _ => Triple.read_bind fun s₁ hs₁ => ?_
    subst hs₁
    refine Triple.cond (fun _ => Triple.read_bind fun s₂ hs₂ => ?_) fun _ s hs => ?_
    · refine Triple.cond (fun _ => Triple.raise fun _ hs => ?_) fun _ => Triple.assign fun _ _ => ?_
      · rw [hs, hs₂]
        exact Or.inr ⟨block, Or.inl ⟨_, rfl⟩⟩
      · rw [hs₂]
        exact Or.inr ⟨block, Or.inl ⟨true, rfl⟩⟩
    · subst hs
      have hend : ∀ {res : EStateM.Result HandlerError HandlerState PUnit},
          startNewViewComb cfg o (executeComb cfg o fuel) fuel (s₀.committed cfg o data block) = res →
            endState res = endState
              (startNewViewComb cfg o (executeComb cfg o fuel) fuel (s₀.committed cfg o data block)) :=
        fun h => h ▸ rfl
      split
      · next hres => exact Or.inr ⟨block, Or.inr ⟨fuel, hend hres⟩⟩
      · next hres => exact Or.inr ⟨block, Or.inr ⟨fuel, hend hres⟩⟩

/-- A replica that starts the next view from phase `newview` is in a later view, or still in that phase. -/
theorem startNewViewComb_ends {fuel fuel' : ℕ} {s : HandlerState} (hphase : s.phase = .newview)
    (htc : s.tc.view < 2 ^ 32)
    (hview : (endState (startNewViewComb cfg o (executeComb cfg o fuel) fuel' s)).view = s.view) :
    (endState (startNewViewComb cfg o (executeComb cfg o fuel) fuel' s)).phase = .newview := by
  rw [startNewViewComb_eq] at hview ⊢
  cases henter : enterView cfg o fuel' s with
  | ok just s₁ =>
    obtain ⟨hnext, htc₁⟩ := enterView_view henter htc
    have hannounce : Triple (fun s' => s'.tc.view < 2 ^ 32 ∧ s.view < s'.view)
        (if just.set then announceView cfg o (executeComb cfg o fuel) just else pure ())
        (fun _ s' => s'.tc.view < 2 ^ 32 ∧ s.view < s'.view)
        (fun _ s' => s'.tc.view < 2 ^ 32 ∧ s.view < s'.view) :=
      Triple.cond (fun _ => (triple_announceView (kept_later cfg o s.view).by
        (executes_executeComb fuel) (enterView_signer henter)).errors fun _ _ h => h.1) fun _ =>
          Triple.ret fun _ hs => hs
    rw [bind_of_ok henter] at hview
    have hlater := (hannounce.endState ⟨htc₁, hnext ▸ Nat.lt_succ_self s.view⟩).2
    rw [hview] at hlater
    exact absurd hlater (Nat.lt_irrefl _)
  | error e s₁ =>
    obtain ⟨n, rfl⟩ := enterView_error henter
    rw [bind_of_error henter]
    show (s.signedTimes cfg o n).phase = .newview
    rw [HandlerState.signedTimes_eq]
    exact hphase

/-- **A decided leader has left its phase**: after the execution it is in a later view, or in phase
`newview`, and what was sent stays sent. -/
theorem executeComb_ends {fuel : ℕ} {data : RData} {s : HandlerState} (hphase : s.phase = .newview)
    (htc : s.tc.view < 2 ^ 32) (hqc : AcceptedQC cfg o (fun _ => True) data s) :
    s.out <+: (endState (executeComb cfg o fuel data s)).out ∧
      ((endState (executeComb cfg o fuel data s)).view = s.view →
        (endState (executeComb cfg o fuel data s)).phase = .newview) := by
  have hout : Triple (fun s' => s.out <+: s'.out ∧ AcceptedQC cfg o (fun _ => True) data s' ∧ (s'.Idle cfg ∨ True))
      (executeComb cfg o fuel data) (fun _ s' => s.out <+: s'.out) (fun _ s' => s.out <+: s'.out) :=
    (executes_executeComb fuel _ (kept_out cfg o s.out).by data).errors fun _ _ h => h.1
  refine ⟨?_, fun hview => ?_⟩
  · exact hout.endState ⟨List.prefix_rfl, hqc, Or.inr trivial⟩
  · rcases executeComb_cases fuel data s with hsame | ⟨block, ⟨joined, hjoin⟩ | ⟨fuel', hstart⟩⟩
    · rw [hsame]
      exact hphase
    · rw [hjoin]
      exact hphase
    · rw [hstart] at hview ⊢
      exact startNewViewComb_ends hphase htc hview

variable {r : Round} {data : RData} {qcType : QcType} {fuel : ℕ} {s : HandlerState}

/-- The replica is in a view and in the phase of a round. -/
def HandlerState.InRound (s : HandlerState) (r : Round) (v : View) : Prop :=
  s.view = v ∧ s.phase = r.phase

/-- Between the two states a certificate for the data has been sent to every peer, and it is accepted. -/
def Certifies (cfg : HandlerConfig Key) (o : Oracle Key) (r : Round) (data : RData)
    (s s' : HandlerState) : Prop :=
  ∃ signs recipients, verifyCombQC cfg (o.crypto s.calls) data signs r.phase = true ∧
    (∀ j ∈ cfg.peers, j ∈ recipients) ∧
    s.out ++ [(r.message ⟨data, signs⟩, recipients)] <+: s'.out

/-- Between the two states the message has been sent to every peer, before all others. -/
def Sends (cfg : HandlerConfig Key) (msg : Msg) (s s' : HandlerState) : Prop :=
  ∃ recipients, (∀ j ∈ cfg.peers, j ∈ recipients) ∧ s.out ++ [(msg, recipients)] <+: s'.out

/-- An accepted certificate that has been sent. -/
theorem Sends.certifies {s' : HandlerState} {signs : Signs}
    (h : Sends cfg (r.message ⟨data, signs⟩) s s')
    (hqc : verifyCombQC cfg (o.crypto s.calls) data signs r.phase = true) :
    Certifies cfg o r data s s' := by
  obtain ⟨recipients, hpeers, hout⟩ := h
  exact ⟨signs, recipients, hqc, hpeers, hout⟩

/-- The peers do not include the replica itself. -/
theorem HandlerConfig.mem_removeFromPeers {j : PID} (h : j ∈ cfg.peers) :
    j ∈ cfg.removeFromPeers cfg.myid ∧ j ∈ cfg.removeFromPeersPure cfg.myid := by
  have hne : cfg.myid ≠ j := by
    have hmem := (List.mem_filter.mp h).2
    rw [Bool.and_eq_true, decide_eq_true_eq] at hmem
    exact hmem.1.symm
  unfold HandlerConfig.removeFromPeers HandlerConfig.removeFromPeersPure
  rw [List.mem_append, List.mem_filter, List.mem_filter, List.mem_filter]
  cases cfg.isTEE j <;> simp [h, hne]

theorem getCurrentLeader_run (hleader : s.leader cfg = cfg.myid) : getCurrentLeader cfg s =
    .ok cfg.myid { s with skippedLeaders := (cfg.leaderOf s.skippedLeaders s.view).2 } := by
  show EStateM.Result.ok (s.leader cfg) _ = _
  rw [hleader]
  rfl

/-- The leader decides after the round: a TEE node after the first one. -/
def Round.Decides (cfg : HandlerConfig Key) (r : Round) : Prop :=
  (r = .prepare ∧ cfg.isTEE cfg.myid = true) ∨ (r = .commit ∧ cfg.isTEE cfg.myid = false)

/-- A leader that decides checks the certificate of the round, sends it and executes. -/
theorem decideComb_leader (hleader : s.leader cfg = cfg.myid) (hround : r.Decides cfg) :
    decideComb cfg o (executeComb cfg o fuel) data qcType s =
      (if verifyCombQC cfg (o.crypto s.calls) data (r.signs cfg s.log data.propv qcType) r.phase = true then
        sendMsg (r.message ⟨data, r.signs cfg s.log data.propv qcType⟩)
          (cfg.removeFromPeersPure cfg.myid) >>= fun _ => executeComb cfg o fuel data
      else pure () : HandlerM Unit)
        { s with skippedLeaders := (cfg.leaderOf s.skippedLeaders s.view).2 } := by
  unfold decideComb
  rw [bind_of_ok (getCurrentLeader_run hleader)]
  rcases hround with ⟨rfl, htee⟩ | ⟨rfl, htee⟩
  · show (if cfg.isTEE cfg.myid then _ else _ : HandlerM Unit) _ = _
    rw [if_pos htee]
    cases qcType <;> rfl
  · show (if cfg.isTEE cfg.myid then _ else _ : HandlerM Unit) _ = _
    rw [if_neg (by rw [htee]; decide)]
    cases qcType <;> rfl

/-- The state in which a leader leaves a round for a phase. -/
def HandlerState.leaving (s : HandlerState) (cfg : HandlerConfig Key) (ph : Phase1) : HandlerState :=
  { s with skippedLeaders := (cfg.leaderOf s.skippedLeaders s.view).2, phase := ph }

theorem HandlerState.leaving_leader (hleader : s.leader cfg = cfg.myid) (ph : Phase1) :
    (s.leaving cfg ph).leader cfg = cfg.myid :=
  (cfg.leaderOf_lookup s.skippedLeaders s.view s.view).trans hleader

/-- **A leader that decides** has phase `newview` before the certificate is checked. -/
theorem Round.leave_decides (o : Oracle Key) (fuel : ℕ) (data : RData) (qcType : QcType)
    (hleader : s.leader cfg = cfg.myid) (hround : r.Decides cfg) :
    ∃ s₁ : HandlerState, s₁.leader cfg = cfg.myid ∧
      (∃ skipped, s₁ = { s with skippedLeaders := skipped, phase := .newview }) ∧
      r.leave cfg o fuel data qcType s =
        (if verifyCombQC cfg (o.crypto s.calls) data (r.signs cfg s.log data.propv qcType) r.phase = true then
          sendMsg (r.message ⟨data, r.signs cfg s.log data.propv qcType⟩)
            (cfg.removeFromPeersPure cfg.myid) >>= fun _ => executeComb cfg o fuel data
        else pure () : HandlerM Unit) s₁ := by
  have hround' := hround
  rcases hround with ⟨rfl, htee⟩ | ⟨rfl, htee⟩
  · have hrun : Round.prepare.leave cfg o fuel data qcType s =
        decideComb cfg o (executeComb cfg o fuel) data qcType (s.leaving cfg .newview) := by
      show (getCurrentLeader cfg >>= _ : HandlerM Unit) s = _
      rw [bind_of_ok (getCurrentLeader_run hleader), if_pos htee]
      rfl
    refine ⟨_, ?_, ⟨_, rfl⟩, hrun.trans (decideComb_leader (s.leaving_leader hleader .newview) hround')⟩
    exact (cfg.leaderOf_lookup _ _ _).trans (s.leaving_leader hleader .newview)
  · have hrun : Round.commit.leave cfg o fuel data qcType s =
        decideComb cfg o (executeComb cfg o fuel) data qcType { s with phase := .newview } := rfl
    refine ⟨_, ?_, ⟨_, rfl⟩, hrun.trans (decideComb_leader (s := { s with phase := .newview }) hleader hround')⟩
    exact (cfg.leaderOf_lookup s.skippedLeaders s.view s.view).trans hleader

/-- Another leader goes on with the phase `precommit`. -/
theorem Round.leave_precommit (hleader : s.leader cfg = cfg.myid) (htee : cfg.isTEE cfg.myid = false) :
    Round.prepare.leave cfg o fuel data qcType s =
      preCommitComb cfg o data qcType (s.leaving cfg .precommit) := by
  show (getCurrentLeader cfg >>= _ : HandlerM Unit) s = _
  rw [bind_of_ok (getCurrentLeader_run hleader), if_neg (by rw [htee]; decide)]
  rfl

/-- A certificate is sent and stored, and the leader's own vote is logged. -/
theorem sendAndStore_ends {m : HandlerM Unit} {msg : Msg} {recipients : List PID} {just : Just}
    {f : Just → HandlerState → HandlerState}
    (hrun : m s = (sendMsg msg recipients >>= fun _ => callTEEstoreComb cfg o just >>= fun j =>
      if j.set then modify (f j) else pure () : HandlerM Unit) s)
    (hf : ∀ j s', (f j s').out = s'.out ∧ (f j s').phase = s'.phase) :
    (endState (m s)).out = s.out ++ [(msg, recipients)] ∧ (endState (m s)).phase = s.phase := by
  set s₁ : HandlerState := { s with out := s.out ++ [(msg, recipients)] } with hs₁
  have hsend : sendMsg msg recipients s = .ok () s₁ := rfl
  have hcall : callTEEstoreComb cfg o just s₁ =
      .ok (s₁.called cfg o (.store just)).1.toJust (s₁.called cfg o (.store just)).2 := rfl
  rw [hrun, bind_of_ok hsend, bind_of_ok hcall]
  split
  · exact hf _ _
  · exact ⟨rfl, rfl⟩

/-- The leader sends the certificate of phase `prepare`. -/
theorem preCommitComb_ends
    (hqc : verifyCombQC cfg (o.crypto s.calls) data
      (Round.prepare.signs cfg s.log data.propv qcType) .prepare = true) :
    Sends cfg (.prepare ⟨data, Round.prepare.signs cfg s.log data.propv qcType⟩) s
        (endState (preCommitComb cfg o data qcType s)) ∧
      (endState (preCommitComb cfg o data qcType s)).phase = s.phase := by
  have hrun : preCommitComb cfg o data qcType s =
      (sendMsg (.prepare ⟨data, Round.prepare.signs cfg s.log data.propv qcType⟩)
        (cfg.removeFromPeers cfg.myid) >>= fun _ => callTEEstoreComb cfg o
          ⟨true, data, Round.prepare.signs cfg s.log data.propv qcType⟩ >>= fun j =>
        if j.set then modify fun s => { s with
          log := if cfg.isTEE cfg.myid then (s.log.storeTEEPcComb ⟨j.rdata, j.signs⟩).2
            else (s.log.storePcComb ⟨j.rdata, j.signs⟩).2 }
        else pure () : HandlerM Unit) s := by
    cases qcType with
    | tee => exact congrFun (if_pos hqc) s
    | normal => exact congrFun (if_pos hqc) s
  obtain ⟨hout, hphase⟩ := sendAndStore_ends hrun fun _ _ => ⟨rfl, rfl⟩
  exact ⟨⟨_, fun j hj => (cfg.mem_removeFromPeers hj).1, hout ▸ List.prefix_rfl⟩, hphase⟩

/-- The leader sends the certificate of phase `precommit`. -/
theorem commitComb_ends
    (hqc : verifyCombQC cfg (o.crypto s.calls) data
      (Round.precommit.signs cfg s.log data.propv qcType) .precommit = true) :
    Sends cfg (.precommit ⟨data, Round.precommit.signs cfg s.log data.propv qcType⟩) s
        (endState (commitComb cfg o data qcType s)) ∧
      (endState (commitComb cfg o data qcType s)).phase = s.phase := by
  have hrun : commitComb cfg o data qcType s =
      (sendMsg (.precommit ⟨data, Round.precommit.signs cfg s.log data.propv qcType⟩)
        (cfg.removeFromPeers cfg.myid) >>= fun _ => callTEEstoreComb cfg o
          ⟨true, data, Round.precommit.signs cfg s.log data.propv qcType⟩ >>= fun j =>
        if j.set then modify fun s => { s with
          log := if cfg.isTEE cfg.myid then (s.log.storeTEEComComb ⟨j.rdata, j.signs⟩).2
            else (s.log.storeComComb ⟨j.rdata, j.signs⟩).2 }
        else pure () : HandlerM Unit) s := by
    cases qcType with
    | tee => exact congrFun (if_pos hqc) s
    | normal => exact congrFun (if_pos hqc) s
  obtain ⟨hout, hphase⟩ := sendAndStore_ends hrun fun _ _ => ⟨rfl, rfl⟩
  exact ⟨⟨_, fun j hj => (cfg.mem_removeFromPeers hj).1, hout ▸ List.prefix_rfl⟩, hphase⟩

/-- The round after which a leader decides, if the last one is not that of a TEE node, or another one. -/
theorem Round.decides_or (r : Round) (hplain : r = .commit → cfg.isTEE cfg.myid = false) :
    r.Decides cfg ∨ (r = .prepare ∧ cfg.isTEE cfg.myid = false) ∨ r = .precommit := by
  cases r with
  | prepare =>
    cases htee : cfg.isTEE cfg.myid with
    | true => exact Or.inl (Or.inl ⟨rfl, htee⟩)
    | false => exact Or.inr (Or.inl ⟨rfl, rfl⟩)
  | precommit => exact Or.inr (Or.inr rfl)
  | commit => exact Or.inl (Or.inr ⟨rfl, hplain rfl⟩)

theorem Round.phase_ne_newview (r : Round) : r.phase ≠ .newview := by
  cases r <;> decide

/-- **A leader with an accepted certificate** sends it and leaves the phase. -/
theorem Round.leave_ends (fuel : ℕ) (hview : data.propv = s.view) (hleader : s.leader cfg = cfg.myid)
    (htc : s.tc.view < 2 ^ 32) (hplain : r = .commit → cfg.isTEE cfg.myid = false)
    (hqc : verifyCombQC cfg (o.crypto s.calls) data (r.signs cfg s.log data.propv qcType) r.phase =
      true) :
    Sends cfg (r.message ⟨data, r.signs cfg s.log data.propv qcType⟩) s
        (endState (r.leave cfg o fuel data qcType s)) ∧
      ¬ (endState (r.leave cfg o fuel data qcType s)).InRound r s.view := by
  rcases r.decides_or hplain with hround | ⟨rfl, htee⟩ | rfl
  · obtain ⟨s₁, hleader₁, ⟨skipped, rfl⟩, hrun⟩ := Round.leave_decides o fuel data qcType hleader hround
    set s₂ : HandlerState :=
      { s with
        skippedLeaders := skipped
        phase := .newview
        out := s.out ++ [(r.message ⟨data, r.signs cfg s.log data.propv qcType⟩,
          cfg.removeFromPeersPure cfg.myid)] } with hs₂
    have haccepted : AcceptedQC cfg o (fun _ => True) data s₂ := by
      refine ⟨hview, r.signs cfg s.log data.propv qcType, ?_⟩
      rcases hround with ⟨rfl, htee⟩ | ⟨rfl, htee⟩
      · have hleader₂ : s₂.leader cfg = cfg.myid := hleader₁
        exact Or.inl ⟨hqc, hleader₂.symm ▸ htee, Or.inl trivial⟩
      · exact Or.inr ⟨hqc, Or.inl trivial⟩
    have hsend : r.leave cfg o fuel data qcType s = executeComb cfg o fuel data s₂ := by
      rw [hrun, if_pos hqc]
      rfl
    have hphase₂ : s₂.phase = .newview := rfl
    have htc₂ : s₂.tc.view < 2 ^ 32 := htc
    obtain ⟨hout, hend⟩ := executeComb_ends hphase₂ htc₂ haccepted
    rw [hsend]
    exact ⟨⟨_, fun j hj => (cfg.mem_removeFromPeers hj).2, hout⟩,
      fun hin => r.phase_ne_newview (hin.2.symm.trans (hend hin.1))⟩
  · rw [Round.leave_precommit hleader htee]
    obtain ⟨hcert, hphase⟩ := preCommitComb_ends (s := s.leaving cfg .precommit) hqc
    refine ⟨hcert, fun hin => ?_⟩
    have heq : Phase1.prepare = .precommit := hin.2.symm.trans hphase
    cases heq
  · obtain ⟨hcert, hphase⟩ := commitComb_ends (o := o) (s := { s with phase := .commit }) hqc
    refine ⟨hcert, fun hin => ?_⟩
    have heq : Phase1.precommit = .commit := hin.2.symm.trans hphase
    cases heq

/-- **A leader whose certificate is rejected** leaves the phase all the same, and sends nothing. -/
theorem Round.leave_rejected (fuel : ℕ) (hleader : s.leader cfg = cfg.myid)
    (hplain : r = .commit → cfg.isTEE cfg.myid = false)
    (hqc : ¬ verifyCombQC cfg (o.crypto s.calls) data (r.signs cfg s.log data.propv qcType) r.phase =
      true) :
    (endState (r.leave cfg o fuel data qcType s)).out = s.out ∧
      ¬ (endState (r.leave cfg o fuel data qcType s)).InRound r s.view := by
  rcases r.decides_or hplain with hround | ⟨rfl, htee⟩ | rfl
  · obtain ⟨s₁, -, ⟨skipped, rfl⟩, hrun⟩ := Round.leave_decides o fuel data qcType hleader hround
    rw [hrun, if_neg hqc]
    exact ⟨rfl, fun hin => r.phase_ne_newview hin.2.symm⟩
  · have hrun : preCommitComb cfg o data qcType (s.leaving cfg .precommit) =
        .ok () (s.leaving cfg .precommit) := by
      cases qcType with
      | tee => exact congrFun (if_neg hqc) _
      | normal => exact congrFun (if_neg hqc) _
    rw [Round.leave_precommit hleader htee, hrun]
    refine ⟨rfl, fun hin => ?_⟩
    have heq : Phase1.precommit = .prepare := hin.2
    cases heq
  · have hrun : Round.precommit.leave cfg o fuel data qcType s = .ok () { s with phase := .commit } := by
      cases qcType with
      | tee => exact congrFun (if_neg hqc) _
      | normal => exact congrFun (if_neg hqc) _
    rw [hrun]
    refine ⟨rfl, fun hin => ?_⟩
    have heq : Phase1.commit = .precommit := hin.2
    cases heq

end Leave

/-! ### One vote -/

section Step

variable {cfg : HandlerConfig Key} {o : Oracle Key} {r : Round} {data : RData} {s : HandlerState}

/-- The leader is in the phase of the round, and the votes that it has are for the data. -/
structure Round.Clean (cfg : HandlerConfig Key) (o : Oracle Key) (r : Round) (data : RData)
    (s : HandlerState) : Prop where
  inRound : s.InRound r data.propv
  leader : s.leader cfg = cfg.myid
  plain : r = .commit → cfg.isTEE cfg.myid = false
  log : s.log.OneEach cfg
  signed : ∀ m ∈ r.votes s.log data.propv, SignsData cfg (o.crypto s.calls) data m.vote
  bound : s.tc.view < 2 ^ 32

/-- A valid vote for the data. -/
def Round.IsVote (cfg : HandlerConfig Key) (o : Oracle Key) (r : Round) (data : RData)
    (s : HandlerState) (msg : MsgVoteComb) : Prop :=
  msg.data = data ∧ verifyCombVote cfg (o.crypto s.calls) data msg.signs r.phase = true

theorem Log.OneEach.stored {log : Log} (h : log.OneEach cfg) {msg : MsgVoteComb}
    (hone : msg.signs.size = 1) : (r.stored cfg log msg).OneEach cfg := by
  cases r with
  | prepare => exact (h.vote .prepare hone).1
  | precommit => exact (h.vote .precommit hone).1
  | commit => exact (h.vote .commit hone).1

/-- A stored vote was there before, or is the one that has come. -/
theorem Round.Counted.mem_votes {log log' : Log} {msg m : MsgVoteComb} {counts : ℕ × ℕ}
    (h : r.Counted cfg log msg counts log') (hm : m ∈ r.votes log' msg.data.propv) :
    m = msg ∨ m ∈ r.votes log msg.data.propv := by
  unfold Round.votes at hm ⊢
  rw [List.mem_append] at hm ⊢
  cases h with
  | duplicate old tee other =>
    rw [tee, other] at hm
    exact Or.inr hm
  | tee isTEE new tee other =>
    rw [other, tee.mem_iff, List.mem_cons, or_assoc] at hm
    exact hm
  | other isTEE new tee other =>
    rw [tee, other.mem_iff, List.mem_cons, or_left_comm] at hm
    exact hm

/-- A vote for the data leaves the votes clean. -/
theorem Round.Clean.withVote (h : r.Clean cfg o data s) (hcfg : cfg.Sized) {msg : MsgVoteComb}
    (hvote : r.IsVote cfg o data s msg) : r.Clean cfg o data (s.withVote cfg r msg) := by
  obtain ⟨rfl, hverified⟩ := hvote
  obtain ⟨hphase, hone, hsigned⟩ := verifyCombVote_iff.mp hverified
  refine ⟨h.inRound, ?_, h.plain, h.log.stored hone, fun m hm => ?_, h.bound⟩
  · exact (cfg.leaderOf_lookup s.skippedLeaders msg.data.propv s.view).trans h.leader
  · rcases (Round.counted hcfg h.log hone).mem_votes hm with rfl | hm
    · exact hsigned
    · exact h.signed m hm

/-- **One vote.**  The leader stores it and stays, or it has found a quorum, sends an accepted certificate
and leaves the phase. -/
theorem Round.Clean.handle (h : r.Clean cfg o data s) (hcfg : cfg.Sized) {msg : MsgVoteComb}
    (hvote : r.IsVote cfg o data s msg) (fuel : ℕ) :
    (r.quorum cfg (r.counts cfg s.log msg).1 (r.counts cfg s.log msg).2 = none ∧
        endState (r.handle cfg o fuel msg s) = s.withVote cfg r msg) ∨
      (r.quorum cfg (r.counts cfg s.log msg).1 (r.counts cfg s.log msg).2 ≠ none ∧
        ¬ (endState (r.handle cfg o fuel msg s)).InRound r data.propv ∧
        Certifies cfg o r data s (endState (r.handle cfg o fuel msg s))) := by
  have hclean := h.withVote hcfg hvote
  obtain ⟨rfl, hverified⟩ := hvote
  obtain ⟨hphase, hone, -⟩ := verifyCombVote_iff.mp hverified
  rw [Round.handle_leader h.inRound.1.symm h.leader hverified, if_pos h.inRound.2]
  cases hquorum : r.quorum cfg (r.counts cfg s.log msg).1 (r.counts cfg s.log msg).2 with
  | none => exact Or.inl ⟨rfl, rfl⟩
  | some qcType =>
    have henough := (Round.counted hcfg h.log hone).enough hquorum
    have hqc := (Round.verifyCombQC_signs hcfg hclean.log hphase henough).mpr fun m hm =>
      hclean.signed m (Round.mem_votes_of_certified hm)
    obtain ⟨hsent, hleft⟩ := Round.leave_ends fuel hclean.inRound.1.symm hclean.leader hclean.bound
      hclean.plain hqc
    refine Or.inr ⟨Option.some_ne_none _, fun hin => hleft ?_, hsent.certifies hqc⟩
    rwa [hclean.inRound.1]

end Step

/-! ### All votes of a phase -/

section Run

variable {cfg : HandlerConfig Key} {o : Oracle Key} {r : Round} {data : RData} {s : HandlerState}

/-- The votes are handled one after the other. -/
def Round.handleAll (cfg : HandlerConfig Key) (o : Oracle Key) (r : Round) (fuel : ℕ)
    (votes : List MsgVoteComb) (s : HandlerState) : HandlerState :=
  votes.foldl (fun s msg => endState (r.handle cfg o fuel msg s)) s

/-- A leader that has entered the phase of a round, with at most `f` votes of others: the votes are valid
for the data. -/
structure Round.Entered (cfg : HandlerConfig Key) (o : Oracle Key) (r : Round) (data : RData)
    (s : HandlerState) : Prop where
  inRound : s.InRound r data.propv
  leader : s.leader cfg = cfg.myid
  plain : r ≠ .prepare → cfg.isTEE cfg.myid = false
  signed : ∀ m ∈ r.votes s.log data.propv,
    verifyCombVote cfg (o.crypto s.calls) data m.signs r.phase = true
  few : ((r.votes s.log data.propv).filter fun m => m.vote.signer ≠ cfg.myid).length ≤ cfg.numFaults

/-- At the beginning the leader has no quorum. -/
theorem Round.Entered.below (h : r.Entered cfg o data s) (hcfg : cfg.Sized)
    (hlog : s.log.OneEach cfg) : r.Below cfg s.log data.propv := by
  have hfaults := hcfg.faults
  have hfew := h.few
  -- the leader itself has at most one vote
  have hown : ((r.votes s.log data.propv).filter fun m => m.vote.signer = cfg.myid).length ≤ 1 := by
    have hnodup := (hlog.nodup_votes r data.propv).sublist
      ((List.filter_sublist (p := fun m : MsgVoteComb => decide (m.vote.signer = cfg.myid))).map
        fun m : MsgVoteComb => m.vote.signer)
    have hsub : ((r.votes s.log data.propv).filter fun m => decide (m.vote.signer = cfg.myid)).map
        (fun m => m.vote.signer) ⊆ [cfg.myid] := by
      intro id hid
      obtain ⟨m, hm, rfl⟩ := List.mem_map.mp hid
      exact List.mem_singleton.mpr (of_decide_eq_true (List.mem_filter.mp hm).2)
    have hle := (hnodup.subperm hsub).length_le
    rwa [List.length_map] at hle
  have hsplit := List.length_eq_length_filter_add (l := r.votes s.log data.propv)
    fun m => decide (m.vote.signer = cfg.myid)
  have hnot : ((r.votes s.log data.propv).filter fun m => !decide (m.vote.signer = cfg.myid)).length ≤
      cfg.numFaults := by
    refine le_of_eq_of_le (congrArg List.length (List.filter_congr fun m _ => ?_)) hfew
    exact (decide_not).symm
  refine ⟨?_, fun hr => ?_⟩
  · unfold HandlerConfig.qsize HandlerConfig.total
    omega
  · -- the leader is no TEE node
    have htee : ((r.teeLog s.log).get data.propv).filter (fun m => m.vote.signer ≠ cfg.myid) =
        (r.teeLog s.log).get data.propv := by
      refine List.filter_eq_self.mpr fun m hm => decide_eq_true fun heq => ?_
      have hkind := (hlog.tee r data.propv).kind m hm
      rw [heq, h.plain hr] at hkind
      cases hkind
    have hle : ((r.teeLog s.log).get data.propv).length ≤ cfg.numFaults := by
      unfold Round.votes at hfew
      rw [List.filter_append, List.length_append, htee] at hfew
      omega
    unfold HandlerConfig.tqsize
    omega

theorem Round.Entered.clean (h : r.Entered cfg o data s) (hlog : s.log.OneEach cfg)
    (hbound : s.tc.view < 2 ^ 32) : r.Clean cfg o data s where
  inRound := h.inRound
  leader := h.leader
  plain hr := h.plain (by rw [hr]; decide)
  log := hlog
  signed m hm := (verifyCombVote_iff.mp (h.signed m hm)).2.2
  bound := hbound

/-- **Waiting.**  As long as the leader stays in the phase, its votes are clean, it has no quorum, and its
component has not been called. -/
theorem Round.Clean.handleAll (h : r.Clean cfg o data s) (hcfg : cfg.Sized)
    (hbelow : r.Below cfg s.log data.propv) (fuel : ℕ) {votes : List MsgVoteComb}
    (hvotes : ∀ m ∈ votes, r.IsVote cfg o data s m)
    (hwait : ∀ k ≤ votes.length, (r.handleAll cfg o fuel (votes.take k) s).InRound r data.propv) :
    r.Clean cfg o data (r.handleAll cfg o fuel votes s) ∧
      r.Below cfg (r.handleAll cfg o fuel votes s).log data.propv ∧
      (r.handleAll cfg o fuel votes s).calls = s.calls := by
  induction votes generalizing s with
  | nil => exact ⟨h, hbelow, rfl⟩
  | cons msg votes ih =>
    have hvote := hvotes msg List.mem_cons_self
    have hstay := hwait 1 (Nat.le_add_left 1 _)
    rcases h.handle hcfg hvote fuel with ⟨hnone, hend⟩ | ⟨-, hleft, -⟩
    · have hclean := h.withVote hcfg hvote
      have hbelow' : r.Below cfg (s.withVote cfg r msg).log data.propv := by
        obtain ⟨rfl, hverified⟩ := hvote
        obtain ⟨-, hone, -⟩ := verifyCombVote_iff.mp hverified
        exact ((Round.counted hcfg h.log hone).quorum_none hcfg h.log hclean.log hbelow).2 hnone
      have hrest : r.handleAll cfg o fuel (msg :: votes) s =
          r.handleAll cfg o fuel votes (s.withVote cfg r msg) := by
        unfold Round.handleAll
        rw [List.foldl_cons, hend]
      rw [hrest]
      refine ih hclean hbelow' (fun m hm => hvotes m (List.mem_cons_of_mem msg hm)) fun k hk => ?_
      have hk' := hwait (k + 1) (Nat.succ_le_succ hk)
      unfold Round.handleAll at hk' ⊢
      rwa [List.take_succ_cons, List.foldl_cons, hend] at hk'
    · exact absurd hstay hleft

/-- The leader gets valid votes for its data, any number in any order, duplicates among them, all of which
leave it in the phase.  With the next vote it leaves the phase if and only if that vote is new and completes
a quorum, and then it has sent an accepted certificate to every peer. -/
def Round.LeavesOnQuorum (cfg : HandlerConfig Key) (o : Oracle Key) (r : Round) (fuel : ℕ)
    (data : RData) (s : HandlerState) : Prop :=
  ∀ (votes : List MsgVoteComb) (msg : MsgVoteComb), (∀ m ∈ msg :: votes, r.IsVote cfg o data s m) →
    (∀ k ≤ votes.length, (r.handleAll cfg o fuel (votes.take k) s).InRound r data.propv) →
    (¬ (r.handleAll cfg o fuel (votes ++ [msg]) s).InRound r data.propv ↔
        cfg.Completes (r.votes (r.handleAll cfg o fuel votes s).log data.propv) msg) ∧
      (¬ (r.handleAll cfg o fuel (votes ++ [msg]) s).InRound r data.propv →
        Certifies cfg o r data (r.handleAll cfg o fuel votes s)
          (r.handleAll cfg o fuel (votes ++ [msg]) s))

/-- This is so when the votes are clean and make no quorum. -/
theorem Round.Clean.leavesOnQuorum (h : r.Clean cfg o data s) (hcfg : cfg.Sized)
    (hbelow : r.Below cfg s.log data.propv) (fuel : ℕ) : r.LeavesOnQuorum cfg o fuel data s := by
  intro votes msg hvotes hwait
  obtain ⟨hclean, hbelow, hcalls⟩ := h.handleAll hcfg hbelow fuel
    (fun m hm => hvotes m (List.mem_cons_of_mem msg hm)) hwait
  have hvote : r.IsVote cfg o data (r.handleAll cfg o fuel votes s) msg := by
    have hvote := hvotes msg List.mem_cons_self
    unfold Round.IsVote at hvote ⊢
    rwa [hcalls]
  have hlast : r.handleAll cfg o fuel (votes ++ [msg]) s =
      endState (r.handle cfg o fuel msg (r.handleAll cfg o fuel votes s)) := by
    unfold Round.handleAll
    rw [List.foldl_append]
    rfl
  have hone : msg.signs.size = 1 := (verifyCombVote_iff.mp hvote.2).2.1
  have hexact : r.quorum cfg (r.counts cfg (r.handleAll cfg o fuel votes s).log msg).1
        (r.counts cfg (r.handleAll cfg o fuel votes s).log msg).2 = none ↔
      ¬ cfg.Completes (r.votes (r.handleAll cfg o fuel votes s).log data.propv) msg := by
    have hcounted := Round.counted (r := r) hcfg hclean.log hone
    rw [← hvote.1] at hbelow ⊢
    exact (hcounted.quorum_none hcfg hclean.log (hclean.log.stored hone) hbelow).1
  rw [hlast]
  rcases hclean.handle hcfg hvote fuel with ⟨hnone, hend⟩ | ⟨hsome, hleft, hcert⟩
  · have hstays := (hclean.withVote hcfg hvote).inRound
    rw [hend]
    exact ⟨iff_of_false (not_not.mpr hstays) (hexact.mp hnone), fun hleft => absurd hstays hleft⟩
  · exact ⟨iff_of_true hleft (not_not.mp fun h => hsome (hexact.mpr h)), fun _ => hcert⟩

/-- **The leader never misses a quorum.**  In every run, for every number of TEE nodes: a leader that has
entered the phase of a round, with at most `f` votes of others, leaves it with the first new vote that
completes a quorum, and the certificate is accepted. -/
theorem leader_leaves_on_quorum (cfg : HandlerConfig Key) (hcfg : cfg.Sized) (o : Oracle Key)
    (r : Round) (data : RData) (s : HandlerState) (hrun : HostRun cfg o.sha256 s)
    (hentered : r.Entered cfg o data s) (fuel : ℕ) : r.LeavesOnQuorum cfg o fuel data s := by
  have hlog := hrun.stepRun.oneEach
  exact (hentered.clean hlog hrun.stepRun.tc_lt).leavesOnQuorum hcfg (hentered.below hcfg hlog) fuel

end Run

/-! ### A quorum of three -/

section Three

instance (s : HandlerState) (r : Round) (v : View) : Decidable (s.InRound r v) :=
  inferInstanceAs (Decidable (_ ∧ _))

/-- Leader 1 has proposed block 11, and its own vote is the only one. -/
def proposedState : HandlerState :=
  (leaderInputs.take 3).foldl (HandlerState.react (noTEESystem.config 1) leaderOracle · 1) .init

/-- The vote of replica `p` for block 11. -/
def voteFor11 (p : PID) : MsgVoteComb := ⟨firstProposal 11, .one (idealSign p)⟩

/-- The vote of replica 2 comes twice, and with the one of replica 3 the leader has a certificate. -/
theorem leader_leaves_with_three :
    ¬ (Round.prepare.handleAll (noTEESystem.config 1) leaderOracle 1
        [voteFor11 2, voteFor11 2, voteFor11 3] proposedState).InRound .prepare 1 ∧
      Certifies (noTEESystem.config 1) leaderOracle .prepare (firstProposal 11)
        (Round.prepare.handleAll (noTEESystem.config 1) leaderOracle 1
          [voteFor11 2, voteFor11 2] proposedState)
        (Round.prepare.handleAll (noTEESystem.config 1) leaderOracle 1
          [voteFor11 2, voteFor11 2, voteFor11 3] proposedState) := by
  have hcfg : (noTEESystem.config 1).Sized := ⟨by decide, by decide, by decide, by decide⟩
  have hrun : HostRun (noTEESystem.config 1) leaderOracle.sha256 proposedState :=
    HostRun.init.foldl (o := leaderOracle) rfl 1 _
  have hentered : Round.prepare.Entered (noTEESystem.config 1) leaderOracle (firstProposal 11)
      proposedState :=
    ⟨by decide +kernel, by decide +kernel, fun h => absurd rfl h, by decide +kernel,
      by decide +kernel⟩
  have hvotes : ∀ m ∈ [voteFor11 3, voteFor11 2, voteFor11 2],
      Round.prepare.IsVote (noTEESystem.config 1) leaderOracle (firstProposal 11) proposedState m := by
    unfold Round.IsVote
    decide +kernel
  have hwait : ∀ k ≤ 2, (Round.prepare.handleAll (noTEESystem.config 1) leaderOracle 1
      ([voteFor11 2, voteFor11 2].take k) proposedState).InRound .prepare 1 := by
    decide +kernel
  obtain ⟨hiff, hcert⟩ := leader_leaves_on_quorum (noTEESystem.config 1) hcfg leaderOracle .prepare
    (firstProposal 11) proposedState hrun hentered 1 [voteFor11 2, voteFor11 2] (voteFor11 3) hvotes
    hwait
  have hcompletes : (noTEESystem.config 1).Completes (Round.prepare.votes
      (Round.prepare.handleAll (noTEESystem.config 1) leaderOracle 1 [voteFor11 2, voteFor11 2]
        proposedState).log 1) (voteFor11 3) :=
    ⟨by decide +kernel, Or.inr (by decide +kernel)⟩
  have hleft := hiff.mpr hcompletes
  exact ⟨hleft, hcert hleft⟩

end Three

end Raftel
