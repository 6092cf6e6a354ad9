import Raftel.Equiv.Steps
import Raftel.Equiv.Log

/-!
# Handlers are made of steps

A triple for each function of the handlers: what every step keeps, the function keeps.  Within a view
the view, the assumed leader and the phase stay the same (`InView`), which is what the guards of the
steps need.  An exception stops the replica, so its postcondition is about the stopped state.

* `react_keptBy` : what the steps keep that log the replica's own messages, and what holds after a message
  has been stored, holds after the reaction to an input
* `react_kept` : what every step keeps
-/

namespace Raftel

open Lib

variable {Key : Type} {cfg : HandlerConfig Key} {o : Oracle Key} {misled : Prop} {received : Msg → Prop}
  {logged : Msg → Prop} {I : HandlerState → Prop} {v : View} {p : PID} {ph : Phase1} {α : Type}

/-! ### What the log holds -/

/-- The replica that a message names as its signer, the first one for a vote. -/
def Msg.signer : Msg → PID
  | newview m => m.sign.signer
  | ldrprepare m => m.sign.signer
  | prepare m => m.vote.signer
  | precommit m => m.vote.signer
  | commit m => m.vote.signer

/-- The message is among the new-views or the votes of the log. -/
def Log.Holds (log : Log) : Msg → Prop
  | .newview m => m ∈ log.newviewsComb.get m.data.propv ∨ m ∈ log.teeNewviewsComb.get m.data.propv
  | .ldrprepare _ => False
  | .prepare m => m ∈ log.preparesComb.get m.data.propv ∨ m ∈ log.teePreparesComb.get m.data.propv
  | .precommit m => m ∈ log.precommitsComb.get m.data.propv ∨ m ∈ log.teePrecommitsComb.get m.data.propv
  | .commit m => m ∈ log.commitsComb.get m.data.propv ∨ m ∈ log.teeCommitsComb.get m.data.propv

/-- The log with a vote. -/
def HandlerConfig.storeVote (cfg : HandlerConfig Key) (storeTEE store : Log → MsgVoteComb → ℕ × Log)
    (log : Log) (msg : MsgVoteComb) : Log :=
  if cfg.isTEE (msg.signs.get 0).signer then (storeTEE log msg).2 else (store log msg).2

theorem holds_storeNewView {log : Log} {msg : MsgNewViewComb} {m : Msg}
    (h : (cfg.storeNewView log msg).Holds m) : log.Holds m ∨ m = .newview msg := by
  unfold HandlerConfig.storeNewView at h
  cases m with
  | newview m =>
    split at h
    · exact (h.imp_right ViewLog.mem_of_mem_store).elim (fun h => Or.inl (Or.inl h)) fun h =>
        h.imp Or.inr (congrArg Msg.newview)
    · exact (h.imp_left ViewLog.mem_of_mem_store).elim (fun h => h.imp Or.inl (congrArg Msg.newview)) fun h =>
        Or.inl (Or.inr h)
  | ldrprepare m => split at h <;> exact Or.inl h
  | prepare m => split at h <;> exact Or.inl h
  | precommit m => split at h <;> exact Or.inl h
  | commit m => split at h <;> exact Or.inl h

theorem holds_storePrepare {log : Log} {msg : MsgVoteComb} {m : Msg}
    (h : (cfg.storeVote Log.storeTEEPrepComb Log.storePrepComb log msg).Holds m) : log.Holds m ∨ m = .prepare msg := by
  unfold HandlerConfig.storeVote at h
  cases m with
  | newview m => split at h <;> exact Or.inl h
  | ldrprepare m => split at h <;> exact Or.inl h
  | prepare m =>
    split at h
    · exact (h.imp_right ViewLog.mem_of_mem_store).elim (fun h => Or.inl (Or.inl h)) fun h =>
        h.imp Or.inr (congrArg Msg.prepare)
    · exact (h.imp_left ViewLog.mem_of_mem_store).elim (fun h => h.imp Or.inl (congrArg Msg.prepare)) fun h =>
        Or.inl (Or.inr h)
  | precommit m => split at h <;> exact Or.inl h
  | commit m => split at h <;> exact Or.inl h

theorem holds_storePrecommit {log : Log} {msg : MsgVoteComb} {m : Msg}
    (h : (cfg.storeVote Log.storeTEEPcComb Log.storePcComb log msg).Holds m) : log.Holds m ∨ m = .precommit msg := by
  unfold HandlerConfig.storeVote at h
  cases m with
  | newview m => split at h <;> exact Or.inl h
  | ldrprepare m => split at h <;> exact Or.inl h
  | prepare m => split at h <;> exact Or.inl h
  | precommit m =>
    split at h
    · exact (h.imp_right ViewLog.mem_of_mem_store).elim (fun h => Or.inl (Or.inl h)) fun h =>
        h.imp Or.inr (congrArg Msg.precommit)
    · exact (h.imp_left ViewLog.mem_of_mem_store).elim (fun h => h.imp Or.inl (congrArg Msg.precommit)) fun h =>
        Or.inl (Or.inr h)
  | commit m => split at h <;> exact Or.inl h

theorem holds_storeCommit {log : Log} {msg : MsgVoteComb} {m : Msg}
    (h : (cfg.storeVote Log.storeTEEComComb Log.storeComComb log msg).Holds m) : log.Holds m ∨ m = .commit msg := by
  unfold HandlerConfig.storeVote at h
  cases m with
  | newview m => split at h <;> exact Or.inl h
  | ldrprepare m => split at h <;> exact Or.inl h
  | prepare m => split at h <;> exact Or.inl h
  | precommit m => split at h <;> exact Or.inl h
  | commit m =>
    split at h
    · exact (h.imp_right ViewLog.mem_of_mem_store).elim (fun h => Or.inl (Or.inl h)) fun h =>
        h.imp Or.inr (congrArg Msg.commit)
    · exact (h.imp_left ViewLog.mem_of_mem_store).elim (fun h => h.imp Or.inl (congrArg Msg.commit)) fun h =>
        Or.inl (Or.inr h)

/-- A vote that is stored has its signer. -/
theorem VoteStore.holds {storeTEE store : Log → MsgVoteComb → ℕ × Log} (hstore : VoteStore storeTEE store)
    {log : Log} {msg : MsgVoteComb} {m : Msg} (h : (cfg.storeVote storeTEE store log msg).Holds m) :
    log.Holds m ∨ m.signer = msg.vote.signer := by
  cases hstore with
  | prepare =>
    refine (holds_storePrepare h).imp_right ?_
    rintro rfl
    rfl
  | precommit =>
    refine (holds_storePrecommit h).imp_right ?_
    rintro rfl
    rfl
  | commit =>
    refine (holds_storeCommit h).imp_right ?_
    rintro rfl
    rfl

/-! ### What is kept -/

/-- The invariants that every step keeps.  Unless a replica may be misled, they are about components
whose view is a 32-bit number. -/
structure Kept (cfg : HandlerConfig Key) (o : Oracle Key) (misled : Prop) (I : HandlerState → Prop) :
    Prop where
  step : ∀ s s', Step cfg o misled (fun _ => True) s s' → I s → I s'
  bound : misled ∨ ∀ s, I s → s.tc.view < 2 ^ 32

/-- A step of a replica that has received the given messages, after which the log holds nothing new but messages
for which `logged` holds. -/
structure StepBy (cfg : HandlerConfig Key) (o : Oracle Key) (misled : Prop) (received logged : Msg → Prop)
    (s s' : HandlerState) : Prop where
  step : Step cfg o misled received s s'
  logs : ∀ m, s'.log.Holds m → s.log.Holds m ∨ logged m

/-- The invariants that the steps keep which log such messages, the replica's own ones among them. -/
structure KeptBy (cfg : HandlerConfig Key) (o : Oracle Key) (misled : Prop) (received logged : Msg → Prop)
    (I : HandlerState → Prop) : Prop where
  step : ∀ s s', StepBy cfg o misled received logged s s' → I s → I s'
  bound : misled ∨ ∀ s, I s → s.tc.view < 2 ^ 32
  own : ∀ m : Msg, m.signer = cfg.myid → logged m
  awaits : ∀ s, I s → ∀ m, s.Awaits m → received m

theorem Kept.by (h : Kept cfg o misled I) : KeptBy cfg o misled (fun _ => True) (fun _ => True) I :=
  ⟨fun s s' hstep => h.step s s' hstep.step, h.bound, fun _ _ => trivial, fun _ _ _ _ => trivial⟩

/-- After an exception the invariant holds of the replica once it is stopped, and if the handler has ended it
holds anyhow. -/
def Stopped (I : HandlerState → Prop) (e : HandlerError) (s : HandlerState) : Prop :=
  I { s with stopped := true } ∧ (e ≠ .outOfFuel → I s)

/-- The invariant holds, and the replica is in view `v` and phase `ph` and takes `p` for its leader. -/
structure InView (cfg : HandlerConfig Key) (I : HandlerState → Prop) (v : View) (p : PID)
    (ph : Phase1) (s : HandlerState) : Prop where
  inv : I s
  view : s.view = v
  leader : s.leader cfg = p
  phase : s.phase = ph

/-- What holds in every view holds without one. -/
theorem triple_of_inView (cfg : HandlerConfig Key) {m : HandlerM α} {Q : α → HandlerState → Prop}
    (h : ∀ v p ph, Triple (InView cfg I v p ph) m Q (Stopped I)) : Triple I m Q (Stopped I) :=
  fun s hs => h s.view (s.leader cfg) s.phase s ⟨hs, rfl, rfl, rfl⟩

/-- To give the state a name. -/
theorem triple_name {P : HandlerState → Prop} {Q : α → HandlerState → Prop} {m : HandlerM α}
    (h : ∀ s₀, P s₀ → Triple (fun s => s = s₀) m Q (Stopped I)) : Triple P m Q (Stopped I) :=
  fun s hs => h s hs s rfl

/-- The updates that are quiet. -/
theorem Quiet.update (s : HandlerState) {transactions : List Transaction} {clients : StdMap CID Bool}
    {ldrprepares : LdrPrepareLog} {joined : Bool} : Quiet received s { s with
      transactions := transactions
      clients := clients
      joined := joined
      log := { s.log with ldrpreparesComb := ldrprepares } } :=
  ⟨rfl, rfl, rfl, rfl, rfl, rfl, ⟨_, rfl⟩, fun m hm => Or.inl (by cases m <;> exact hm), rfl, rfl, rfl, rfl, rfl,
    rfl, rfl, rfl, List.prefix_rfl⟩

/-- To keep certificates that were received is quiet. -/
theorem Quiet.futures (s : HandlerState) {prepares precommits commits : VoteLog}
    (hprep : ∀ m v, m ∈ prepares.get v → m ∈ s.futurePrepareQCs.get v ∨ received (.prepare m))
    (hpc : ∀ m v, m ∈ precommits.get v → m ∈ s.futurePreCommitQCs.get v ∨ received (.precommit m))
    (hcom : ∀ m v, m ∈ commits.get v → m ∈ s.futureCommitQCs.get v ∨ received (.commit m)) :
    Quiet received s { s with
      futurePrepareQCs := prepares
      futurePreCommitQCs := precommits
      futureCommitQCs := commits } := by
  refine ⟨rfl, rfl, rfl, rfl, rfl, rfl, ⟨_, rfl⟩, fun m hm => ?_, rfl, rfl, rfl, rfl, rfl, rfl, rfl, rfl,
    List.prefix_rfl⟩
  cases m with
  | newview m => exact hm.elim
  | ldrprepare m => exact hm.elim
  | prepare m => exact hprep m _ hm
  | precommit m => exact hpc m _ hm
  | commit m => exact hcom m _ hm

theorem mem_get_insert_received {log : VoteLog} {msg : MsgVoteComb} {c : MsgVoteComb → Msg}
    (hreceived : received (c msg)) (m : MsgVoteComb) (v : View) (hm : m ∈ (log.insert MsgVoteComb.lt msg).get v) :
    m ∈ log.get v ∨ received (c m) := by
  rcases ViewLog.mem_of_mem_insert hm with rfl | hm
  · exact Or.inr hreceived
  · exact Or.inl hm

/-- To send a message is quiet. -/
theorem Quiet.send (s : HandlerState) (msgs : List (Msg × List PID)) :
    Quiet received s { s with out := s.out ++ msgs } :=
  ⟨rfl, rfl, rfl, rfl, rfl, rfl, ⟨_, rfl⟩, fun m hm => Or.inl (by cases m <;> exact hm), rfl, rfl, rfl, rfl, rfl,
    rfl, rfl, rfl, List.prefix_append s.out msgs⟩

section Triples

variable (hI : KeptBy cfg o misled received logged I)
include hI

/-- A step that leaves the log. -/
theorem KeptBy.same {s s' : HandlerState} (hstep : Step cfg o misled received s s') (hlog : s'.log = s.log)
    (hs : I s) : I s' :=
  hI.step s s' ⟨hstep, fun _ hm => Or.inl (hlog ▸ hm)⟩ hs

/-- A quiet step leaves the new-views and the votes. -/
theorem KeptBy.quiet {s s' : HandlerState} (h : Quiet received s s') (hs : I s) : I s' := by
  obtain ⟨l, hlog⟩ := h.log
  refine hI.step s s' ⟨.quiet h, fun m hm => Or.inl ?_⟩ hs
  rw [hlog] at hm
  cases m <;> exact hm

/-- A vote is logged. -/
theorem KeptBy.vote {s : HandlerState} {storeTEE store : Log → MsgVoteComb → ℕ × Log} {msg : MsgVoteComb}
    (hstore : VoteStore storeTEE store) (hsize : msg.signs.size = 1)
    (hlogs : ∀ m, (cfg.storeVote storeTEE store s.log msg).Holds m → s.log.Holds m ∨ logged m) (hs : I s) :
    I { s with log := cfg.storeVote storeTEE store s.log msg } :=
  hI.step s _ ⟨.vote hstore hsize, hlogs⟩ hs

theorem stopped_of_inv {s : HandlerState} {e : HandlerError} (hs : I s) : Stopped I e s :=
  ⟨hI.same .stop rfl hs, fun _ => hs⟩

omit hI in
/-- A step within the view, with the same skipped leaders and in the same phase. -/
theorem InView.step {s s' : HandlerState} (hs : InView cfg I v p ph s) (hs' : I s')
    (hview : s'.view = s.view) (hskip : s'.skippedLeaders = s.skippedLeaders)
    (hphase : s'.phase = s.phase) : InView cfg I v p ph s' := by
  refine ⟨hs', hview.trans hs.view, ?_, hphase.trans hs.phase⟩
  rw [← hs.leader]
  exact HandlerState.leader_eq hview (Or.inl hskip)

theorem InView.quiet {s s' : HandlerState} (hs : InView cfg I v p ph s) (h : Quiet received s s') :
    InView cfg I v p ph s' :=
  hs.step (hI.quiet h hs.inv) h.view h.skippedLeaders h.phase

theorem InView.lookup {s : HandlerState} (hs : InView cfg I v p ph s) (w : View) :
    InView cfg I v p ph { s with skippedLeaders := (cfg.leaderOf s.skippedLeaders w).2 } := by
  refine ⟨hI.same (.lookup w) rfl hs.inv, hs.view, ?_, hs.phase⟩
  rw [← hs.leader]
  exact HandlerState.leader_eq rfl (Or.inr ⟨w, rfl⟩)

/-- The rule for the functions that are one quiet step. -/
theorem triple_quiet {m : HandlerM α} {a : HandlerState → α} {f : HandlerState → HandlerState}
    (hm : ∀ s, m s = .ok (a s) (f s)) (hf : ∀ s, Quiet received s (f s)) :
    Triple (InView cfg I v p ph) m (fun _ => InView cfg I v p ph) (Stopped I) := by
  intro s hs
  rw [hm]
  exact hs.quiet hI (hf s)

theorem triple_sendMsg {msg : Msg} {recipients : List PID} :
    Triple (InView cfg I v p ph) (sendMsg msg recipients) (fun _ => InView cfg I v p ph)
      (Stopped I) :=
  triple_quiet hI (fun _ => rfl) fun s => Quiet.send s _

/-! ### Leaders -/

/-- The leader of the current view is the one of the context. -/
theorem triple_getLeaderOf {w : View} :
    Triple (InView cfg I v p ph) (getLeaderOf cfg w)
      (fun leader s => InView cfg I v p ph s ∧ (w = v → leader = p)) (Stopped I) := by
  intro s hs
  refine ⟨hs.lookup hI w, fun hw => ?_⟩
  rw [← hs.leader, hw, ← hs.view]
  rfl

theorem triple_getCurrentLeader :
    Triple (InView cfg I v p ph) (getCurrentLeader cfg)
      (fun leader s => InView cfg I v p ph s ∧ leader = p) (Stopped I) := by
  intro s hs
  exact ⟨hs.lookup hI s.view, hs.leader⟩

theorem triple_amLeaderOf {w : View} :
    Triple (InView cfg I v p ph) (amLeaderOf cfg w)
      (fun b s => InView cfg I v p ph s ∧ (w = v → (b = true ↔ p = cfg.myid))) (Stopped I) := by
  unfold amLeaderOf
  refine Triple.bind (triple_getLeaderOf hI) fun leader => Triple.ret fun s hs => ⟨hs.1, fun hw => ?_⟩
  rw [hs.2 hw, decide_eq_true_eq, eq_comm]

theorem triple_amCurrentLeader :
    Triple (InView cfg I v p ph) (amCurrentLeader cfg)
      (fun b s => InView cfg I v p ph s ∧ (b = true ↔ p = cfg.myid)) (Stopped I) := by
  unfold amCurrentLeader
  refine Triple.bind (triple_getCurrentLeader hI) fun leader => Triple.ret fun s hs => ⟨hs.1, ?_⟩
  rw [hs.2, decide_eq_true_eq, eq_comm]

/-! ### Calls and votes -/

theorem triple_callTEEstoreComb {just : Just} (hview : just.rdata.propv = v) :
    Triple (InView cfg I v p ph) (callTEEstoreComb cfg o just)
      (fun j s => InView cfg I v p ph s ∧
        (j.set = true → j.signs.size = 1 ∧ (j.signs.get 0).signer = cfg.myid)) (Stopped I) := by
  intro s hs
  exact ⟨hs.step (hI.same (.store (hview.trans hs.view.symm)) rfl hs.inv) rfl rfl rfl,
    HandlerState.called_signs⟩

/-- The replica logs its own vote. -/
theorem triple_ownVote {storeTEE store : Log → MsgVoteComb → ℕ × Log} {msg : MsgVoteComb}
    (hstore : VoteStore storeTEE store)
    (hsigns : msg.signs.size = 1 ∧ (msg.signs.get 0).signer = cfg.myid) :
    Triple (InView cfg I v p ph)
      (modify fun s => { s with
        log := if cfg.isTEE cfg.myid then (storeTEE s.log msg).2 else (store s.log msg).2 } :
        HandlerM Unit)
      (fun _ => InView cfg I v p ph) (Stopped I) := by
  refine Triple.update fun s hs => ?_
  have hvote : I { s with log := cfg.storeVote storeTEE store s.log msg } :=
    hI.vote hstore hsigns.1 (fun m hm => (hstore.holds hm).imp_right fun hsigner =>
      hI.own m (hsigner.trans hsigns.2)) hs.inv
  rw [HandlerConfig.storeVote, hsigns.2] at hvote
  exact hs.step hvote rfl rfl rfl

/-! ### The leader's proposal -/

/-- In view, with the given views already proposed in. -/
def Unproposed (cfg : HandlerConfig Key) (I : HandlerState → Prop) (v : View) (p : PID) (ph : Phase1)
    (s : HandlerState) : Prop :=
  InView cfg I v p ph s ∧ s.view ∉ s.processedNewViews

theorem triple_newviews2accComb {newviews : List MsgNewViewComb} {n : ℕ} :
    Triple (Unproposed cfg I v p ph) (newviews2accComb cfg o newviews n)
      (fun _ => Unproposed cfg I v p ph) (Stopped I) := by
  have hcall : ∀ {m : HandlerM Accum} {c : Call}, c.isAccum = true →
      (∀ s, m s = .ok (s.called cfg o c).1.toAccum (s.called cfg o c).2) →
      Triple (Unproposed cfg I v p ph) m (fun _ => Unproposed cfg I v p ph) (Stopped I) := by
    intro m c hc hm s hs
    rw [hm]
    exact ⟨hs.1.step (hI.same (.accum hc) rfl hs.1.inv) rfl rfl rfl, hs.2⟩
  unfold newviews2accComb
  refine Triple.cond (fun _ => ?_) fun _ => ?_
  · exact hcall rfl fun _ => rfl
  · exact hcall rfl fun _ => rfl

theorem triple_createNewBlock {hash : Hash} :
    Triple (Unproposed cfg I v p ph) (createNewBlock cfg hash) (fun _ => Unproposed cfg I v p ph)
      (Stopped I) := by
  refine Triple.read_bind fun s₀ hs₀ => Triple.bind (Q := fun _ => Unproposed cfg I v p ph)
    (Triple.assign fun s hs => ?_) fun _ => ?_
  · exact ⟨hs₀.1.quiet hI (Quiet.update s₀), hs₀.2⟩
  · exact Triple.cond (fun _ => Triple.ret fun _ hs => hs) fun _ =>
      Triple.raise fun _ hs => stopped_of_inv hI hs.1.inv

/-- A proposal is made of new-views of the current view. -/
theorem triple_processQC {newviews : List MsgNewViewComb} {qcType : QcType}
    (hnv : ∀ m ∈ newviews, m.data.propv = v) :
    Triple (InView cfg I v p ph) (processQC cfg o newviews qcType) (fun _ => InView cfg I v p ph)
      (Stopped I) := by
  -- the component accepts a proof of its own view, whose entries are the new-views
  have hview : ∀ (acc : Accum) (s : HandlerState),
      ValidProof (cfg.component.env (o.crypto s.calls)) s.tc.view
        (setNewViews (.ofMsgs newviews)) acc → s.tc.view = v := by
    intro acc s hproof
    have hlen := NewViews.length_entries hproof.size_le
    obtain ⟨e, he⟩ := List.exists_mem_of_length_pos (hlen ▸ hproof.size_pos)
    obtain ⟨m, hm, heq⟩ := exists_msg_of_mem_setNewViews he
    rw [← (hproof.newview e he).2, heq]
    exact hnv m hm
  unfold processQC
  refine Triple.read_bind fun s₀ hs₀ => ?_
  refine Triple.cond (fun _ => Triple.ret fun _ hs => hs ▸ hs₀) fun hnew => ?_
  refine Triple.pre (P := Unproposed cfg I v p ph) ?_ fun s hs => hs ▸ ⟨hs₀, hnew⟩
  refine Triple.bind (triple_newviews2accComb hI) fun acc => ?_
  refine Triple.cond (fun _ => Triple.ret fun _ hs => hs.1) fun _ => ?_
  refine Triple.bind (triple_createNewBlock hI) fun block => triple_name fun s₁ hs₁ => ?_
  -- the call and the marking of the view are one step
  have hstep : InView cfg I v p ph
      (s₁.proposedWith cfg o block acc (setNewViews (.ofMsgs newviews))) := by
    have hprop : Step cfg o misled received s₁
        (s₁.proposedWith cfg o block acc (setNewViews (.ofMsgs newviews))) :=
      .propose (fun h => (hview acc s₁ (view_of_prepare_set h)).trans hs₁.1.view.symm) hs₁.2
    refine hs₁.1.step (hI.same hprop ?_ hs₁.1.inv) ?_ ?_ ?_
    all_goals
      unfold HandlerState.proposedWith
      dsimp only
      split <;> rfl
  unfold HandlerState.proposedWith at hstep
  dsimp only at hstep
  refine Triple.bind (Q := fun j s =>
    s = (s₁.called cfg o (.prepare block acc (setNewViews (.ofMsgs newviews)))).2 ∧
      j = (s₁.called cfg o (.prepare block acc (setNewViews (.ofMsgs newviews)))).1.toJust)
    (fun s hs => hs ▸ ⟨rfl, rfl⟩) fun j => triple_name fun s₂ hs₂ => ?_
  obtain ⟨rfl, rfl⟩ := hs₂
  refine Triple.cond (fun hset => Triple.ret fun s hs => ?_) fun hset => ?_
  · rw [Bool.not_eq_true'] at hset
    rw [if_neg (by rw [hset]; decide)] at hstep
    rw [hs]
    exact hstep
  · rw [Bool.not_eq_true', Bool.not_eq_false] at hset
    rw [if_pos hset] at hstep
    refine Triple.bind (Q := fun _ => InView cfg I v p ph) (Triple.update fun s hs => hs ▸ hstep)
      fun _ => ?_
    refine Triple.cond (fun _ => ?_) fun _ => Triple.ret fun _ hs => hs
    exact Triple.bind (triple_sendMsg hI) fun _ =>
      triple_ownVote hI .prepare (HandlerState.called_signs hset)

theorem triple_prepareComb :
    Triple (InView cfg I v p ph) (prepareComb cfg o) (fun _ => InView cfg I v p ph) (Stopped I) := by
  unfold prepareComb
  refine Triple.read_bind fun s₀ hs₀ => Triple.pre (P := InView cfg I v p ph) ?_ fun s hs => hs ▸ hs₀
  have htee : ∀ m ∈ s₀.log.getTEENewViewComb s₀.view cfg.tqsize, m.data.propv = v := fun m hm =>
    (ViewLog.viewOf_of_mem_get (List.mem_of_mem_take hm)).trans hs₀.view
  have hnon : ∀ m ∈ s₀.log.getNewViewComb s₀.view cfg.qsize, m.data.propv = v := fun m hm =>
    (ViewLog.viewOf_of_mem_get (List.mem_of_mem_take hm)).trans hs₀.view
  refine Triple.cond (fun _ => triple_processQC hI htee) fun _ => ?_
  refine Triple.cond (fun _ => triple_processQC hI fun m hm => ?_) fun _ => Triple.ret fun _ hs => hs
  rcases List.mem_append.mp ((mem_of_mem_mixed hm).resolve_left List.not_mem_nil) with hm | hm
  · exact htee m hm
  · exact hnon m hm

omit hI in
/-- Without a quorum of new-views there is no proposal. -/
theorem prepareComb_of_not_quorum {s : HandlerState}
    (h : cfg.newViewQuorum s.log s.view = false) : prepareComb cfg o s = .ok () s := by
  unfold HandlerConfig.newViewQuorum at h
  rw [Bool.or_eq_false_iff, decide_eq_false_iff_not, Nat.not_le] at h
  obtain ⟨hfast, hcount⟩ := h
  have hmixed : ∀ (msgs mixed : List MsgNewViewComb), (msgs.foldl (fun mixed msg =>
      if mixed.length < cfg.qsize then setInsert MsgNewViewComb.lt msg mixed else mixed)
        mixed).length ≤ mixed.length + msgs.length := by
    intro msgs
    induction msgs with
    | nil => exact fun mixed => le_rfl
    | cons msg msgs ih =>
      intro mixed
      have hstep := ih (if mixed.length < cfg.qsize then setInsert MsgNewViewComb.lt msg mixed
        else mixed)
      have hins : (if mixed.length < cfg.qsize then setInsert MsgNewViewComb.lt msg mixed
          else mixed).length ≤ mixed.length + 1 := by
        split
        · exact length_setInsert_le MsgNewViewComb.lt msg mixed
        · exact Nat.le_succ _
      rw [List.foldl_cons, List.length_cons]
      omega
  show (if (cfg.fastQC && _) = true then _ else _ : HandlerM Unit) s = _
  rw [if_neg (by rw [hfast]; decide)]
  have hlen := hmixed (s.log.getTEENewViewComb s.view cfg.tqsize ++
    s.log.getNewViewComb s.view cfg.qsize) []
  rw [List.length_append, List.length_nil] at hlen
  rw [if_neg (by omega)]
  rfl

omit hI in
/-- A new-view of another view does not count. -/
theorem newViewQuorum_store_of_ne {log : Log} {msg : MsgNewViewComb} {w : View}
    (h : w ≠ msg.data.propv) :
    cfg.newViewQuorum (if cfg.isTEE msg.sign.signer then (log.storeTEENvComb msg).2
      else (log.storeNvComb msg).2) w = cfg.newViewQuorum log w := by
  have htee : (log.storeTEENvComb msg).2.teeNewviewsComb.get w = log.teeNewviewsComb.get w :=
    ViewLog.get_store_of_ne h
  have hnon : (log.storeNvComb msg).2.newviewsComb.get w = log.newviewsComb.get w :=
    ViewLog.get_store_of_ne h
  unfold HandlerConfig.newViewQuorum Log.getTEENewViewComb Log.getNewViewComb
  split
  · rw [htee]
    rfl
  · rw [hnon]
    rfl

omit hI in
variable (cfg o) in
/-- What `handleNewviewComb` checks before it stores a message. -/
structure HandlerState.NewViewPasses (s : HandlerState) (msg : MsgNewViewComb) : Prop where
  view : msg.data.propv ≥ s.view
  leader : (cfg.leaderOf s.skippedLeaders msg.data.propv).1 = cfg.myid
  verified : verifyNewViewComb cfg (o.crypto s.calls) msg = true

omit hI in
variable (cfg) in
/-- The state after the leader of a view has been looked up. -/
def HandlerState.lookedUp (s : HandlerState) (v : View) : HandlerState :=
  { s with skippedLeaders := (cfg.leaderOf s.skippedLeaders v).2 }

omit hI in
variable (cfg) in
/-- The state after a new-view has been stored. -/
def HandlerState.storedNewView (s : HandlerState) (msg : MsgNewViewComb) : HandlerState :=
  { s.lookedUp cfg msg.data.propv with log := cfg.storeNewView s.log msg }

/-- A new-view that passes the checks is logged. -/
theorem KeptBy.newview {s₀ s₁ : HandlerState} {msg : MsgNewViewComb} (h : s₀.NewViewPasses cfg o msg)
    (hlogged : logged (.newview msg)) (hs₁ : s₁ = s₀ ∨ s₁ = s₀.lookedUp cfg msg.data.propv) (hs₀ : I s₀) :
    I { s₁ with log := cfg.storeNewView s₁.log msg } := by
  have hlogs : ∀ log m, (cfg.storeNewView log msg).Holds m → log.Holds m ∨ logged m := by
    intro log m hm
    refine (holds_storeNewView hm).imp_right ?_
    rintro rfl
    exact hlogged
  rcases hs₁ with rfl | rfl
  · exact hI.step s₁ _ ⟨.newview h.view h.verified, hlogs _⟩ hs₀
  · exact hI.step (s₀.lookedUp cfg msg.data.propv) _ ⟨.newview h.view h.verified, hlogs _⟩
      (hI.same (.lookup msg.data.propv) rfl hs₀)

/-- What holds in the state in which the message comes, if it does not pass the checks, and else in the
one in which it is stored, holds afterwards.  A replica that may not be misled takes up the leader's phase
only in a view that it leads. -/
theorem triple_handleNewviewComb {msg : MsgNewViewComb} {s₀ : HandlerState}
    (hpass : ¬ s₀.NewViewPasses cfg o msg → I s₀)
    (hstored : s₀.NewViewPasses cfg o msg → I (s₀.storedNewView cfg msg))
    (hmis : s₀.Misled cfg msg → misled) :
    Triple (fun s => s = s₀) (handleNewviewComb cfg o msg)
      (fun _ s => I s ∧ s.view = s₀.view ∧ s.leader cfg = s₀.leader cfg) (Stopped I) := by
  unfold handleNewviewComb
  refine Triple.read_bind fun s₁ hs₁ => ?_
  subst hs₁
  refine Triple.cond (fun hle => ?_) fun hlt => Triple.ret fun s hs => ?_
  swap
  · rw [hs]
    exact ⟨hpass fun h => hlt h.view, rfl, rfl⟩
  -- the lookup changes the skipped leaders only
  refine Triple.bind (Q := fun leader s => s = s₁.lookedUp cfg msg.data.propv ∧
      (leader = true ↔ (cfg.leaderOf s₁.skippedLeaders msg.data.propv).1 = cfg.myid))
    (fun s hs => ?_) fun leader => ?_
  · subst hs
    exact ⟨rfl, decide_eq_true_iff.trans eq_comm⟩
  refine triple_name fun s₂ hs₂ => ?_
  obtain ⟨rfl, hlead⟩ := hs₂
  refine Triple.cond (fun hcond => ?_) fun hcond => Triple.ret fun s hs => ?_
  · rw [Bool.and_eq_true] at hcond
    refine Triple.bind (Q := fun _ s => s = s₁.storedNewView cfg msg)
      (Triple.update fun s hs => hs ▸ rfl) fun _ => ?_
    refine Triple.read_bind fun s₃ hs₃ => ?_
    have hin : InView cfg I s₁.view (s₁.leader cfg) s₁.phase s₃ := by
      refine hs₃ ▸ ⟨hstored ⟨hle, hlead.mp hcond.1, hcond.2⟩, rfl, ?_, rfl⟩
      exact HandlerState.leader_eq rfl (Or.inr ⟨_, rfl⟩)
    refine Triple.cond (fun hquorum => ?_) fun _ => Triple.ret fun s hs =>
      hs ▸ ⟨hin.inv, hin.view, hin.leader⟩
    rw [Bool.and_eq_true, decide_eq_true_eq] at hquorum
    by_cases hp : s₁.leader cfg = cfg.myid ∨ misled
    · refine Triple.pre (P := InView cfg I s₁.view (s₁.leader cfg) .newview) ?_ fun s hs =>
        hs ▸ ⟨hin.inv, hin.view, hin.leader, hquorum.1⟩
      refine Triple.bind (triple_prepareComb hI) fun _ => Triple.update fun s hs => ?_
      split
      · next hmem =>
        refine ⟨hI.same (.lead hs.phase hmem (hp.imp_left hs.leader.trans)) rfl hs.inv, hs.view, ?_⟩
        exact hs.leader
      · exact ⟨hs.inv, hs.view, hs.leader⟩
    · -- the message is for a later view, and there is nothing to propose in this one
      rw [not_or] at hp
      have hne : s₁.view ≠ msg.data.propv := by
        intro hv
        rw [HandlerState.leader, hv] at hp
        exact hp.1 (hlead.mp hcond.1)
      have hphase : s₁.phase = .newview := by
        rw [hs₃] at hquorum
        exact hquorum.1
      have hcompletes : cfg.newViewQuorum (cfg.storeNewView s₁.log msg) msg.data.propv = true := by
        rw [hs₃] at hquorum
        exact hquorum.2
      have hready : ¬ (s₁.view ∈ s₁.processedNewViews ∨ cfg.newViewQuorum s₁.log s₁.view = true) :=
        fun hready => hp.2 (hmis ⟨lt_of_le_of_ne hle hne, hlead.mp hcond.1, hcompletes, hphase, hp.1,
          hready⟩)
      rw [not_or] at hready
      obtain ⟨hmem, hq⟩ := hready
      have hprepare : prepareComb cfg o s₃ = .ok () s₃ := by
        apply prepareComb_of_not_quorum
        rw [hin.view, hs₃]
        show cfg.newViewQuorum (cfg.storeNewView s₁.log msg) s₁.view = false
        rw [HandlerConfig.storeNewView, newViewQuorum_store_of_ne hne]
        exact Bool.not_eq_true _ ▸ hq
      refine Triple.bind (Q := fun _ s => s = s₃) (fun s hs => ?_) fun _ =>
        Triple.update fun s hs => ?_
      · rw [hs, hprepare]
      · have hunmarked : s.view ∉ s.processedNewViews := by
          rw [hs, hin.view, hs₃]
          exact hmem
        rw [if_neg hunmarked, hs]
        exact ⟨hin.inv, hin.view, hin.leader⟩
  · have hnot : ¬ s₁.NewViewPasses cfg o msg :=
      fun h => hcond (Bool.and_eq_true _ _ ▸ ⟨hlead.mpr h.leader, h.verified⟩)
    rw [hs]
    exact ⟨hI.same (.lookup msg.data.propv) rfl (hpass hnot), rfl,
      HandlerState.leader_eq rfl (Or.inr ⟨_, rfl⟩)⟩

/-- A new-view that may be logged. -/
theorem triple_logNewview {msg : MsgNewViewComb} {s₀ : HandlerState} (hs₀ : I s₀)
    (hlogged : s₀.NewViewPasses cfg o msg → logged (.newview msg)) (hmis : s₀.Misled cfg msg → misled) :
    Triple (fun s => s = s₀) (handleNewviewComb cfg o msg) (fun _ => I) (Stopped I) :=
  (triple_handleNewviewComb hI (fun _ => hs₀)
    (fun h => hI.newview h (hlogged h) (Or.inr rfl) hs₀) hmis).conseq
    (fun _ hs => hs) fun _ _ hs => hs.1

/-! ### The backup's vote -/

theorem triple_respondToLdrPrepareComb {block : Block} {acc : Accum} {proof : NewViewProofComb}
    (hacc : acc.view = v) :
    Triple (InView cfg I v p ph) (respondToLdrPrepareComb cfg o block acc proof)
      (fun _ => InView cfg I v p ph) (Stopped I) := by
  refine triple_name fun s₀ hs₀ => ?_
  -- the call and the stored block are one step
  have hstep : InView cfg I v p ph (s₀.preparedWith cfg o block acc (setNewViews proof)) := by
    have hprep : Step cfg o misled received s₀ (s₀.preparedWith cfg o block acc (setNewViews proof)) :=
      .prepare fun h => ((view_of_prepare_set h).acc_view.symm.trans hacc).trans hs₀.view.symm
    refine hs₀.step (hI.same hprep ?_ hs₀.inv) ?_ ?_ ?_
    all_goals
      unfold HandlerState.preparedWith
      dsimp only
      split <;> rfl
  unfold HandlerState.preparedWith at hstep
  dsimp only at hstep
  unfold respondToLdrPrepareComb
  refine Triple.bind (Q := fun j s =>
    s = (s₀.called cfg o (.prepare block acc (setNewViews proof))).2 ∧
      j = (s₀.called cfg o (.prepare block acc (setNewViews proof))).1.toJust)
    (fun s hs => hs ▸ ⟨rfl, rfl⟩) fun j => triple_name fun s₁ hs₁ => ?_
  obtain ⟨rfl, rfl⟩ := hs₁
  refine Triple.cond (fun hset => ?_) fun hset => Triple.ret fun s hs => ?_
  · rw [if_pos hset] at hstep
    refine Triple.bind (Q := fun _ => InView cfg I v p ph) (Triple.update fun s hs => hs ▸ hstep)
      fun _ => ?_
    refine Triple.bind (triple_getCurrentLeader hI) fun leader => ?_
    exact (triple_sendMsg hI).pre fun _ hs => hs.1
  · rw [if_neg hset] at hstep
    rw [hs]
    exact hstep

theorem triple_handleLdrPrepareComb {msg : MsgLdrPrepareComb} :
    Triple (InView cfg I v p ph) (handleLdrPrepareComb cfg o msg) (fun _ => InView cfg I v p ph)
      (Stopped I) := by
  unfold handleLdrPrepareComb verifyLdrPrepareComb
  simp only [bind_assoc, pure_bind]
  refine Triple.bind (triple_getLeaderOf hI) fun leader => ?_
  refine Triple.read_bind fun s₁ hs₁ => ?_
  refine Triple.read_bind fun s₀ hs₀ => Triple.pre (P := InView cfg I v p ph) ?_ fun s hs =>
    hs ▸ hs₀ ▸ hs₁.1
  have hview : s₀.view = v := hs₀ ▸ hs₁.1.view
  refine Triple.cond (fun _ => ?_) fun _ => Triple.ret fun _ hs => hs
  refine Triple.bind (triple_amLeaderOf hI) fun leader => Triple.pre (P := InView cfg I v p ph) ?_
    fun _ hs => hs.1
  refine Triple.cond (fun _ => ?_) fun _ => Triple.ret fun _ hs => hs
  refine Triple.cond (fun hv => ?_) fun _ => ?_
  · exact triple_respondToLdrPrepareComb hI (hv.trans hview)
  · exact triple_quiet hI (fun _ => rfl) fun s => Quiet.update s

theorem triple_replayProposal :
    Triple (InView cfg I v p ph) (replayProposal cfg o v) (fun _ => InView cfg I v p ph)
      (Stopped I) := by
  unfold replayProposal
  refine Triple.read_bind fun s₀ hs₀ => Triple.pre (P := InView cfg I v p ph) ?_ fun s hs => hs ▸ hs₀
  split
  · next msg hmsg =>
    refine Triple.cond (fun _ => ?_) fun _ => Triple.ret fun _ hs => hs
    exact triple_respondToLdrPrepareComb hI (Log.view_of_firstLdrPrepareComb hmsg)
  · exact Triple.ret fun _ hs => hs

/-! ### Certificates -/

/-- A certificate is sent and stored, and the replica logs its own vote of the next phase. -/
theorem triple_storeAndVote {msg : Msg} {recipients : List PID} {just : Just}
    {storeTEE store : Log → MsgVoteComb → ℕ × Log} (hstore : VoteStore storeTEE store)
    (hview : just.rdata.propv = v) :
    Triple (InView cfg I v p ph)
      (sendMsg msg recipients >>= fun _ => callTEEstoreComb cfg o just >>= fun justPc =>
        if justPc.set then
          modify fun s => { s with
            log := if cfg.isTEE cfg.myid then (storeTEE s.log ⟨justPc.rdata, justPc.signs⟩).2
              else (store s.log ⟨justPc.rdata, justPc.signs⟩).2 }
        else pure ())
      (fun _ => InView cfg I v p ph) (Stopped I) := by
  refine Triple.bind (triple_sendMsg hI) fun _ => ?_
  refine Triple.bind (triple_callTEEstoreComb hI hview) fun j => ?_
  refine Triple.cond (fun hset => triple_name fun s hs => ?_) fun _ => Triple.ret fun _ hs => hs.1
  exact (triple_ownVote hI hstore (hs.2 hset)).pre fun s' hs' => hs' ▸ hs.1

theorem triple_preCommitComb {data : RData} {qcType : QcType} (hview : data.propv = v) :
    Triple (InView cfg I v p ph) (preCommitComb cfg o data qcType) (fun _ => InView cfg I v p ph)
      (Stopped I) := by
  unfold preCommitComb
  refine Triple.read_bind fun s₀ hs₀ => Triple.pre (P := InView cfg I v p ph) ?_ fun s hs => hs ▸ hs₀
  exact Triple.cond (fun _ => triple_storeAndVote hI .precommit hview) fun _ =>
    Triple.ret fun _ hs => hs

theorem triple_commitComb {data : RData} {qcType : QcType} (hview : data.propv = v) :
    Triple (InView cfg I v p ph) (commitComb cfg o data qcType) (fun _ => InView cfg I v p ph)
      (Stopped I) := by
  unfold commitComb
  refine Triple.read_bind fun s₀ hs₀ => Triple.pre (P := InView cfg I v p ph) ?_ fun s hs => hs ▸ hs₀
  exact Triple.cond (fun _ => triple_storeAndVote hI .commit hview) fun _ =>
    Triple.ret fun _ hs => hs

theorem triple_respondToPreCommitComb {msg : MsgPreCommitComb} (hview : msg.data.propv = v) :
    Triple (InView cfg I v p ph) (respondToPreCommitComb cfg o msg) (fun _ => InView cfg I v p ph)
      (Stopped I) := by
  unfold respondToPreCommitComb
  refine Triple.bind (triple_callTEEstoreComb hI hview) fun j => ?_
  refine Triple.cond (fun _ => ?_) fun _ => Triple.ret fun _ hs => hs.1
  refine Triple.bind ((triple_getCurrentLeader hI).pre fun _ hs => hs.1) fun leader => ?_
  exact (triple_sendMsg hI).pre fun _ hs => hs.1

/-! ### Execution -/

omit hI in
/-- The new-view with which a view begins is signed by the replica itself. -/
theorem enterView_signer {s s' : HandlerState} {fuel : ℕ} {just : Just}
    (h : enterView cfg o fuel s = .ok just s') : (just.signs.get 0).signer = cfg.myid := by
  obtain ⟨n, -, rfl, -⟩ := enterView_ok h
  exact (HandlerState.called_signs (HandlerState.signature_set _)).2

omit hI in
/-- The replica is still in view `v` with leader `p`, or in a later view. -/
def After (cfg : HandlerConfig Key) (v : View) (p : PID) (s : HandlerState) : Prop :=
  v < s.view ∨ (s.view = v ∧ s.leader cfg = p)

omit hI in
theorem Step.after {s s' : HandlerState} (h : Step cfg o misled received s s') (hlt : s.tc.view < 2 ^ 32)
    (hs : After cfg v p s) : After cfg v p s' := by
  rcases h.view_cases with ⟨hview, hskip⟩ | ⟨-, -, fuel, just, henter⟩
  · unfold After
    rw [hview, HandlerState.leader_eq hview hskip]
    exact hs
  · left
    rw [(enterView_view henter hlt).1]
    rcases hs with hlt | ⟨heq, -⟩
    · exact Nat.lt_succ_of_lt hlt
    · exact heq ▸ Nat.lt_succ_self _

/-- To know in which view the replica ends, the invariant can be extended. -/
theorem KeptBy.after (v : View) (p : PID) :
    KeptBy cfg o misled received logged fun s => I s ∧ (After cfg v p s ∨ misled) := by
  constructor
  · intro s s' hstep hs
    refine ⟨hI.step s s' hstep hs.1, ?_⟩
    by_cases hm : misled
    · exact Or.inr hm
    · exact Or.inl (hstep.step.after (hI.bound.resolve_left hm s hs.1) (hs.2.resolve_right hm))
  · exact hI.bound.imp_right fun h s hs => h s hs.1
  · exact hI.own
  · exact fun s hs => hI.awaits s hs.1

omit hI in
/-- What is assumed of the function that executes: it keeps every invariant, when it is called with a
certificate that was accepted. -/
def Executes (cfg : HandlerConfig Key) (o : Oracle Key) (misled : Prop) (received logged : Msg → Prop)
    (exec : RData → HandlerM Unit) : Prop :=
  ∀ I, KeptBy cfg o misled received logged I → ∀ data,
    Triple (fun s => I s ∧ AcceptedQC cfg o received data s ∧ (s.Idle cfg ∨ misled)) (exec data) (fun _ => I)
      (Stopped I)

section Exec

variable {exec : RData → HandlerM Unit} (hexec : Executes cfg o misled received logged exec)
include hexec

/-- A certificate is sent and its data executed. -/
theorem triple_sendMsg_exec {data : RData} {msg : Msg} {recipients : List PID} {s₀ : HandlerState}
    (hs₀ : I s₀) (hqc : AcceptedQC cfg o received data s₀) (hidle : s₀.Idle cfg ∨ misled) :
    Triple (fun s => s = s₀) (sendMsg msg recipients >>= fun _ => exec data) (fun _ => I)
      (Stopped I) := by
  refine Triple.bind (Triple.update fun s hs => ?_) fun _ => hexec I hI data
  rw [hs]
  exact ⟨hI.quiet (Quiet.send s₀ _) hs₀, hqc, hidle⟩

/-- The leader has left its phase before it decides. -/
theorem triple_decideComb {data : RData} {qcType : QcType} (hp : p = cfg.myid) :
    Triple (InView cfg I data.propv p .newview) (decideComb cfg o exec data qcType) (fun _ => I)
      (Stopped I) := by
  unfold decideComb
  refine Triple.bind (triple_getCurrentLeader hI) fun leader => Triple.read_bind fun s₀ hs₀ => ?_
  obtain ⟨hs₀, rfl⟩ := hs₀
  have hidle : s₀.Idle cfg ∨ misled := Or.inl (Or.inl hs₀.phase)
  have hleader : s₀.leader cfg = cfg.myid := hs₀.leader.trans hp
  refine Triple.cond (fun htee => ?_) fun _ => ?_
  · refine Triple.cond (fun hqc => ?_) fun _ => Triple.ret fun _ hs => hs ▸ hs₀.inv
    refine triple_sendMsg_exec hI hexec hs₀.inv ⟨hs₀.view.symm, _, Or.inl
      ⟨hqc, hs₀.leader.symm ▸ htee, Or.inr ⟨hleader, ?_⟩⟩⟩ hidle
    cases qcType with
    | tee => exact Or.inl rfl
    | normal => exact Or.inr rfl
  · refine Triple.cond (fun hqc => ?_) fun _ => Triple.ret fun _ hs => hs ▸ hs₀.inv
    refine triple_sendMsg_exec hI hexec hs₀.inv ⟨hs₀.view.symm, _, Or.inr
      ⟨hqc, Or.inr ⟨hleader, ?_⟩⟩⟩ hidle
    cases qcType with
    | tee => exact Or.inl rfl
    | normal => exact Or.inr rfl

theorem triple_respondToPrepareComb {msg : MsgPrepareComb} (hp : p ≠ cfg.myid ∨ misled)
    (hreceived : received (.prepare msg)) :
    Triple (InView cfg I msg.data.propv p ph) (respondToPrepareComb cfg o exec msg)
      (fun _ s => I s ∧ (After cfg msg.data.propv p s ∨ misled)) (Stopped I) := by
  have hret : ∀ s, InView cfg I msg.data.propv p ph s →
      I s ∧ (After cfg msg.data.propv p s ∨ misled) := fun s hs =>
    ⟨hs.inv, Or.inl (Or.inr ⟨hs.view, hs.leader⟩)⟩
  unfold respondToPrepareComb
  refine Triple.bind (triple_getCurrentLeader hI) fun leader => Triple.read_bind fun s₀ hs₀ => ?_
  obtain ⟨hs₀, rfl⟩ := hs₀
  refine Triple.cond (fun hqc => ?_) fun _ => Triple.ret fun s hs => hret s (hs ▸ hs₀)
  refine Triple.cond (fun htee => ?_) fun _ => ?_
  · intro s hs
    have h := hexec _ (hI.after msg.data.propv leader) msg.data s (hs ▸ ⟨hret s₀ hs₀,
      ⟨hs₀.view.symm, _, Or.inl ⟨hqc, hs₀.leader.symm ▸ htee, Or.inl hreceived⟩⟩,
      hp.imp_left fun h => Or.inr (hs₀.leader ▸ h)⟩)
    cases hr : exec msg.data s with
    | ok a s' =>
      rw [hr] at h
      exact h
    | error e s' =>
      rw [hr] at h
      exact ⟨h.1.1, fun he => (h.2 he).1⟩
  · refine Triple.pre (P := InView cfg I msg.data.propv leader ph) ?_ fun s hs => hs ▸ hs₀
    refine Triple.bind (triple_callTEEstoreComb hI rfl) fun j => ?_
    refine Triple.cond (fun _ => ?_) fun _ => Triple.ret fun s hs => hret s hs.1
    refine Triple.bind ((triple_getCurrentLeader hI).pre fun _ hs => hs.1) fun leader => ?_
    exact (triple_sendMsg hI).conseq (fun _ hs => hs.1) fun _ s hs => hret s hs

theorem triple_respondToCommitComb {msg : MsgCommitComb} (hp : p ≠ cfg.myid ∨ misled)
    (hreceived : received (.commit msg)) :
    Triple (InView cfg I msg.data.propv p ph) (respondToCommitComb cfg o exec msg) (fun _ => I)
      (Stopped I) := by
  unfold respondToCommitComb
  refine Triple.read_bind fun s₀ hs₀ => ?_
  refine Triple.cond (fun hqc => ?_) fun _ => Triple.ret fun _ hs => hs ▸ hs₀.inv
  refine (hexec I hI msg.data).pre fun s hs => ?_
  rw [hs]
  exact ⟨hs₀.inv, ⟨hs₀.view.symm, _, Or.inr ⟨hqc, Or.inl hreceived⟩⟩, hp.imp_left fun h => Or.inr (hs₀.leader ▸ h)⟩

/-- The replayed certificates are filed under the view that starts. -/
theorem triple_replayQCs {block : Block} (hp : p ≠ cfg.myid ∨ misled) :
    Triple (InView cfg I v p ph) (replayQCs cfg o exec v block) (fun _ => I) (Stopped I) := by
  unfold replayQCs
  refine Triple.read_bind fun s₀ hs₀ => Triple.pre (P := InView cfg I v p ph) ?_ fun s hs => hs ▸ hs₀
  split
  · exact Triple.ret fun _ hs => hs.inv
  next qc _ hget =>
  have hmem : qc ∈ s₀.futurePrepareQCs.get v := hget ▸ List.mem_cons_self
  have hqc : qc.data.propv = v := s₀.futurePrepareQCs.viewOf_of_mem_get hmem
  have hawaits : s₀.Awaits (.prepare qc) := by
    show qc ∈ s₀.futurePrepareQCs.get qc.data.propv
    rw [hqc]
    exact hmem
  refine Triple.cond (fun _ => Triple.ret fun _ hs => hs.inv) fun _ => ?_
  refine Triple.bind (Q := fun _ => InView cfg I v p ph) (triple_quiet hI (fun _ => rfl) fun s => ?_) fun _ => ?_
  · exact Quiet.futures s (fun _ _ h => Or.inl (ViewLog.mem_of_mem_erase h)) (fun _ _ h => Or.inl h)
      fun _ _ h => Or.inl h
  refine Triple.bind (hqc ▸ triple_respondToPrepareComb hI hexec hp (hI.awaits s₀ hs₀.inv _ hawaits)) fun _ => ?_
  refine Triple.read_bind fun s₁ hs₁ => ?_
  refine Triple.cond (fun _ => Triple.ret fun _ hs => hs ▸ hs₁.1) fun hv => ?_
  rw [not_not] at hv
  -- the view goes on, with the same leader
  have hp₁ : s₁.leader cfg ≠ cfg.myid ∨ misled := by
    rcases hs₁.2 with (hlt | ⟨-, hleader⟩) | hm
    · rw [hv] at hlt
      exact absurd hlt (Nat.lt_irrefl v)
    · rw [hleader]
      exact hp
    · exact Or.inr hm
  have hin : InView cfg I v (s₁.leader cfg) s₁.phase s₁ := ⟨hs₁.1, hv, rfl, rfl⟩
  refine Triple.pre (P := InView cfg I v (s₁.leader cfg) s₁.phase) ?_ fun s hs => hs.symm ▸ hin
  split
  · exact Triple.ret fun _ hs => hs.inv
  next qc' _ hget' =>
  have hqc' : qc'.data.propv = v :=
    s₁.futurePreCommitQCs.viewOf_of_mem_get (hget' ▸ List.mem_cons_self)
  refine Triple.cond (fun _ => Triple.ret fun _ hs => hs.inv) fun _ => ?_
  refine Triple.bind (Q := fun _ => InView cfg I v (s₁.leader cfg) s₁.phase)
    (triple_quiet hI (fun _ => rfl) fun s => ?_) fun _ => ?_
  · exact Quiet.futures s (fun _ _ h => Or.inl h) (fun _ _ h => Or.inl (ViewLog.mem_of_mem_erase h))
      fun _ _ h => Or.inl h
  refine Triple.bind (triple_respondToPreCommitComb hI hqc') fun _ => ?_
  refine Triple.read_bind fun s₂ hs₂ => Triple.pre (P := InView cfg I v (s₁.leader cfg) s₁.phase) ?_
    fun s hs => hs ▸ hs₂
  split
  · exact Triple.ret fun _ hs => hs.inv
  next qc'' _ hget'' =>
  have hmem'' : qc'' ∈ s₂.futureCommitQCs.get v := hget'' ▸ List.mem_cons_self
  have hqc'' : qc''.data.propv = v := s₂.futureCommitQCs.viewOf_of_mem_get hmem''
  have hawaits'' : s₂.Awaits (.commit qc'') := by
    show qc'' ∈ s₂.futureCommitQCs.get qc''.data.propv
    rw [hqc'']
    exact hmem''
  refine Triple.cond (fun _ => Triple.ret fun _ hs => hs.inv) fun _ => ?_
  refine Triple.bind (Q := fun _ => InView cfg I v (s₁.leader cfg) s₁.phase)
    (triple_quiet hI (fun _ => rfl) fun s => ?_) fun _ => ?_
  · exact Quiet.futures s (fun _ _ h => Or.inl h) (fun _ _ h => Or.inl h)
      fun _ _ h => Or.inl (ViewLog.mem_of_mem_erase h)
  exact hqc'' ▸ triple_respondToCommitComb hI hexec hp₁ (hI.awaits s₂ hs₂.inv _ hawaits'')

/-- The leader stays in its view; a backup may execute. -/
theorem triple_handleEarlierMessagesComb :
    Triple (InView cfg I v p ph) (handleEarlierMessagesComb cfg o exec)
      (fun _ s => I s ∧ (p = cfg.myid → InView cfg I v p ph s)) (Stopped I) := by
  have hret : ∀ s, InView cfg I v p ph s → I s ∧ (p = cfg.myid → InView cfg I v p ph s) :=
    fun s hs => ⟨hs.inv, fun _ => hs⟩
  unfold handleEarlierMessagesComb
  refine Triple.bind (triple_amCurrentLeader hI) fun leader => ?_
  refine Triple.read_bind fun s₀ hs₀ => Triple.pre (P := InView cfg I v p ph) ?_ fun s hs => hs ▸ hs₀.1
  refine Triple.cond (fun _ => ?_) fun hleader => ?_
  · refine Triple.cond (fun _ => ?_) fun _ => Triple.ret fun s hs => hret s hs
    exact (triple_prepareComb hI).conseq (fun _ hs => hs) fun _ s hs => hret s hs
  · have hp : p ≠ cfg.myid := fun h => hleader (hs₀.2.mpr h)
    rw [hs₀.1.view]
    refine Triple.bind (triple_replayProposal hI) fun _ => ?_
    refine Triple.read_bind fun s₁ hs₁ => Triple.pre (P := InView cfg I v p ph) ?_ fun s hs => hs ▸ hs₁
    split
    · exact Triple.ret fun s hs => hret s hs
    · exact (triple_replayQCs hI hexec (Or.inl hp)).conseq (fun _ hs => hs) fun _ s hs =>
        ⟨hs, fun h => absurd h hp⟩

/-- The new-view is logged by the replica itself, or sent. -/
theorem triple_announceView {just : Just} (hsigner : (just.signs.get 0).signer = cfg.myid) :
    Triple I (announceView cfg o exec just) (fun _ => I) (Stopped I) := by
  refine triple_of_inView cfg fun v p ph => ?_
  unfold announceView
  refine Triple.read_bind fun s₀ hs₀ => Triple.pre (P := InView cfg I v p ph) ?_ fun s hs => hs ▸ hs₀
  refine Triple.cond (fun hjust => ?_) fun _ => Triple.ret fun _ hs => hs.inv
  rw [Bool.and_eq_true, Bool.and_eq_true, decide_eq_true_eq] at hjust
  refine Triple.bind (triple_getCurrentLeader hI) fun leader => triple_name fun s₁ hs₁ => ?_
  obtain ⟨hs₁, rfl⟩ := hs₁
  refine Triple.pre (P := InView cfg I v leader ph) ?_ fun s hs => hs ▸ hs₁
  refine Triple.cond (fun hleader => ?_) fun _ => ?_
  · refine Triple.bind (triple_handleEarlierMessagesComb hI hexec) fun _ => triple_name fun s₂ hs₂ => ?_
    have hs₂ := hs₂.2 hleader.symm
    refine triple_logNewview hI hs₂.inv (fun _ => hI.own _ hsigner) fun hmis => ?_
    -- the message is for this view
    have hlt : s₂.view < just.rdata.propv := hmis.later
    rw [hs₂.view, hjust.1.1, hs₀.view] at hlt
    exact absurd hlt (Nat.lt_irrefl v)
  · refine Triple.bind (triple_sendMsg hI) fun _ => ?_
    exact (triple_handleEarlierMessagesComb hI hexec).conseq (fun _ hs => hs) fun _ _ hs => hs.1

/-- A view is entered after an execution. -/
theorem triple_startNewViewComb {fuel : ℕ} {s₀ : HandlerState} (hs₀ : I s₀)
    (hidle : s₀.Idle cfg ∨ misled) (hdone : s₀.view ∈ s₀.processedCommit) :
    Triple (fun s => s = s₀) (startNewViewComb cfg o exec fuel) (fun _ => I) (Stopped I) := by
  rw [startNewViewComb_eq]
  refine Triple.bind (Q := fun just s => I s ∧ (just.signs.get 0).signer = cfg.myid) (fun s hs => ?_)
    fun just => Triple.given fun hsigner => Triple.cond (fun _ => triple_announceView hI hexec hsigner)
      fun _ => Triple.ret fun _ hs => hs
  subst hs
  cases henter : enterView cfg o fuel s with
  | ok just s' =>
    exact ⟨hI.same (.enter hidle hdone henter) (enterView_ok_log henter) hs₀, enterView_signer henter⟩
  | error e s' =>
    have hlog : s'.log = s.log := enterView_error_log henter
    exact ⟨hI.same (.hang hdone henter) hlog hs₀, fun he => absurd (enterView_outOfFuel henter) he⟩

end Exec

omit hI in
theorem mem_viewInsert (v : View) (l : List View) : v ∈ viewInsert v l := by
  unfold viewInsert
  split
  · next h => exact h
  · exact List.mem_cons_self

omit hI in
theorem mem_viewInsert_of_mem {v : View} {l : List View} (w : View) (h : v ∈ l) :
    v ∈ viewInsert w l := by
  unfold viewInsert
  split
  · exact h
  · exact List.mem_cons_of_mem w h

theorem triple_recordStats : Triple I recordStats (fun _ => I) (Stopped I) := by
  refine Triple.read_bind fun s₀ hs₀ => Triple.cond (fun _ => ?_) fun _ => ?_
  · exact Triple.raise fun s hs => stopped_of_inv hI (hs ▸ hs₀)
  · exact Triple.assign fun s _ => hI.quiet (Quiet.update s₀) hs₀

omit hI in
theorem executes_executeComb (fuel : ℕ) : Executes cfg o misled received logged (executeComb cfg o fuel) := by
  induction fuel with
  | zero => exact fun I hI data => Triple.raise fun _ hs => stopped_of_inv hI hs.1
  | succ fuel ih =>
    intro I hI data
    unfold executeComb
    refine Triple.read_bind fun s₀ hs₀ => ?_
    obtain ⟨hs₀, hqc, hidle⟩ := hs₀
    refine Triple.cond (fun _ => Triple.ret fun _ hs => hs ▸ hs₀) fun hnew => ?_
    split
    · exact Triple.ret fun _ hs => hs ▸ hs₀
    next block hblock =>
    refine Triple.cond (fun _ => Triple.ret fun _ hs => hs ▸ hs₀) fun hhash => ?_
    rw [Bool.not_eq_true', Bool.not_eq_false] at hhash
    have hexec := hI.same (.execute hqc hnew hblock hhash) rfl hs₀
    refine Triple.bind (Q := fun _ s => s = s₀.committed cfg o data block)
      (Triple.assign fun s _ => rfl) fun _ => ?_
    refine Triple.read_bind fun s₁ hs₁ => ?_
    subst hs₁
    refine Triple.cond (fun _ => ?_) fun _ => ?_
    · exact (triple_recordStats hI).pre fun s hs => hs ▸ hexec
    · refine triple_startNewViewComb hI ih hexec hidle ?_
      show s₀.view ∈ viewInsert data.propv s₀.processedCommit
      rw [← hqc.1]
      exact mem_viewInsert _ _

/-! ### Votes and certificates that arrive -/

theorem triple_setPhase {ph' : Phase1} (hmove : PhaseMove ph ph') (hp : p = cfg.myid) :
    Triple (InView cfg I v p ph) (setPhase ph') (fun _ => InView cfg I v p ph') (Stopped I) := by
  refine Triple.update fun s hs => ⟨?_, hs.view, hs.leader, rfl⟩
  exact hI.same (.phase (hs.phase.symm ▸ hmove) (hs.leader.trans hp)) rfl hs.inv

omit hI in
theorem size_of_verifyCombVote {cr : Crypto Key} {data : RData} {signs : Signs} {ph : Phase1}
    (h : verifyCombVote cfg cr data signs ph = true) : signs.size = 1 := by
  unfold verifyCombVote verifyCombSigns at h
  rw [Bool.and_eq_true] at h
  by_contra hsize
  simp [hsize] at h

omit hI in
variable (cfg o) in
/-- What the handlers of votes check before they store one: the replica leads the view, or the view is a later
one and the message is no certificate of it. -/
structure HandlerState.VotePasses (s : HandlerState) (ph : Phase1) (msg : MsgVoteComb) : Prop where
  place : (msg.data.propv = s.view ∧ s.leader cfg = cfg.myid) ∨
    (msg.data.propv > s.view ∧ verifyCombQC cfg (o.crypto s.calls) msg.data msg.signs ph = false)
  verified : verifyCombVote cfg (o.crypto s.calls) msg.data msg.signs ph = true

omit hI in
variable (cfg) in
/-- The state after a vote has been stored. -/
def HandlerState.storedVote (s : HandlerState) (storeTEE store : Log → MsgVoteComb → ℕ × Log)
    (msg : MsgVoteComb) : HandlerState :=
  { s with log := cfg.storeVote storeTEE store s.log msg }

omit hI in
theorem triple_countVote {storeTEE store : Log → MsgVoteComb → ℕ × Log}
    {getTEE get' : Log → View → ℕ → Signs} {msg : MsgVoteComb} {s₀ : HandlerState} :
    Triple (fun s => s = s₀) (countVote cfg storeTEE store getTEE get' msg)
      (fun _ s => s = s₀.storedVote cfg storeTEE store msg) (Stopped I) := by
  unfold countVote HandlerState.storedVote HandlerConfig.storeVote
  refine Triple.read_bind fun s hs => ?_
  subst hs
  refine Triple.cond (fun htee => ?_) fun htee => ?_
  · rw [if_pos htee]
    exact fun _ _ => rfl
  · rw [if_neg htee]
    exact fun _ _ => rfl

/-- The handlers of votes.  What holds in the state in which the message comes, if it does not pass the checks,
and else in the one in which it is stored, holds afterwards. -/
theorem triple_handleVote {storeTEE store : Log → MsgVoteComb → ℕ × Log}
    {getTEE get' : Log → View → ℕ → Signs} {msg : MsgVoteComb} {ph' : Phase1} {s₀ : HandlerState}
    {rest : ℕ × ℕ → HandlerM Unit} {backup : HandlerM Unit} {future : HandlerState → HandlerState}
    (hpass : ¬ s₀.VotePasses cfg o ph' msg → I s₀)
    (hstored : s₀.VotePasses cfg o ph' msg → ∀ s₁, s₁ = s₀ ∨ s₁ = s₀.lookedUp cfg msg.data.propv →
      I (s₁.storedVote cfg storeTEE store msg))
    (hrest : ∀ counts, Triple (InView cfg I msg.data.propv cfg.myid s₀.phase) (rest counts) (fun _ => I)
      (Stopped I))
    (hbackup : s₀.leader cfg ≠ cfg.myid →
      Triple (InView cfg I msg.data.propv (s₀.leader cfg) s₀.phase) backup (fun _ => I) (Stopped I))
    (hfuture : ∀ s, Quiet received s (future s)) :
    Triple (fun s => s = s₀)
      (if msg.data.propv = s₀.view then
        amLeaderOf cfg msg.data.propv >>= fun leader =>
          if leader then
            if verifyCombVote cfg (o.crypto s₀.calls) msg.data msg.signs ph' then
              countVote cfg storeTEE store getTEE get' msg >>= rest
            else pure ()
          else backup
      else if msg.data.propv > s₀.view then
        if verifyCombQC cfg (o.crypto s₀.calls) msg.data msg.signs ph' then modify future
        else if verifyCombVote cfg (o.crypto s₀.calls) msg.data msg.signs ph' then
          storeFutureVote cfg storeTEE store msg
        else pure ()
      else pure ()) (fun _ => I) (Stopped I) := by
  refine Triple.cond (fun hv => ?_) fun hv => Triple.cond (fun hlater => ?_) fun hlater => ?_
  · -- the current view: the leader counts the vote
    have hleader : (cfg.leaderOf s₀.skippedLeaders msg.data.propv).1 = s₀.leader cfg := hv ▸ rfl
    refine Triple.bind (Q := fun leader s => s = s₀.lookedUp cfg msg.data.propv ∧
      (leader = true ↔ s₀.leader cfg = cfg.myid)) (fun s hs => ?_) fun leader => triple_name fun s₁ hs₁ => ?_
    · subst hs
      rw [← hleader]
      exact ⟨rfl, decide_eq_true_iff.trans eq_comm⟩
    obtain ⟨rfl, hlead⟩ := hs₁
    refine Triple.cond (fun hl => ?_) fun hl => ?_
    · refine Triple.cond (fun hvote => ?_) fun hvote => Triple.ret fun s hs => ?_
      · refine Triple.bind triple_countVote fun counts => (hrest counts).pre fun s hs => ?_
        rw [hs]
        have hsame : (s₀.lookedUp cfg msg.data.propv).leader cfg = s₀.leader cfg :=
          HandlerState.leader_eq rfl (Or.inr ⟨_, rfl⟩)
        exact ⟨hstored ⟨Or.inl ⟨hv, hlead.mp hl⟩, hvote⟩ _ (Or.inr rfl), hv.symm,
          hsame.trans (hlead.mp hl), rfl⟩
      · rw [hs]
        exact hI.same (.lookup msg.data.propv) rfl (hpass fun h => hvote h.verified)
    · have hnot : ¬ s₀.VotePasses cfg o ph' msg := by
        intro h
        rcases h.place with ⟨-, hmine⟩ | ⟨hlater, -⟩
        · exact hl (hlead.mpr hmine)
        · exact absurd hv (Nat.ne_of_gt hlater)
      refine (hbackup fun h => hl (hlead.mpr h)).pre fun s hs => ?_
      rw [hs]
      exact ⟨hI.same (.lookup msg.data.propv) rfl (hpass hnot), hv.symm,
        HandlerState.leader_eq rfl (Or.inr ⟨_, rfl⟩), rfl⟩
  · -- a later view: the message is kept, as a certificate or as a vote
    refine Triple.cond (fun hqc => ?_) fun hqc => ?_
    · refine Triple.update fun s hs => hI.quiet (hfuture s) (hs ▸ hpass fun h => ?_)
      rcases h.place with ⟨hcurrent, -⟩ | ⟨-, hno⟩
      · exact hv hcurrent
      · exact Bool.false_ne_true (hno.symm.trans hqc)
    · rw [Bool.not_eq_true] at hqc
      refine Triple.cond (fun hvote => ?_) fun hvote => Triple.ret fun s hs => hs ▸ hpass fun h => ?_
      · refine Triple.update fun s hs => ?_
        rw [hs]
        exact hstored ⟨Or.inr ⟨hlater, hqc⟩, hvote⟩ s₀ (Or.inl rfl)
      · exact hvote h.verified
  · refine Triple.ret fun s hs => hs ▸ hpass fun h => ?_
    rcases h.place with ⟨hcurrent, -⟩ | ⟨hgt, -⟩
    · exact hv hcurrent
    · exact hlater hgt

/-- A vote that passes the checks is logged. -/
theorem KeptBy.storedVote {storeTEE store : Log → MsgVoteComb → ℕ × Log} {msg : MsgVoteComb} {ph' : Phase1}
    {s₀ s₁ : HandlerState} (hstore : VoteStore storeTEE store) (hpasses : s₀.VotePasses cfg o ph' msg)
    (hlogs : ∀ m, (cfg.storeVote storeTEE store s₁.log msg).Holds m → s₁.log.Holds m ∨ logged m)
    (hs₁ : s₁ = s₀ ∨ s₁ = s₀.lookedUp cfg msg.data.propv) (hs₀ : I s₀) :
    I (s₁.storedVote cfg storeTEE store msg) := by
  refine hI.vote hstore (size_of_verifyCombVote hpasses.verified) hlogs ?_
  rcases hs₁ with rfl | rfl
  · exact hs₀
  · exact hI.same (.lookup msg.data.propv) rfl hs₀

theorem triple_handlePrepareComb {fuel : ℕ} {msg : MsgPrepareComb} {s₀ : HandlerState}
    (hpass : ¬ s₀.VotePasses cfg o .prepare msg → I s₀)
    (hstored : s₀.VotePasses cfg o .prepare msg → ∀ s₁, s₁ = s₀ ∨ s₁ = s₀.lookedUp cfg msg.data.propv →
      I (s₁.storedVote cfg Log.storeTEEPrepComb Log.storePrepComb msg))
    (hreceived : received (.prepare msg)) :
    Triple (fun s => s = s₀) (handlePrepareComb cfg o fuel msg) (fun _ => I) (Stopped I) := by
  have hexec : Executes cfg o misled received logged (executeComb cfg o fuel) := executes_executeComb fuel
  -- the leader's decision, once there are enough votes of either kind
  have hdecide : ∀ qcType, Triple (InView cfg I msg.data.propv cfg.myid .prepare)
      (getCurrentLeader cfg >>= fun leader =>
      if cfg.isTEE leader then
        setPhase .newview >>= fun _ => decideComb cfg o (executeComb cfg o fuel) msg.data qcType
      else setPhase .precommit >>= fun _ => preCommitComb cfg o msg.data qcType) (fun _ => I)
      (Stopped I) := by
    intro qcType
    refine Triple.bind (triple_getCurrentLeader hI) fun leader => ?_
    refine Triple.pre (P := InView cfg I msg.data.propv cfg.myid .prepare) ?_ fun _ hs => hs.1
    refine Triple.cond (fun _ => ?_) fun _ => ?_
    · exact Triple.bind (triple_setPhase hI .decide rfl) fun _ => triple_decideComb hI hexec rfl
    · exact Triple.bind (triple_setPhase hI .precommit rfl) fun _ =>
        (triple_preCommitComb hI rfl).conseq (fun _ hs => hs) fun _ _ hs => hs.inv
  unfold handlePrepareComb
  refine Triple.read_bind fun s hs => ?_
  subst hs
  refine triple_handleVote hI hpass hstored (fun counts => ?_) (fun hp => ?_) fun s => Quiet.futures s
    (mem_get_insert_received hreceived) (fun _ _ h => Or.inl h)
    fun _ _ h => Or.inl h
  · refine Triple.cond (fun h => ?_) fun _ => Triple.cond (fun h => ?_) fun _ =>
      Triple.ret fun _ hs => hs.inv
    · simp only [Bool.and_eq_true, decide_eq_true_eq] at h
      exact h.2 ▸ hdecide .tee
    · simp only [Bool.and_eq_true, decide_eq_true_eq] at h
      exact h.2 ▸ hdecide .normal
  · refine Triple.cond (fun _ => ?_) fun _ => Triple.ret fun _ hs => hs.inv
    exact (triple_respondToPrepareComb hI hexec (Or.inl hp) hreceived).conseq (fun _ hs => hs) fun _ _ hs => hs.1

theorem triple_handlePreCommitComb {msg : MsgPreCommitComb} {s₀ : HandlerState}
    (hpass : ¬ s₀.VotePasses cfg o .precommit msg → I s₀)
    (hstored : s₀.VotePasses cfg o .precommit msg → ∀ s₁, s₁ = s₀ ∨ s₁ = s₀.lookedUp cfg msg.data.propv →
      I (s₁.storedVote cfg Log.storeTEEPcComb Log.storePcComb msg))
    (hreceived : received (.precommit msg)) :
    Triple (fun s => s = s₀) (handlePreCommitComb cfg o msg) (fun _ => I) (Stopped I) := by
  have hcommit : ∀ qcType, Triple (InView cfg I msg.data.propv cfg.myid .precommit)
      (setPhase .commit >>= fun _ => commitComb cfg o msg.data qcType) (fun _ => I) (Stopped I) :=
    fun qcType => Triple.bind (triple_setPhase hI .commit rfl) fun _ =>
      (triple_commitComb hI rfl).conseq (fun _ hs => hs) fun _ _ hs => hs.inv
  unfold handlePreCommitComb
  refine Triple.read_bind fun s hs => ?_
  subst hs
  refine triple_handleVote hI hpass hstored (fun counts => ?_) (fun _ => ?_) fun s => Quiet.futures s
    (fun _ _ h => Or.inl h) (mem_get_insert_received hreceived)
    fun _ _ h => Or.inl h
  · refine Triple.cond (fun h => ?_) fun _ => Triple.cond (fun h => ?_) fun _ =>
      Triple.ret fun _ hs => hs.inv
    · simp only [Bool.and_eq_true, decide_eq_true_eq] at h
      exact h.2 ▸ hcommit .tee
    · simp only [Bool.and_eq_true, decide_eq_true_eq] at h
      exact h.2 ▸ hcommit .normal
  · refine Triple.cond (fun _ => ?_) fun _ => Triple.ret fun _ hs => hs.inv
    exact (triple_respondToPreCommitComb hI rfl).conseq (fun _ hs => hs) fun _ _ hs => hs.inv

theorem triple_handleCommitComb {fuel : ℕ} {msg : MsgCommitComb} {s₀ : HandlerState}
    (hpass : ¬ s₀.VotePasses cfg o .commit msg → I s₀)
    (hstored : s₀.VotePasses cfg o .commit msg → ∀ s₁, s₁ = s₀ ∨ s₁ = s₀.lookedUp cfg msg.data.propv →
      I (s₁.storedVote cfg Log.storeTEEComComb Log.storeComComb msg))
    (hreceived : received (.commit msg)) :
    Triple (fun s => s = s₀) (handleCommitComb cfg o fuel msg) (fun _ => I) (Stopped I) := by
  have hexec : Executes cfg o misled received logged (executeComb cfg o fuel) := executes_executeComb fuel
  have hdecide : ∀ qcType, Triple (InView cfg I msg.data.propv cfg.myid .commit)
      (setPhase .newview >>= fun _ =>
        decideComb cfg o (executeComb cfg o fuel) msg.data qcType) (fun _ => I) (Stopped I) :=
    fun qcType => Triple.bind (triple_setPhase hI .finish rfl) fun _ => triple_decideComb hI hexec rfl
  unfold handleCommitComb
  refine Triple.read_bind fun s hs => ?_
  subst hs
  refine triple_handleVote hI hpass hstored (fun counts => ?_) (fun hp => ?_) fun s => Quiet.futures s
    (fun _ _ h => Or.inl h) (fun _ _ h => Or.inl h)
    (mem_get_insert_received hreceived)
  · refine Triple.cond (fun h => ?_) fun _ => Triple.cond (fun h => ?_) fun _ =>
      Triple.ret fun _ hs => hs.inv
    · simp only [Bool.and_eq_true, decide_eq_true_eq] at h
      exact h.2 ▸ hdecide .tee
    · simp only [Bool.and_eq_true, decide_eq_true_eq] at h
      exact h.2 ▸ hdecide .normal
  · refine Triple.cond (fun _ => ?_) fun _ => Triple.ret fun _ hs => hs.inv
    exact triple_respondToCommitComb hI hexec (Or.inl hp) hreceived

/-! ### Inputs -/

/-- The start message, from the state in which the component has signed. -/
theorem triple_handleStart {s₀ : HandlerState} {cid : CID} (hstart : s₀.started = false)
    (hs₀ : I ((s₀.greeted cfg cid).called cfg o .sign).2) :
    Triple (fun s => s = s₀) (handleStart cfg o cid) (fun _ => I) (Stopped I) := by
  unfold handleStart getStarted
  refine Triple.read_bind fun s₁ hs₁ => ?_
  subst hs₁
  refine Triple.bind (Q := fun _ s => s = { s₁ with
      clients := if (s₁.clients.lookup cid).isSome then s₁.clients else s₁.clients.insert cid true
      started := true }) (Triple.assign fun _ _ => rfl) fun _ => ?_
  refine Triple.cond (fun h => absurd h (by rw [hstart]; decide)) fun _ => ?_
  refine Triple.bind (Q := fun _ s => s = { s₁ with
      clients := if (s₁.clients.lookup cid).isSome then s₁.clients else s₁.clients.insert cid true
      started := true
      skippedLeaders := (cfg.leaderOf s₁.skippedLeaders s₁.view).2 }) (fun s hs => hs ▸ rfl)
    fun leader => ?_
  refine Triple.read_bind fun s₂ hs₂ => ?_
  subst hs₂
  refine Triple.bind (Q := fun _ s => s = s₁.greeted cfg cid) (fun s hs => ?_) fun _ => ?_
  · subst hs
    rfl
  refine Triple.bind (Q := fun j s => I s ∧ (j.signs.get 0).signer = cfg.myid) (fun s hs => ?_)
    fun j => Triple.given fun hsigner => ?_
  · subst hs
    exact ⟨hs₀, (HandlerState.called_signs (HandlerState.signature_set _)).2⟩
  -- the component has signed
  refine triple_of_inView cfg fun v p ph => ?_
  refine Triple.cond (fun _ => ?_) fun _ => Triple.ret fun _ hs => hs.inv
  refine Triple.bind (triple_amCurrentLeader hI) fun amLeader => triple_name fun s₃ hs₃ => ?_
  refine Triple.cond (fun hleader => ?_) fun _ => ?_
  · refine triple_logNewview hI hs₃.1.inv (fun _ => hI.own _ hsigner) fun hmis => ?_
    exact absurd (hs₃.1.leader.trans (hs₃.2.mp hleader)) hmis.follows
  · exact (triple_sendMsg hI).conseq (fun _ hs => hs ▸ hs₃.1) fun _ _ hs => hs.inv

omit hI in
/-- The view of a message. -/
def Msg.view : Msg → View
  | newview m => m.data.propv
  | ldrprepare m => m.acc.view
  | prepare m => m.data.propv
  | precommit m => m.data.propv
  | commit m => m.data.propv

omit hI in
variable (cfg o) in
/-- What is checked of a message before it is logged. -/
def HandlerState.Passes (s : HandlerState) : Msg → Prop
  | .newview m => s.NewViewPasses cfg o m
  | .ldrprepare _ => False
  | .prepare m => s.VotePasses cfg o .prepare m
  | .precommit m => s.VotePasses cfg o .precommit m
  | .commit m => s.VotePasses cfg o .commit m

omit hI in
variable (cfg) in
/-- The log with a message. -/
def HandlerConfig.storeMsg (log : Log) : Msg → Log
  | .newview m => cfg.storeNewView log m
  | .ldrprepare _ => log
  | .prepare m => cfg.storeVote Log.storeTEEPrepComb Log.storePrepComb log m
  | .precommit m => cfg.storeVote Log.storeTEEPcComb Log.storePcComb log m
  | .commit m => cfg.storeVote Log.storeTEEComComb Log.storeComComb log m

/-- A message that passes the checks is logged. -/
theorem KeptBy.storedMsg {s₀ s₁ : HandlerState} {msg : Msg} (hpasses : s₀.Passes cfg o msg)
    (hlogged : logged msg) (hs₁ : s₁ = s₀ ∨ s₁ = s₀.lookedUp cfg msg.view) (hs₀ : I s₀) :
    I { s₁ with log := cfg.storeMsg s₁.log msg } := by
  cases msg with
  | newview msg => exact hI.newview hpasses hlogged hs₁ hs₀
  | ldrprepare msg => exact hpasses.elim
  | prepare msg =>
    refine hI.storedVote .prepare hpasses (fun m hm => (holds_storePrepare hm).imp_right ?_) hs₁ hs₀
    rintro rfl
    exact hlogged
  | precommit msg =>
    refine hI.storedVote .precommit hpasses (fun m hm => (holds_storePrecommit hm).imp_right ?_) hs₁ hs₀
    rintro rfl
    exact hlogged
  | commit msg =>
    refine hI.storedVote .commit hpasses (fun m hm => (holds_storeCommit hm).imp_right ?_) hs₁ hs₀
    rintro rfl
    exact hlogged

/-- The handlers of messages. -/
theorem triple_handlePeer {fuel : ℕ} {msg : Msg} {s₀ : HandlerState}
    (hpass : ¬ s₀.Passes cfg o msg → I s₀)
    (hstored : s₀.Passes cfg o msg → ∀ s₁, s₁ = s₀ ∨ s₁ = s₀.lookedUp cfg msg.view →
      I { s₁ with log := cfg.storeMsg s₁.log msg })
    (hreceived : received msg) (hmis : ∀ m, msg = .newview m → s₀.Misled cfg m → misled) :
    Triple (fun s => s = s₀) (handle cfg o fuel (.peer msg)) (fun _ => I) (Stopped I) := by
  cases msg with
  | newview msg =>
    exact (triple_handleNewviewComb hI hpass (fun h => hstored h _ (Or.inr rfl)) (hmis msg rfl)).conseq
      (fun _ hs => hs) fun _ _ hs => hs.1
  | ldrprepare msg =>
    refine (triple_of_inView cfg fun v p ph =>
      (triple_handleLdrPrepareComb hI).conseq (fun _ hs => hs) fun _ _ hs => hs.inv).pre ?_
    exact fun s' hs' => hs'.symm ▸ hpass id
  | prepare msg => exact triple_handlePrepareComb hI hpass hstored hreceived
  | precommit msg => exact triple_handlePreCommitComb hI hpass hstored hreceived
  | commit msg => exact triple_handleCommitComb hI hpass hstored hreceived

omit hI in
/-- A reaction is what the handler does. -/
theorem react_of_handle {s : HandlerState} {fuel : ℕ} {input : Input} (hstop : s.stopped = false)
    (htimer : (input.isTimeout && !s.timer) = false)
    (h : Triple (fun s' => s' = s) (handle cfg o fuel input) (fun _ => I) (Stopped I)) :
    I (s.react cfg o fuel input) := by
  have hend := h s rfl
  unfold HandlerState.react
  rw [if_neg (by rw [hstop]; decide), if_neg (by rw [htimer]; decide)]
  split
  · next heq => rwa [heq] at hend
  · next e s' heq =>
    rw [heq] at hend
    by_cases hends : e.ends input.isTimeout = true
    · rw [if_pos hends]
      exact hend.1
    · rw [if_neg hends]
      refine hend.2 fun he => hends ?_
      rw [he]
      rfl

/-- **Messages.**  What holds after a message is stored, or if it is not, holds after the reaction to it. -/
theorem react_peer {s : HandlerState} (fuel : ℕ) {msg : Msg} (hstop : s.stopped = false)
    (hpass : ¬ s.Passes cfg o msg → I s)
    (hstored : s.Passes cfg o msg → ∀ s₁, s₁ = s ∨ s₁ = s.lookedUp cfg msg.view →
      I { s₁ with log := cfg.storeMsg s₁.log msg })
    (hreceived : received msg) (hmis : ∀ m, msg = .newview m → s.Misled cfg m → misled) :
    I (s.react cfg o fuel (.peer msg)) :=
  react_of_handle hstop rfl (triple_handlePeer hI hpass hstored hreceived hmis)

/-- **Inputs.**  What holds after the beginning of an input and is kept by the steps holds after the
reaction to the input. -/
theorem react_keptBy {s : HandlerState} (fuel : ℕ) (input : Input)
    (hbegin : ∀ s₁, Begin cfg o s input s₁ → I s₁)
    (hlogged : ∀ msg, input = .peer msg → s.Passes cfg o msg → logged msg)
    (hreceived : ∀ msg, input = .peer msg → received msg)
    (hmis : ∀ msg, input = .peer (.newview msg) → s.Misled cfg msg → misled) :
    I (s.react cfg o fuel input) := by
  cases hrun : s.stopped with
  | true =>
    unfold HandlerState.react
    rw [if_pos hrun]
    exact hbegin s (.stopped hrun)
  | false => ?_
  cases htimer : input.isTimeout && !s.timer with
  | true =>
    unfold HandlerState.react
    rw [if_neg (by rw [hrun]; decide), if_pos htimer]
    rw [Bool.and_eq_true, Bool.not_eq_true'] at htimer
    refine hbegin s (.other (fun _ => htimer.2) fun cid hcid => ?_)
    rw [hcid] at htimer
    exact absurd htimer.1 Bool.false_ne_true
  | false => ?_
  have hhandle : Triple (fun s' => s' = s) (handle cfg o fuel input) (fun _ => I) (Stopped I) := by
    cases input with
    | peer msg =>
      have hs : I s := hbegin s (.other nofun nofun)
      exact triple_handlePeer hI (fun _ => hs)
        (fun hpasses s₁ hs₁ => hI.storedMsg hpasses (hlogged msg rfl hpasses) hs₁ hs) (hreceived msg rfl)
        fun m hm => hmis m (congrArg Input.peer hm)
    | start cid =>
      cases hstart : s.started with
      | false => exact triple_handleStart hI hstart (hbegin _ (.start hrun hstart))
      | true =>
        -- only the first start message does anything
        have hs : I s := hbegin s (.other nofun fun _ _ => hstart)
        refine Triple.read_bind fun s₁ hs₁ => ?_
        subst hs₁
        refine Triple.bind (Q := fun _ => I) (Triple.assign fun _ _ => ?_) fun _ =>
          Triple.cond (fun _ => Triple.ret fun _ hs => hs) fun h => absurd hstart h
        rw [← hstart]
        exact hI.quiet (Quiet.update s₁) hs
    | transaction t =>
      have hs : I s := hbegin s (.other nofun nofun)
      refine Triple.update fun s' hs' => ?_
      rw [hs']
      split
      · exact hI.quiet (Quiet.update s) hs
      · exact hs
    | timeout =>
      have htimer : s.timer = true := by simpa [Input.isTimeout] using htimer
      show Triple _ (startNewViewOnTimeout cfg o fuel) _ _
      unfold startNewViewOnTimeout
      rw [startNewViewComb_eq]
      refine Triple.bind (Q := fun _ s' => s' = s.skipLeader cfg) (Triple.update fun s' hs' => ?_)
        fun _ => ?_
      · rw [hs']
        rfl
      refine Triple.bind (Q := fun just s => I s ∧ (just.signs.get 0).signer = cfg.myid)
        (fun s' hs' => ?_) fun just => Triple.given fun hsigner =>
          Triple.cond (fun _ => triple_announceView hI (executes_executeComb fuel) hsigner) fun _ =>
            Triple.ret fun _ hs => hs
      subst hs'
      cases henter : enterView cfg o fuel (s.skipLeader cfg) with
      | ok just s' => exact ⟨hbegin _ (.timeout hrun htimer henter), enterView_signer henter⟩
      | error e s' =>
        exact ⟨hbegin _ (.hang hrun htimer henter), fun he => absurd (enterView_outOfFuel henter) he⟩
  exact react_of_handle hrun htimer hhandle

end Triples

/-- The same for what every step keeps. -/
theorem react_kept (hI : Kept cfg o misled I) {s : HandlerState} (fuel : ℕ) (input : Input)
    (hbegin : ∀ s₁, Begin cfg o s input s₁ → I s₁)
    (hmis : ∀ msg, input = .peer (.newview msg) → s.Misled cfg msg → misled) :
    I (s.react cfg o fuel input) :=
  react_keptBy hI.by fuel input hbegin (fun _ _ _ => trivial) (fun _ _ => trivial) hmis

end Raftel
