import Raftel.Equiv.Damysus
import Raftel.Equiv.Log
import Raftel.Equiv.Steps

/-!
# What a Damysus replica can do

`Atom` lists the changes that matter to the protocol, each with what the source checked before it;
everything else in a step of a handler is a `frame`.  A triple for each function of the handlers says
that it keeps what every atom keeps.  Within a view the view and the assumed leader stay the same
(`InView`), which is what the guards of the atoms need.

* `react_keeps` : what every atom keeps, every handler keeps, on every input
-/

namespace Raftel.Damysus

open Lib

variable {Key : Type}

/-! ### Atoms -/

section Defs

variable (cfg : HandlerConfig Key) (o : Oracle Key)

/-- The leader that the replica takes for the one of its view. -/
def State.leader (s : State) : PID := (leaderOf cfg s.skippedLeaders s.view).1

/-- The state after a call of `TEEprepare`: an accepted block is stored under the replica's view. -/
def State.preparedWith (s : State) (block : Block) (acc : Accum) : State :=
  let (reply, s') := s.called cfg o (.prepare (block.hash o.sha256) acc)
  if reply.toJust.set then { s' with blocks := s'.blocks.insert s'.view block } else s'

/-- A certificate that lets the replica execute `data` was accepted: `data` is for the current view,
and the certificate is of phase `prepare` and the leader a TEE node, or it is of phase `commit`. -/
def AcceptedQC (data : RData) (s : State) : Prop :=
  data.propv = s.view ∧ ∃ signs,
    (verifyCombQC cfg (o.crypto s.calls) data signs .prepare = true ∧
        cfg.isTEE (s.leader cfg) = true) ∨
      verifyCombQC cfg (o.crypto s.calls) data signs .commit = true

/-- The log with a new-view. -/
def storeNewView (log : Log) (msg : MsgNewViewComb) : Log :=
  if cfg.isTEE msg.sign.signer then (log.storeTEENvComb msg).2 else (log.storeNvComb msg).2

end Defs

/-- The log holds the new-view. -/
def HasNewView (log : Log) (m : MsgNewViewComb) : Prop :=
  ∃ v, m ∈ log.newviewsComb.get v ∨ m ∈ log.teeNewviewsComb.get v

/-- A step that changes none of the following, and adds no `precommit` certificate that came early. -/
structure Frame (s s' : State) : Prop where
  tee : s'.tee = s.tee
  calls : s'.calls = s.calls
  blocks : s'.blocks = s.blocks
  executed : s'.executed = s.executed
  processedCommit : s'.processedCommit = s.processedCommit
  newviews : s'.log.newviewsComb = s.log.newviewsComb
  teeNewviews : s'.log.teeNewviewsComb = s.log.teeNewviewsComb
  proposals : s'.log.ldrpreparesComb = s.log.ldrpreparesComb
  qcs : ∀ v, ∀ m ∈ s'.futurePreCommitQCs.get v, m ∈ s.futurePreCommitQCs.get v

/-- The updates that are frames. -/
theorem Frame.update (s : State) {view : View} {phase : Phase1} {skippedLeaders : List PID}
    {processedNewViews : List View} {prepares commits : VoteLog} {transactions : List Transaction}
    {clients : StdMap CID Bool} {started joined stopped timer : Bool} {out : List (Msg × List PID)} :
    Frame s { s with
      view := view
      phase := phase
      skippedLeaders := skippedLeaders
      processedNewViews := processedNewViews
      futurePrepareQCs := prepares
      futureCommitQCs := commits
      transactions := transactions
      clients := clients
      started := started
      joined := joined
      stopped := stopped
      timer := timer
      out := out } :=
  ⟨rfl, rfl, rfl, rfl, rfl, rfl, rfl, rfl, fun _ _ h => h⟩

/-- The function stores votes: it leaves the new-views and the proposals. -/
def StoresVotes (store : Log → MsgVoteComb → ℕ × Log) : Prop :=
  ∀ log msg, (store log msg).2.newviewsComb = log.newviewsComb ∧
    (store log msg).2.teeNewviewsComb = log.teeNewviewsComb ∧
    (store log msg).2.ldrpreparesComb = log.ldrpreparesComb

theorem Frame.vote {store : Log → MsgVoteComb → ℕ × Log} (h : StoresVotes store) (s : State)
    (msg : MsgVoteComb) : Frame s { s with log := (store s.log msg).2 } :=
  ⟨rfl, rfl, rfl, rfl, rfl, (h s.log msg).1, (h s.log msg).2.1, (h s.log msg).2.2, fun _ _ h => h⟩

/-- The atomic changes of a replica. -/
inductive Atom (cfg : HandlerConfig Key) (o : Oracle Key) : State → State → Prop
  | frame {s s' : State} (h : Frame s s') : Atom cfg o s s'
  | sign {s : State} : Atom cfg o s (s.called cfg o .sign).2
  | accum {s : State} {js : OneJusts} : Atom cfg o s (s.called cfg o (.accum js)).2
  | accumSp {s : State} {just : Just} {m : MsgNewViewComb} (hlog : HasNewView s.log m)
      (hdata : just.rdata = m.data) : Atom cfg o s (s.called cfg o (.accumSp just)).2
  | prepare {s : State} {block : Block} {acc : Accum}
      (hparent : block.prevHash.hash = acc.hash.hash) : Atom cfg o s (s.preparedWith cfg o block acc)
  | store {s : State} {just : Just}
      (hleader : just.rdata.phase = Phase1.prepare.byte → cfg.isTEE (s.leader cfg) = false) :
      Atom cfg o s (s.called cfg o (.store just)).2
  | logNewView {s : State} {msg : MsgNewViewComb}
      (hverify : verifyNewViewComb cfg (o.crypto s.calls) msg = true) :
      Atom cfg o s { s with log := storeNewView cfg s.log msg }
  | logProposal {s : State} {msg : MsgLdrPrepareComb}
      (hparent : msg.block.prevHash.hash = msg.acc.hash.hash) :
      Atom cfg o s { s with log := (s.log.storeLdrPrepComb msg).2 }
  | keepQC {s : State} {msg : MsgPreCommitComb} (hphase : msg.data.phase = Phase1.precommit.byte) :
      Atom cfg o s { s with futurePreCommitQCs := s.futurePreCommitQCs.insert MsgVoteComb.lt msg }
  | execute {s : State} {data : RData} {block : Block} (hqc : AcceptedQC cfg o data s)
      (hnew : data.propv ∉ s.processedCommit)
      (hblock : s.blocks.lookup data.propv = some block)
      (hhash : (block.hash o.sha256).hash = data.proph.hash) :
      Atom cfg o s (s.committed cfg o data block)

/-! ### What the replica has kept for later views -/

/-- A stored proposal extends the block of its accumulator, and a `precommit` certificate that came
early is one. -/
structure Kept (s : State) : Prop where
  proposals : ∀ v, ∀ m ∈ s.log.ldrpreparesComb.get v, m.block.prevHash.hash = m.acc.hash.hash
  qcs : ∀ v, ∀ m ∈ s.futurePreCommitQCs.get v, m.data.phase = Phase1.precommit.byte

variable {cfg : HandlerConfig Key} {o : Oracle Key}

theorem Atom.kept {s s' : State} (h : Atom cfg o s s') (hs : Kept s) : Kept s' := by
  cases h with
  | frame h =>
    refine ⟨fun v m hm => hs.proposals v m ?_, fun v m hm => hs.qcs v m (h.qcs v m hm)⟩
    rwa [h.proposals] at hm
  | sign => exact ⟨hs.proposals, hs.qcs⟩
  | accum => exact ⟨hs.proposals, hs.qcs⟩
  | accumSp => exact ⟨hs.proposals, hs.qcs⟩
  | prepare =>
    unfold State.preparedWith
    dsimp only
    split <;> exact ⟨hs.proposals, hs.qcs⟩
  | store => exact ⟨hs.proposals, hs.qcs⟩
  | logNewView =>
    refine ⟨fun v m hm => hs.proposals v m ?_, hs.qcs⟩
    unfold storeNewView at hm
    split at hm <;> exact hm
  | logProposal hparent =>
    refine ⟨fun v m hm => ?_, hs.qcs⟩
    rcases ViewLog.mem_of_mem_store hm with hm | rfl
    · exact hs.proposals v m hm
    · exact hparent
  | keepQC hphase =>
    refine ⟨hs.proposals, fun v m hm => ?_⟩
    rcases ViewLog.mem_of_mem_insert hm with rfl | hm
    · exact hphase
    · exact hs.qcs v m hm
  | execute => exact ⟨hs.proposals, hs.qcs⟩

/-! ### Leaders -/

/-- Every replica is skipped. -/
def AllSkipped (cfg : HandlerConfig Key) (skipped : List PID) : Prop :=
  ∀ j < total cfg, j ∈ skipped

/-- When every replica is skipped, a lookup gives the nominal leader and clears the set. -/
theorem leaderOf_of_allSkipped {skipped : List PID} (hfixed : cfg.fixedLeaderMode = false)
    (h : AllSkipped cfg skipped) (v : View) : leaderOf cfg skipped v = (v % total cfg, []) := by
  have hstart : v % total cfg < total cfg := Nat.mod_lt _ (Nat.succ_pos _)
  have hfind : ((List.range (total cfg)).map fun k => (v % total cfg + k) % total cfg).find?
      (fun cand => cand ∉ skipped) = none := by
    apply (Lib.find?_circle_eq_none hstart).mpr
    intro p hp
    simpa using h p hp
  simp only [leaderOf, hfixed, hfind]
  rfl

/-- Otherwise a lookup leaves the set as it is, and finds a replica. -/
theorem leaderOf_of_not_allSkipped {skipped : List PID} (hfixed : cfg.fixedLeaderMode = false)
    (h : ¬ AllSkipped cfg skipped) (v : View) :
    ∃ p < total cfg, leaderOf cfg skipped v = (p, skipped) := by
  have hstart : v % total cfg < total cfg := Nat.mod_lt _ (Nat.succ_pos _)
  unfold AllSkipped at h
  push Not at h
  obtain ⟨j, hj, hskip⟩ := h
  cases hfind : ((List.range (total cfg)).map fun k => (v % total cfg + k) % total cfg).find?
      (fun cand => cand ∉ skipped) with
  | none =>
    have hnone := (Lib.find?_circle_eq_none hstart).mp hfind j hj
    exact absurd (decide_eq_true hskip) hnone
  | some cand =>
    obtain ⟨k, -, rfl⟩ := List.mem_map.mp (List.mem_of_find?_eq_some hfind)
    exact ⟨_, Nat.mod_lt _ (Nat.succ_pos _), by simp only [leaderOf, hfixed, hfind]; rfl⟩

/-- Looking up a leader changes no leader, also when it clears the skipped leaders. -/
theorem leaderOf_lookup (cfg : HandlerConfig Key) (skipped : List PID) (w v : View) :
    (leaderOf cfg (leaderOf cfg skipped w).2 v).1 = (leaderOf cfg skipped v).1 := by
  cases hfixed : cfg.fixedLeaderMode with
  | true => simp [leaderOf, hfixed]
  | false =>
    by_cases h : AllSkipped cfg skipped
    · rw [leaderOf_of_allSkipped hfixed h, leaderOf_of_allSkipped hfixed h]
      -- with no skipped leaders the nominal one is taken
      simp [leaderOf, hfixed, total, List.range_succ_eq_map]
    · obtain ⟨p, -, hlookup⟩ := leaderOf_of_not_allSkipped hfixed h w
      rw [hlookup]

/-- A leader is one of the replicas, in rotating mode. -/
theorem leaderOf_lt (hfixed : cfg.fixedLeaderMode = false) (skipped : List PID) (v : View) :
    (leaderOf cfg skipped v).1 < total cfg := by
  by_cases h : AllSkipped cfg skipped
  · rw [leaderOf_of_allSkipped hfixed h]
    exact Nat.mod_lt _ (Nat.succ_pos _)
  · obtain ⟨p, hp, hlookup⟩ := leaderOf_of_not_allSkipped hfixed h v
    rw [hlookup]
    exact hp

/-! ### What is kept -/

/-- The invariants that every atom keeps, and that say what has been kept for later views. -/
structure KeepsAtoms (cfg : HandlerConfig Key) (o : Oracle Key) (I : State → Prop) : Prop where
  atom : ∀ s s', Atom cfg o s s' → I s → I s'
  kept : ∀ s, I s → Kept s

/-- The invariant holds, and the replica is in view `v` and takes `p` for its leader. -/
structure InView (cfg : HandlerConfig Key) (I : State → Prop) (v : View) (p : PID) (s : State) :
    Prop where
  inv : I s
  view : s.view = v
  leader : s.leader cfg = p

variable {I : State → Prop} {v : View} {p : PID} {α : Type}

/-- What holds in every view holds without one. -/
theorem triple_of_inView (cfg : HandlerConfig Key) {m : HandlerM α} {Q : α → State → Prop}
    (h : ∀ v p, Triple (InView cfg I v p) m Q fun _ => I) : Triple I m Q fun _ => I :=
  fun s hs => h s.view (s.leader cfg) s ⟨hs, rfl, rfl⟩

/-- To give the state a name. -/
theorem triple_name {P : State → Prop} {Q : α → State → Prop} {m : HandlerM α}
    (h : ∀ s₀, P s₀ → Triple (fun s => s = s₀) m Q fun _ => I) : Triple P m Q fun _ => I :=
  fun s hs => h s hs s rfl

section Triples

variable (hI : KeepsAtoms cfg o I)
include hI

theorem KeepsAtoms.frame {s s' : State} (h : Frame s s') (hs : I s) : I s' := hI.atom s s' (.frame h) hs

omit hI in
/-- A step within the view, with the same skipped leaders. -/
theorem InView.step {s s' : State} (hs : InView cfg I v p s) (hs' : I s') (hview : s'.view = s.view)
    (hskip : s'.skippedLeaders = s.skippedLeaders) : InView cfg I v p s' := by
  refine ⟨hs', hview.trans hs.view, ?_⟩
  rw [← hs.leader, State.leader, State.leader, hview, hskip]

theorem InView.frame {s s' : State} (hs : InView cfg I v p s) (h : Frame s s')
    (hview : s'.view = s.view) (hskip : s'.skippedLeaders = s.skippedLeaders) : InView cfg I v p s' :=
  hs.step (hI.frame h hs.inv) hview hskip

theorem InView.lookup {s : State} (hs : InView cfg I v p s) (w : View) :
    InView cfg I v p { s with skippedLeaders := (leaderOf cfg s.skippedLeaders w).2 } := by
  refine ⟨hI.frame (Frame.update s) hs.inv, hs.view, ?_⟩
  rw [← hs.leader, State.leader, State.leader, leaderOf_lookup]

/-- The rule for the functions that are one frame step within the view. -/
theorem triple_frame {f : State → State} (hf : ∀ s, Frame s (f s)) (hview : ∀ s, (f s).view = s.view)
    (hskip : ∀ s, (f s).skippedLeaders = s.skippedLeaders) :
    Triple (InView cfg I v p) (modify f : HandlerM PUnit) (fun _ => InView cfg I v p) fun _ => I :=
  Triple.update fun s hs => hs.frame hI (hf s) (hview s) (hskip s)

theorem triple_sendMsg {msg : Msg} {recipients : List PID} :
    Triple (InView cfg I v p) (sendMsg msg recipients) (fun _ => InView cfg I v p) fun _ => I :=
  triple_frame hI (fun s => Frame.update s) (fun _ => rfl) fun _ => rfl

theorem triple_setPhase {ph : Phase1} :
    Triple (InView cfg I v p) (setPhase ph) (fun _ => InView cfg I v p) fun _ => I :=
  triple_frame hI (fun s => Frame.update s) (fun _ => rfl) fun _ => rfl

/-! ### Looking up leaders -/

/-- The leader of the current view is the one of the context. -/
theorem triple_getLeaderOf {w : View} :
    Triple (InView cfg I v p) (getLeaderOf cfg w)
      (fun leader s => InView cfg I v p s ∧ (w = v → leader = p)) fun _ => I := by
  intro s hs
  refine ⟨hs.lookup hI w, fun hw => ?_⟩
  rw [← hs.leader, hw, ← hs.view]
  rfl

theorem triple_getCurrentLeader :
    Triple (InView cfg I v p) (getCurrentLeader cfg)
      (fun leader s => InView cfg I v p s ∧ leader = p) fun _ => I := by
  intro s hs
  exact ⟨hs.lookup hI s.view, hs.leader⟩

theorem triple_amLeaderOf {w : View} :
    Triple (InView cfg I v p) (amLeaderOf cfg w) (fun _ => InView cfg I v p) fun _ => I :=
  Triple.bind (triple_getLeaderOf hI) fun _ => Triple.ret fun _ hs => hs.1

theorem triple_amCurrentLeader :
    Triple (InView cfg I v p) (amCurrentLeader cfg) (fun _ => InView cfg I v p) fun _ => I :=
  Triple.bind (triple_getCurrentLeader hI) fun _ => Triple.ret fun _ hs => hs.1

/-! ### The leader's proposal -/

/-- A certificate of phase `prepare` is stored only under a leader that is no TEE node. -/
theorem triple_callTEEstoreComb {just : Just}
    (hleader : just.rdata.phase = Phase1.prepare.byte → cfg.isTEE p = false) :
    Triple (InView cfg I v p) (callTEEstoreComb cfg o just) (fun _ => InView cfg I v p)
      fun _ => I := by
  intro s hs
  refine hs.step (hI.atom _ _ (.store fun hphase => ?_) hs.inv) rfl rfl
  rw [hs.leader]
  exact hleader hphase

/-- In view, with the given new-views in the log. -/
def Logged (cfg : HandlerConfig Key) (I : State → Prop) (v : View) (p : PID)
    (newviews : List MsgNewViewComb) (s : State) : Prop :=
  InView cfg I v p s ∧ ∀ m ∈ newviews, HasNewView s.log m

omit hI in
theorem sameNewViewSigns_nil : (sameNewViewSigns []).size = 0 := rfl

theorem triple_newviews2accComb {newviews : List MsgNewViewComb} {n : ℕ} (hn : 0 < n) :
    Triple (Logged cfg I v p newviews) (newviews2accComb cfg o newviews n)
      (fun _ => InView cfg I v p) fun _ => I := by
  unfold newviews2accComb
  refine Triple.cond (fun hsize => ?_) fun _ => ?_
  · cases newviews with
    | nil =>
      rw [sameNewViewSigns_nil] at hsize
      omega
    | cons m ms =>
      intro s hs
      exact hs.1.step (hI.atom _ _ (.accumSp (hs.2 m List.mem_cons_self) rfl) hs.1.inv) rfl rfl
  · intro s hs
    exact hs.1.step (hI.atom _ _ .accum hs.1.inv) rfl rfl

theorem triple_createNewBlock {hash : Hash} :
    Triple (InView cfg I v p) (createNewBlock cfg hash)
      (fun block s => InView cfg I v p s ∧ block.prevHash = hash) fun _ => I := by
  refine Triple.read_bind fun s₀ hs₀ => Triple.bind (Q := fun _ => InView cfg I v p)
    (Triple.assign fun s hs => ?_) fun _ => ?_
  · exact hs₀.frame hI (Frame.update s₀) rfl rfl
  · exact Triple.cond (fun _ => Triple.ret fun _ hs => ⟨hs, rfl⟩) fun _ =>
      Triple.raise fun _ hs => hs.inv

/-- In view after a call of `TEEprepare`: if it accepts, the block is still to be stored. -/
def Preparing (cfg : HandlerConfig Key) (I : State → Prop) (v : View) (p : PID) (block : Block)
    (just : Just) (s : State) : Prop :=
  if just.set then InView cfg I v p { s with blocks := s.blocks.insert s.view block }
  else InView cfg I v p s

theorem triple_callTEEprepareComb {block : Block} {acc : Accum} {proof : NewViewProofComb}
    (hparent : block.prevHash.hash = acc.hash.hash) :
    Triple (InView cfg I v p) (callTEEprepareComb cfg o block acc proof)
      (fun just => Preparing cfg I v p block just) fun _ => I := by
  intro s hs
  have hstep : I (s.preparedWith cfg o block acc) := hI.atom _ _ (.prepare hparent) hs.inv
  show Preparing cfg I v p block (s.called cfg o (.prepare (block.hash o.sha256) acc)).1.toJust
    (s.called cfg o (.prepare (block.hash o.sha256) acc)).2
  unfold Preparing
  unfold State.preparedWith at hstep
  dsimp only at hstep
  split
  · next hset =>
    rw [if_pos hset] at hstep
    exact hs.step hstep rfl rfl
  · next hset =>
    rw [if_neg hset] at hstep
    exact hs.step hstep rfl rfl

omit hI in
theorem Preparing.of_set {block : Block} {just : Just} {s : State} (h : Preparing cfg I v p block just s)
    (hset : just.set = true) : InView cfg I v p { s with blocks := s.blocks.insert s.view block } := by
  unfold Preparing at h
  rwa [if_pos hset] at h

omit hI in
theorem Preparing.of_not_set {block : Block} {just : Just} {s : State}
    (h : Preparing cfg I v p block just s) (hset : just.set = false) : InView cfg I v p s := by
  unfold Preparing at h
  rwa [if_neg (by rw [hset]; decide)] at h

/-- A vote is logged, among those of the TEE nodes or of the others. -/
theorem triple_logVote {storeTEE store : Log → MsgVoteComb → ℕ × Log} (htee : StoresVotes storeTEE)
    (hnon : StoresVotes store) {c : Prop} [Decidable c] {msg : MsgVoteComb} :
    Triple (InView cfg I v p)
      (modify fun s => { s with
        log := if c then (storeTEE s.log msg).2 else (store s.log msg).2 } : HandlerM Unit)
      (fun _ => InView cfg I v p) fun _ => I := by
  refine triple_frame hI (fun s => ?_) (fun _ => rfl) fun _ => rfl
  split
  · exact .vote htee s msg
  · exact .vote hnon s msg

theorem triple_processQC {newviews : List MsgNewViewComb} {qcType : QcType} :
    Triple (Logged cfg I v p newviews) (processQC cfg o newviews qcType)
      (fun _ => InView cfg I v p) fun _ => I := by
  unfold processQC
  refine Triple.read_bind fun s₀ hs₀ => ?_
  refine Triple.cond (fun _ => Triple.ret fun _ hs => hs ▸ hs₀.1) fun _ => ?_
  refine Triple.bind ((triple_newviews2accComb hI ?_).pre fun s hs => hs ▸ hs₀) fun acc => ?_
  · cases qcType with
    | tee =>
      have hle := le_max_right (cfg.totalTEE / 2 + 1) (cfg.numFaults + 1)
      show 0 < max _ _
      omega
    | normal =>
      show 0 < 2 * cfg.numFaults + 1 - cfg.numFaults
      omega
  refine Triple.cond (fun _ => Triple.ret fun _ hs => hs) fun _ => ?_
  refine Triple.bind (triple_createNewBlock hI) fun block => Triple.given fun hprev => ?_
  refine Triple.bind (triple_callTEEprepareComb hI (congrArg Hash.hash hprev)) fun just => ?_
  refine Triple.cond (fun hset => Triple.ret fun s hs => hs.of_not_set ?_) fun hset => ?_
  · rwa [Bool.not_eq_true'] at hset
  · rw [Bool.not_eq_true', Bool.not_eq_false] at hset
    refine Triple.bind (Q := fun _ => InView cfg I v p) (Triple.update fun s hs => ?_) fun _ => ?_
    · exact (hs.of_set hset).frame hI (Frame.update _) rfl rfl
    · refine Triple.cond (fun _ => ?_) fun _ => Triple.ret fun _ hs => hs
      exact Triple.bind (triple_sendMsg hI) fun _ =>
        triple_logVote hI (fun _ _ => ⟨rfl, rfl, rfl⟩) fun _ _ => ⟨rfl, rfl, rfl⟩

theorem triple_prepareComb :
    Triple (InView cfg I v p) (prepareComb cfg o) (fun _ => InView cfg I v p) fun _ => I := by
  unfold prepareComb
  refine Triple.read_bind fun s₀ hs₀ => ?_
  have htee : ∀ m ∈ s₀.log.getTEENewViewComb s₀.view cfg.tqsize, HasNewView s₀.log m := fun m hm =>
    ⟨_, Or.inr (List.mem_of_mem_take hm)⟩
  have hnon : ∀ m ∈ s₀.log.getNewViewComb s₀.view (qsize cfg), HasNewView s₀.log m := fun m hm =>
    ⟨_, Or.inl (List.mem_of_mem_take hm)⟩
  refine Triple.cond (fun _ => (triple_processQC hI).pre fun s hs => ?_) fun _ => ?_
  · subst hs
    exact ⟨hs₀, htee⟩
  refine Triple.cond (fun _ => (triple_processQC hI).pre fun s hs => ?_) fun _ =>
    Triple.ret fun s hs => hs ▸ hs₀
  subst hs
  refine ⟨hs₀, fun m hm => ?_⟩
  rcases List.mem_append.mp ((mem_of_mem_mixed hm).resolve_left List.not_mem_nil) with hm | hm
  · exact htee m hm
  · exact hnon m hm

theorem triple_handleNewviewComb {msg : MsgNewViewComb} :
    Triple (InView cfg I v p) (handleNewviewComb cfg o msg) (fun _ => InView cfg I v p) fun _ => I := by
  unfold handleNewviewComb
  refine Triple.read_bind fun s₀ hs₀ => ?_
  refine Triple.cond (fun _ => ?_) fun _ => Triple.ret fun _ hs => hs ▸ hs₀
  -- the lookup changes no call, so what has been verified before still verifies
  refine Triple.bind (Q := fun _ s => InView cfg I v p s ∧ s.calls = s₀.calls) (fun s hs => ?_)
    fun leader => triple_name fun s₁ hs₁ => ?_
  · subst hs
    exact ⟨hs₀.lookup hI msg.data.propv, rfl⟩
  refine Triple.cond (fun hcond => ?_) fun _ => Triple.ret fun _ hs => hs ▸ hs₁.1
  rw [Bool.and_eq_true, ← hs₁.2] at hcond
  refine Triple.bind (Q := fun _ => InView cfg I v p) (Triple.update fun s hs => ?_) fun _ => ?_
  · rw [hs]
    exact hs₁.1.step (hI.atom _ _ (.logNewView hcond.2) hs₁.1.inv) rfl rfl
  refine Triple.read_bind fun s₂ hs₂ => Triple.pre (P := InView cfg I v p) ?_ fun s hs => hs ▸ hs₂
  refine Triple.cond (fun _ => ?_) fun _ => Triple.ret fun _ hs => hs
  refine Triple.bind (triple_prepareComb hI) fun _ => Triple.update fun s hs => ?_
  split
  · exact hs.frame hI (Frame.update s) rfl rfl
  · exact hs

/-! ### The backup's vote -/

theorem triple_respondToLdrPrepareComb {block : Block} {acc : Accum} {proof : NewViewProofComb}
    (hparent : block.prevHash.hash = acc.hash.hash) :
    Triple (InView cfg I v p) (respondToLdrPrepareComb cfg o block acc proof)
      (fun _ => InView cfg I v p) fun _ => I := by
  unfold respondToLdrPrepareComb
  refine Triple.bind (triple_callTEEprepareComb hI hparent) fun just => ?_
  refine Triple.cond (fun hset => ?_) fun hset => Triple.ret fun s hs => hs.of_not_set ?_
  · refine Triple.bind (Q := fun _ => InView cfg I v p) (Triple.update fun s hs => hs.of_set hset)
      fun _ => ?_
    refine Triple.bind (triple_getCurrentLeader hI) fun leader => ?_
    exact (triple_sendMsg hI).pre fun _ hs => hs.1
  · rwa [Bool.not_eq_true] at hset

theorem triple_handleLdrPrepareComb {msg : MsgLdrPrepareComb} :
    Triple (InView cfg I v p) (handleLdrPrepareComb cfg o msg) (fun _ => InView cfg I v p)
      fun _ => I := by
  unfold handleLdrPrepareComb verifyLdrPrepareComb
  simp only [bind_assoc, pure_bind]
  refine Triple.bind (triple_getLeaderOf hI) fun leader => ?_
  refine Triple.read_bind fun s₁ hs₁ => ?_
  refine Triple.read_bind fun s₀ hs₀ => Triple.pre (P := InView cfg I v p) ?_ fun s hs =>
    hs ▸ hs₀ ▸ hs₁.1
  refine Triple.cond (fun _ => ?_) fun _ => Triple.ret fun _ hs => hs
  refine Triple.bind (triple_amLeaderOf hI) fun leader => ?_
  refine Triple.cond (fun hcond => ?_) fun _ => Triple.ret fun _ hs => hs
  rw [Bool.and_eq_true] at hcond
  have hparent : msg.block.prevHash.hash = msg.acc.hash.hash := eqHashes_eq_true.mp hcond.2
  refine Triple.cond (fun _ => triple_respondToLdrPrepareComb hI hparent) fun _ => ?_
  refine Triple.update fun s hs => ?_
  exact hs.step (hI.atom _ _ (.logProposal hparent) hs.inv) rfl rfl

theorem triple_replayProposal {w : View} :
    Triple (InView cfg I v p) (replayProposal cfg o w) (fun _ => InView cfg I v p) fun _ => I := by
  unfold replayProposal
  refine Triple.read_bind fun s₀ hs₀ => Triple.pre (P := InView cfg I v p) ?_ fun s hs => hs ▸ hs₀
  split
  · next msg hmsg =>
    refine Triple.cond (fun _ => ?_) fun _ => Triple.ret fun _ hs => hs
    exact triple_respondToLdrPrepareComb hI
      ((hI.kept s₀ hs₀.inv).proposals w msg (List.mem_of_head? hmsg))
  · exact Triple.ret fun _ hs => hs

/-! ### Certificates -/

omit hI in
theorem phase_of_verifyCombQC {cr : Crypto Key} {data : RData} {signs : Signs} {ph : Phase1}
    (h : verifyCombQC cfg cr data signs ph = true) : data.phase = ph.byte := by
  unfold verifyCombQC at h
  rw [Bool.and_eq_true, decide_eq_true_eq] at h
  exact h.1

theorem triple_storeQC {phase : Phase1} {send : MsgVoteComb → Msg}
    {storeTEE store : Log → MsgVoteComb → ℕ × Log} {data : RData} {signs : Signs}
    (hleader : phase = .prepare → cfg.isTEE p = false) (htee : StoresVotes storeTEE)
    (hnon : StoresVotes store) :
    Triple (InView cfg I v p) (storeQC cfg o phase send storeTEE store data signs)
      (fun _ => InView cfg I v p) fun _ => I := by
  unfold storeQC
  refine Triple.read_bind fun s₀ hs₀ => Triple.pre (P := InView cfg I v p) ?_ fun s hs => hs ▸ hs₀
  refine Triple.cond (fun hqc => ?_) fun _ => Triple.ret fun _ hs => hs
  refine Triple.bind (triple_sendMsg hI) fun _ => ?_
  refine Triple.bind (triple_callTEEstoreComb hI fun hphase => ?_) fun just => ?_
  · exact hleader (Phase1.byte_injective ((phase_of_verifyCombQC hqc).symm.trans hphase))
  · exact Triple.cond (fun _ => triple_logVote hI htee hnon) fun _ => Triple.ret fun _ hs => hs

theorem triple_preCommitComb {data : RData} {qcType : QcType} (hleader : cfg.isTEE p = false) :
    Triple (InView cfg I v p) (preCommitComb cfg o data qcType) (fun _ => InView cfg I v p)
      fun _ => I := by
  unfold preCommitComb
  refine Triple.read_bind fun s₀ hs₀ => Triple.pre (P := InView cfg I v p) ?_ fun s hs => hs ▸ hs₀
  exact triple_storeQC hI (fun _ => hleader) (fun _ _ => ⟨rfl, rfl, rfl⟩) fun _ _ => ⟨rfl, rfl, rfl⟩

theorem triple_commitComb {data : RData} {qcType : QcType} :
    Triple (InView cfg I v p) (commitComb cfg o data qcType) (fun _ => InView cfg I v p)
      fun _ => I := by
  unfold commitComb
  refine Triple.read_bind fun s₀ hs₀ => Triple.pre (P := InView cfg I v p) ?_ fun s hs => hs ▸ hs₀
  exact triple_storeQC hI nofun (fun _ _ => ⟨rfl, rfl, rfl⟩) fun _ _ => ⟨rfl, rfl, rfl⟩

theorem triple_respondToPreCommitComb {msg : MsgPreCommitComb}
    (hphase : msg.data.phase = Phase1.precommit.byte) :
    Triple (InView cfg I v p) (respondToPreCommitComb cfg o msg) (fun _ => InView cfg I v p)
      fun _ => I := by
  unfold respondToPreCommitComb
  refine Triple.bind (triple_callTEEstoreComb hI fun hprep => ?_) fun just => ?_
  · have hne : Phase1.precommit = Phase1.prepare := Phase1.byte_injective (hphase.symm.trans hprep)
    cases hne
  · refine Triple.cond (fun _ => ?_) fun _ => Triple.ret fun _ hs => hs
    refine Triple.bind (triple_getCurrentLeader hI) fun leader => ?_
    exact (triple_sendMsg hI).pre fun _ hs => hs.1

/-! ### Execution -/

omit hI in
/-- What is assumed of the function that executes: it keeps what the atoms keep, when it is called
with a certificate that was accepted. -/
def Executes (cfg : HandlerConfig Key) (o : Oracle Key) (I : State → Prop)
    (exec : RData → HandlerM Unit) : Prop :=
  ∀ data, Triple (fun s => I s ∧ AcceptedQC cfg o data s) (exec data) (fun _ => I) fun _ => I

section Exec

variable {exec : RData → HandlerM Unit} (hexec : Executes cfg o I exec)
include hexec

/-- A certificate is sent and its data executed. -/
theorem triple_sendMsg_exec {data : RData} {msg : Msg} {recipients : List PID} {s₀ : State}
    (hs₀ : I s₀) (hqc : AcceptedQC cfg o data s₀) :
    Triple (fun s => s = s₀) (sendMsg msg recipients >>= fun _ => exec data) (fun _ => I)
      fun _ => I := by
  refine Triple.bind (Triple.update fun s hs => ?_) fun _ => hexec data
  subst hs
  exact ⟨hI.frame (Frame.update s) hs₀, hqc⟩

theorem triple_decideComb {data : RData} {qcType : QcType} :
    Triple (InView cfg I data.propv p) (decideComb cfg o exec data qcType) (fun _ => I)
      fun _ => I := by
  unfold decideComb
  refine Triple.bind (triple_getCurrentLeader hI) fun leader => Triple.read_bind fun s₀ hs₀ => ?_
  obtain ⟨hs₀, rfl⟩ := hs₀
  refine Triple.cond (fun htee => ?_) fun _ => ?_
  · refine Triple.cond (fun hqc => ?_) fun _ => Triple.ret fun _ hs => hs ▸ hs₀.inv
    exact triple_sendMsg_exec hI hexec hs₀.inv
      ⟨hs₀.view.symm, _, Or.inl ⟨hqc, hs₀.leader.symm ▸ htee⟩⟩
  · refine Triple.cond (fun hqc => ?_) fun _ => Triple.ret fun _ hs => hs ▸ hs₀.inv
    exact triple_sendMsg_exec hI hexec hs₀.inv ⟨hs₀.view.symm, _, Or.inr hqc⟩

theorem triple_respondToPrepareComb {msg : MsgPrepareComb} :
    Triple (InView cfg I msg.data.propv p) (respondToPrepareComb cfg o exec msg) (fun _ => I)
      fun _ => I := by
  unfold respondToPrepareComb
  refine Triple.bind (triple_getCurrentLeader hI) fun leader => Triple.read_bind fun s₀ hs₀ => ?_
  obtain ⟨hs₀, rfl⟩ := hs₀
  refine Triple.cond (fun hqc => ?_) fun _ => Triple.ret fun _ hs => hs ▸ hs₀.inv
  refine Triple.cond (fun htee => ?_) fun hnon => ?_
  · refine (hexec msg.data).pre fun s hs => ?_
    subst hs
    exact ⟨hs₀.inv, hs₀.view.symm, _, Or.inl ⟨hqc, hs₀.leader.symm ▸ htee⟩⟩
  · -- only under a leader that is no TEE node is the certificate stored
    rw [Bool.not_eq_true] at hnon
    refine Triple.bind ((triple_callTEEstoreComb hI fun _ => hnon).pre fun s hs => hs ▸ hs₀) fun j => ?_
    refine Triple.cond (fun _ => ?_) fun _ => Triple.ret fun _ hs => hs.inv
    refine Triple.bind (triple_getCurrentLeader hI) fun leader => ?_
    exact (triple_sendMsg hI).conseq (fun _ hs => hs.1) fun _ _ hs => hs.inv

omit hI in
theorem triple_respondToCommitComb {msg : MsgCommitComb} :
    Triple (InView cfg I msg.data.propv p) (respondToCommitComb cfg o exec msg) (fun _ => I)
      fun _ => I := by
  unfold respondToCommitComb
  refine Triple.read_bind fun s₀ hs₀ => ?_
  refine Triple.cond (fun hqc => ?_) fun _ => Triple.ret fun _ hs => hs ▸ hs₀.inv
  refine (hexec msg.data).pre fun s hs => ?_
  subst hs
  exact ⟨hs₀.inv, hs₀.view.symm, _, Or.inr hqc⟩

/-! ### Starting a view -/

/-- The replayed certificates are filed under the view that starts. -/
theorem triple_replayQCs {block : Block} :
    Triple (InView cfg I v p) (replayQCs cfg o exec v block) (fun _ => I) fun _ => I := by
  unfold replayQCs
  refine Triple.read_bind fun s₀ hs₀ => Triple.pre (P := InView cfg I v p) ?_ fun s hs => hs ▸ hs₀
  split
  · exact Triple.ret fun _ hs => hs.inv
  next qc _ hget =>
  have hqc : qc.data.propv = v :=
    s₀.futurePrepareQCs.viewOf_of_mem_get (hget ▸ List.mem_cons_self)
  refine Triple.cond (fun _ => Triple.ret fun _ hs => hs.inv) fun _ => ?_
  refine Triple.bind (Q := fun _ => InView cfg I v p) (Triple.update fun s hs =>
    hs.frame hI (Frame.update s) rfl rfl) fun _ => ?_
  refine Triple.bind (hqc ▸ triple_respondToPrepareComb hI hexec) fun _ => ?_
  refine Triple.read_bind fun s₁ hs₁ => ?_
  refine Triple.cond (fun _ => Triple.ret fun _ hs => hs ▸ hs₁) fun hv => ?_
  rw [not_not] at hv
  -- the view goes on, with the leader that is now assumed
  have hin : InView cfg I v (s₁.leader cfg) s₁ := ⟨hs₁, hv, rfl⟩
  refine Triple.pre (P := InView cfg I v (s₁.leader cfg)) ?_ fun s hs => hs.symm ▸ hin
  split
  · exact Triple.ret fun _ hs => hs.inv
  next qc' _ hget' =>
  have hphase : qc'.data.phase = Phase1.precommit.byte :=
    (hI.kept s₁ hs₁).qcs v qc' (hget' ▸ List.mem_cons_self)
  refine Triple.cond (fun _ => Triple.ret fun _ hs => hs.inv) fun _ => ?_
  refine Triple.bind (Q := fun _ => InView cfg I v (s₁.leader cfg)) (Triple.update fun s hs => ?_)
    fun _ => ?_
  · have hframe : Frame s { s with futurePreCommitQCs := s.futurePreCommitQCs.erase v } :=
      ⟨rfl, rfl, rfl, rfl, rfl, rfl, rfl, rfl, fun _ _ h => ViewLog.mem_of_mem_erase h⟩
    exact hs.frame hI hframe rfl rfl
  refine Triple.bind (triple_respondToPreCommitComb hI hphase) fun _ => ?_
  refine Triple.read_bind fun s₂ hs₂ => Triple.pre (P := InView cfg I v (s₁.leader cfg)) ?_
    fun s hs => hs ▸ hs₂
  split
  · exact Triple.ret fun _ hs => hs.inv
  next qc'' _ hget'' =>
  have hqc'' : qc''.data.propv = v :=
    s₂.futureCommitQCs.viewOf_of_mem_get (hget'' ▸ List.mem_cons_self)
  refine Triple.cond (fun _ => Triple.ret fun _ hs => hs.inv) fun _ => ?_
  refine Triple.bind (Q := fun _ => InView cfg I v (s₁.leader cfg)) (Triple.update fun s hs =>
    hs.frame hI (Frame.update s) rfl rfl) fun _ => ?_
  exact hqc'' ▸ triple_respondToCommitComb hexec

theorem triple_handleEarlierMessagesComb :
    Triple I (handleEarlierMessagesComb cfg o exec) (fun _ => I) fun _ => I := by
  refine triple_of_inView cfg fun v p => ?_
  unfold handleEarlierMessagesComb
  refine Triple.bind (triple_amCurrentLeader hI) fun leader => ?_
  refine Triple.read_bind fun s₀ hs₀ => Triple.pre (P := InView cfg I v p) ?_ fun s hs => hs ▸ hs₀
  refine Triple.cond (fun _ => ?_) fun _ => ?_
  · refine Triple.cond (fun _ => ?_) fun _ => Triple.ret fun _ hs => hs.inv
    exact (triple_prepareComb hI).conseq (fun _ hs => hs) fun _ _ hs => hs.inv
  · rw [hs₀.view]
    refine Triple.bind (triple_replayProposal hI) fun _ => ?_
    refine Triple.read_bind fun s₁ hs₁ => Triple.pre (P := InView cfg I v p) ?_ fun s hs => hs ▸ hs₁
    split
    · exact Triple.ret fun _ hs => hs.inv
    · exact triple_replayQCs hI hexec

omit hexec in
theorem triple_callTEEsignComb : Triple I (callTEEsignComb cfg o) (fun _ => I) fun _ => I :=
  fun s hs => hI.atom s _ .sign hs

omit hexec in
theorem triple_signUntilAfter {view : View} {fuel : ℕ} {just : Just} :
    Triple I (signUntilAfter cfg o view fuel just) (fun _ => I) fun _ => I := by
  induction fuel generalizing just with
  | zero => exact Triple.raise fun _ hs => hs
  | succ fuel ih =>
    refine Triple.cond (fun _ => ?_) fun _ => Triple.ret fun _ hs => hs
    exact Triple.bind (triple_callTEEsignComb hI) fun _ => ih

theorem triple_startNewViewComb {fuel : ℕ} :
    Triple I (startNewViewComb cfg o exec fuel) (fun _ => I) fun _ => I := by
  unfold startNewViewComb
  refine Triple.read_bind fun s₀ hs₀ => Triple.pre (P := I) ?_ fun s hs => hs ▸ hs₀
  refine Triple.bind (triple_callTEEsignComb hI) fun first => ?_
  refine Triple.bind (triple_signUntilAfter hI) fun just => ?_
  refine Triple.cond (fun _ => ?_) fun _ => Triple.ret fun _ hs => hs
  refine Triple.bind (Q := fun _ => I) (Triple.update fun s hs => hI.frame (Frame.update s) hs) fun _ => ?_
  refine triple_of_inView cfg fun v p => ?_
  refine Triple.read_bind fun s₁ hs₁ => Triple.pre (P := InView cfg I v p) ?_ fun s hs => hs ▸ hs₁
  refine Triple.cond (fun _ => ?_) fun _ => Triple.ret fun _ hs => hs.inv
  refine Triple.bind (triple_getCurrentLeader hI) fun leader => ?_
  refine Triple.pre (P := InView cfg I v p) ?_ fun _ hs => hs.1
  refine Triple.cond (fun _ => ?_) fun _ => ?_
  · refine Triple.bind ((triple_handleEarlierMessagesComb hI hexec).pre fun _ hs => hs.inv) fun _ => ?_
    refine triple_of_inView cfg fun v p => ?_
    exact (triple_handleNewviewComb hI).conseq (fun _ hs => hs) fun _ _ hs => hs.inv
  · refine Triple.bind (triple_sendMsg hI) fun _ => ?_
    exact (triple_handleEarlierMessagesComb hI hexec).pre fun _ hs => hs.inv

end Exec

theorem triple_recordStats : Triple I recordStats (fun _ => I) fun _ => I := by
  refine Triple.read_bind fun s₀ hs₀ => Triple.cond (fun _ => ?_) fun _ => ?_
  · exact Triple.raise fun s hs => hs ▸ hs₀
  · exact Triple.assign fun s _ => hI.frame (Frame.update s₀) hs₀

/-- Execution is one atom, and what follows has less fuel. -/
theorem executes_executeComb (fuel : ℕ) : Executes cfg o I (executeComb cfg o fuel) := by
  induction fuel with
  | zero => exact fun data => Triple.raise fun _ hs => hs.1
  | succ fuel ih =>
    intro data
    unfold executeComb
    refine Triple.read_bind fun s₀ hs₀ => ?_
    refine Triple.cond (fun _ => Triple.ret fun _ hs => hs ▸ hs₀.1) fun hnew => ?_
    split
    · exact Triple.ret fun _ hs => hs ▸ hs₀.1
    next block hblock =>
    refine Triple.cond (fun _ => Triple.ret fun _ hs => hs ▸ hs₀.1) fun hhash => ?_
    rw [Bool.not_eq_true', Bool.not_eq_false] at hhash
    refine Triple.bind (Q := fun _ => I) (Triple.assign fun s hs => ?_) fun _ => ?_
    · exact hI.atom s₀ _ (.execute hs₀.2 hnew hblock (eqHashes_eq_true.mp hhash)) hs₀.1
    refine Triple.read_bind fun s₁ hs₁ => Triple.pre (P := I) ?_ fun s hs => hs ▸ hs₁
    exact Triple.cond (fun _ => triple_recordStats hI) fun _ => triple_startNewViewComb hI ih

/-! ### Votes and certificates that arrive -/

theorem triple_countVote {storeTEE store : Log → MsgVoteComb → ℕ × Log}
    {getTEE get' : Log → View → ℕ → Signs} (htee : StoresVotes storeTEE) (hnon : StoresVotes store)
    {msg : MsgVoteComb} :
    Triple (InView cfg I v p) (countVote cfg storeTEE store getTEE get' msg)
      (fun _ => InView cfg I v p) fun _ => I := by
  unfold countVote
  refine Triple.read_bind fun s₀ hs₀ => Triple.cond (fun _ => ?_) fun _ => ?_
  · refine Triple.bind (Q := fun _ => InView cfg I v p) (Triple.assign fun _ _ => ?_) fun _ =>
      Triple.ret fun _ hs => hs
    exact hs₀.frame hI (Frame.vote htee s₀ msg) rfl rfl
  · refine Triple.bind (Q := fun _ => InView cfg I v p) (Triple.assign fun _ _ => ?_) fun _ =>
      Triple.ret fun _ hs => hs
    exact hs₀.frame hI (Frame.vote hnon s₀ msg) rfl rfl

theorem triple_handleVote {phase : Phase1} {storeTEE store : Log → MsgVoteComb → ℕ × Log}
    {getTEE get' : Log → View → ℕ → Signs} {enoughTEE : ℕ → Bool} {onVotes : QcType → HandlerM Unit}
    {onQC : HandlerM Unit} {keepQC : State → State} {msg : MsgVoteComb}
    (htee : StoresVotes storeTEE) (hnon : StoresVotes store)
    (hvotes : ∀ qcType p, Triple (InView cfg I msg.data.propv p) (onVotes qcType) (fun _ => I)
      fun _ => I)
    (hQC : msg.data.phase = phase.byte →
      ∀ p, Triple (InView cfg I msg.data.propv p) onQC (fun _ => I) fun _ => I)
    (hkeep : msg.data.phase = phase.byte → ∀ s, I s → I (keepQC s)) :
    Triple I (handleVote cfg o phase storeTEE store getTEE get' enoughTEE onVotes onQC keepQC msg)
      (fun _ => I) fun _ => I := by
  unfold handleVote
  refine Triple.read_bind fun s₀ hs₀ => Triple.cond (fun hv => ?_) fun _ => ?_
  · refine Triple.pre (P := InView cfg I msg.data.propv (s₀.leader cfg)) ?_ fun s hs => ?_
    · refine Triple.bind (triple_amLeaderOf hI) fun leader => Triple.cond (fun _ => ?_) fun _ => ?_
      · refine Triple.cond (fun _ => ?_) fun _ => Triple.ret fun _ hs => hs.inv
        refine Triple.bind (triple_countVote hI htee hnon) fun counts => ?_
        refine Triple.cond (fun _ => hvotes .tee _) fun _ => ?_
        exact Triple.cond (fun _ => hvotes .normal _) fun _ => Triple.ret fun _ hs => hs.inv
      · refine Triple.cond (fun hqc => ?_) fun _ => Triple.ret fun _ hs => hs.inv
        exact hQC (phase_of_verifyCombQC hqc) _
    · subst hs
      exact ⟨hs₀, hv.symm, rfl⟩
  · refine Triple.pre (P := I) ?_ fun s hs => hs ▸ hs₀
    refine Triple.cond (fun _ => ?_) fun _ => Triple.ret fun _ hs => hs
    refine Triple.cond (fun hqc => Triple.update (hkeep (phase_of_verifyCombQC hqc))) fun _ => ?_
    refine Triple.cond (fun _ => Triple.update fun s hs => ?_) fun _ => Triple.ret fun _ hs => hs
    split
    · exact hI.frame (Frame.vote htee s msg) hs
    · exact hI.frame (Frame.vote hnon s msg) hs

theorem triple_handlePrepareComb {fuel : ℕ} {msg : MsgPrepareComb} :
    Triple I (handlePrepareComb cfg o fuel msg) (fun _ => I) fun _ => I := by
  have hexec := executes_executeComb hI fuel
  unfold handlePrepareComb
  refine triple_handleVote hI (fun _ _ => ⟨rfl, rfl, rfl⟩) (fun _ _ => ⟨rfl, rfl, rfl⟩)
    (fun qcType p => ?_) (fun _ p => triple_respondToPrepareComb hI hexec)
    fun _ s hs => hI.frame (Frame.update s) hs
  refine Triple.bind (triple_getCurrentLeader hI) fun leader => Triple.cond (fun _ => ?_) fun hnon => ?_
  · exact Triple.bind ((triple_setPhase hI).pre fun _ hs => hs.1) fun _ => triple_decideComb hI hexec
  · rw [Bool.not_eq_true] at hnon
    refine triple_name fun s₀ hs₀ => ?_
    rw [hs₀.2] at hnon
    refine Triple.bind ((triple_setPhase hI).pre fun s hs => hs ▸ hs₀.1) fun _ => ?_
    exact (triple_preCommitComb hI hnon).conseq (fun _ hs => hs) fun _ _ hs => hs.inv

theorem triple_handlePreCommitComb {msg : MsgPreCommitComb} :
    Triple I (handlePreCommitComb cfg o msg) (fun _ => I) fun _ => I := by
  unfold handlePreCommitComb
  refine triple_handleVote hI (fun _ _ => ⟨rfl, rfl, rfl⟩) (fun _ _ => ⟨rfl, rfl, rfl⟩)
    (fun qcType p => ?_) (fun hphase p => ?_) fun hphase s hs => hI.atom s _ (.keepQC hphase) hs
  · refine Triple.bind (triple_setPhase hI) fun _ => ?_
    exact (triple_commitComb hI).conseq (fun _ hs => hs) fun _ _ hs => hs.inv
  · exact (triple_respondToPreCommitComb hI hphase).conseq (fun _ hs => hs) fun _ _ hs => hs.inv

theorem triple_handleCommitComb {fuel : ℕ} {msg : MsgCommitComb} :
    Triple I (handleCommitComb cfg o fuel msg) (fun _ => I) fun _ => I := by
  have hexec := executes_executeComb hI fuel
  unfold handleCommitComb
  refine triple_handleVote hI (fun _ _ => ⟨rfl, rfl, rfl⟩) (fun _ _ => ⟨rfl, rfl, rfl⟩)
    (fun qcType p => ?_) (fun _ p => triple_respondToCommitComb hexec)
    fun _ s hs => hI.frame (Frame.update s) hs
  exact Triple.bind (triple_setPhase hI) fun _ => triple_decideComb hI hexec

/-! ### Inputs -/

theorem triple_getStarted : Triple I (getStarted cfg o) (fun _ => I) fun _ => I := by
  refine triple_of_inView cfg fun v p => ?_
  unfold getStarted
  refine Triple.bind (triple_getCurrentLeader hI) fun leader => Triple.read_bind fun s₀ hs₀ => ?_
  refine Triple.bind ((triple_getLeaderOf hI).pre fun s hs => hs ▸ hs₀.1) fun _ => ?_
  refine Triple.bind ((triple_callTEEsignComb hI).pre fun _ hs => hs.1.inv) fun j => ?_
  refine triple_of_inView cfg fun v p => ?_
  refine Triple.cond (fun _ => ?_) fun _ => Triple.ret fun _ hs => hs.inv
  refine Triple.bind (triple_amCurrentLeader hI) fun _ => Triple.cond (fun _ => ?_) fun _ => ?_
  · exact (triple_handleNewviewComb hI).conseq (fun _ hs => hs) fun _ _ hs => hs.inv
  · exact (triple_sendMsg hI).conseq (fun _ hs => hs) fun _ _ hs => hs.inv

theorem triple_handle (fuel : ℕ) (input : Input) :
    Triple I (handle cfg o fuel input) (fun _ => I) fun _ => I := by
  cases input with
  | peer msg =>
    cases msg with
    | newview msg =>
      refine triple_of_inView cfg fun v p => ?_
      exact (triple_handleNewviewComb hI).conseq (fun _ hs => hs) fun _ _ hs => hs.inv
    | ldrprepare msg =>
      refine triple_of_inView cfg fun v p => ?_
      exact (triple_handleLdrPrepareComb hI).conseq (fun _ hs => hs) fun _ _ hs => hs.inv
    | prepare msg => exact triple_handlePrepareComb hI
    | precommit msg => exact triple_handlePreCommitComb hI
    | commit msg => exact triple_handleCommitComb hI
  | start cid =>
    refine Triple.read_bind fun s₀ hs₀ => Triple.bind (Q := fun _ => I)
      (Triple.assign fun _ _ => hI.frame (Frame.update s₀) hs₀) fun _ => ?_
    exact Triple.cond (fun _ => Triple.ret fun _ hs => hs) fun _ => triple_getStarted hI
  | transaction t =>
    refine Triple.update fun s hs => ?_
    split
    · exact hI.frame (Frame.update s) hs
    · exact hs
  | timeout =>
    refine Triple.bind (Q := fun _ => I) (Triple.update fun s hs => ?_) fun _ =>
      triple_startNewViewComb hI (executes_executeComb hI fuel)
    split
    · exact hs
    · exact hI.frame (Frame.update s) hs

/-- **What every atom keeps, every handler keeps.** -/
theorem react_keeps {s : State} (fuel : ℕ) (input : Input) (hs : I s) :
    I (s.react cfg o fuel input) := by
  have hend := triple_handle hI fuel input s hs
  unfold State.react
  split
  · exact hs
  · split
    · exact hs
    · split
      · next heq => rwa [heq] at hend
      · next heq =>
        rw [heq] at hend
        split
        · exact hI.frame (Frame.update _) hend
        · exact hend

end Triples

end Raftel.Damysus
