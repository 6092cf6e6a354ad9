import Raftel.Equiv.Reads
import Raftel.Equiv.Steps
import Raftel.Handler.Chained
import Raftel.Lib.Descent

/-!
# The handlers of a chained replica are made of steps

What a chained replica does on an input, cut into steps.  `Step` lists them: a message is logged, a block is
stored, the walk executes what it has collected, the genesis block is stored.  Each step carries what the
source has checked before it; the rest, such as a change of the view or a call of the trusted component, is
`Quiet`.  A step refers to the messages that the replica has received.

* `Kept` : what every step keeps
* `react_kept` : the reaction to an input keeps it
* `run_invariant` : so does every run
* `blocksToExec_spec` : the blocks that the walk collects are a descent through the stored blocks
-/

namespace Raftel.Chained

open Lib

variable {Key : Type}

/-! ### Steps -/

section Def

variable (cfg : HandlerConfig Key) (cr : Crypto Key)

/-- The vote of the leader that its proposal stands for. -/
def MsgLdrPrepareChComb.vote (msg : MsgLdrPrepareChComb) : MsgPrepareChComb :=
  let just := ldrPrepareChComb2just cr.sha256 msg.block msg.sign
  ⟨just.rdata, just.signs.get 0⟩

/-- What is known of a block when it is stored for a view with the given leader: the replica leads the view
in which it stores its own block, and a proposal verifies. -/
def Sourced (leader : PID) (block : CBlock) : Origin → Prop
  | .genesis => False
  | .own => leader = cfg.myid ∧ block.executed = false
  | .proposal sign | .earlier sign => verifyLdrPrepareChComb cfg cr ⟨block, sign⟩ = true

/-- No block is stored for the view, or none has been stored since the replica entered it. -/
def State.Vacant (s : State) : Prop :=
  s.cblocks.lookup s.view = none ∨ s.entered.getLast? = some ⟨s.view, s.stores.length⟩

/-- What the replica knows of its view when it stores a block there.  Nothing, where a proposal arrives. -/
def Origin.Free (s : State) : Origin → Prop
  | .genesis | .proposal _ => True
  | .own => s.Vacant
  | .earlier _ => s.cblocks.lookup s.view = none

/-- The leader that the replica assumes for its view. -/
def State.leader (s : State) : PID := (cfg.leaderOf s.skippedLeaders s.view).1

/-- The component is in one of the two phases that it alternates between. -/
def Alternates (st : PrepState) : Prop := st.phase = .newview ∨ st.phase = .prepare

/-- Nothing is logged, stored or executed. -/
structure Quiet (s s' : State) : Prop where
  cblocks : s'.cblocks = s.cblocks
  log : s'.log = s.log
  stores : s'.stores = s.stores
  walks : s'.walks = s.walks
  executed : s'.executed = s.executed
  alternates : Alternates s.tq → Alternates s'.tq
  views : (s'.view = s.view ∧ s'.entered = s.entered) ∨
    (s'.view = nextView s.view ∧ s'.entered = s.entered ++ [⟨nextView s.view, s.stores.length⟩])

/-- One step. -/
inductive Step (received : Msg → Prop) : State → State → Prop
  | quiet {s s' : State} (h : Quiet s s') : Step received s s'
  | newview {s : State} {msg : MsgNewViewChComb}
      (h : received (.newview msg) ∨ msg.sign.signer = cfg.myid) :
      Step received s { s with log := (s.log.storeNvChComb msg).2 }
  | prepare {s : State} {msg : MsgPrepareChComb}
      (h : received (.prepare msg) ∨ msg.sign.signer = cfg.myid ∨
        ∃ m, received (.ldrprepare m) ∧ verifyLdrPrepareChComb cfg cr m = true ∧ msg = m.vote cr) :
      Step received s { s with log := (s.log.storePrepChComb msg).2 }
  | proposal {s : State} {msg : MsgLdrPrepareChComb} (h : verifyLdrPrepareChComb cfg cr msg = true) :
      Step received s { s with log := (s.log.storeLdrPrepChComb msg).2 }
  | store {s : State} {origin : Origin} {block : CBlock} (hview : block.view = s.view)
      (hsource : Sourced cfg cr (s.leader cfg) block origin) (hfree : origin.Free s) :
      Step received s (s.storeBlock cfg s.view origin block)
  | walk {s : State} {fuel : ℕ} {block0 : CBlock} {toExec : List Execution}
      (h : blocksToExec s.cblocks fuel block0 [] = some toExec) : Step received s (s.walked block0 toExec)
  | begin {s : State} : Step received s (s.begun cfg)

/-- The message is among the new-views or the votes of the log. -/
def Log.Holds (log : Log) : Msg → Prop
  | .newview m => m ∈ log.newviewsChComb.get m.data.propv
  | .ldrprepare _ => False
  | .prepare m => m ∈ log.preparesChComb.get m.data.propv

/-- The state after the leader of a view has been looked up. -/
def State.lookedUp (s : State) (w : View) : State :=
  { s with skippedLeaders := (cfg.leaderOf s.skippedLeaders w).2 }

/-- What the handlers check before they store a new-view or a vote.  Of a proposal nothing is asked here. -/
def State.Passes (s : State) : Msg → Prop
  | .newview m => m.data.proph.set = false ∧ nextView m.data.propv ≥ s.view ∧
      m.data.phase = Phase1.newview.byte ∧
      (cfg.leaderOf s.skippedLeaders (nextView m.data.propv)).1 = cfg.myid
  | .ldrprepare _ => True
  | .prepare m =>
      (m.data.propv = s.view ∧ (cfg.leaderOf s.skippedLeaders (nextView m.data.propv)).1 = cfg.myid) ∨
        m.data.propv > s.view

/-- The log with a message. -/
def Log.store (log : Log) : Msg → Log
  | .newview m => (log.storeNvChComb m).2
  | .ldrprepare _ => log
  | .prepare m => (log.storePrepChComb m).2

/-- The proposals of the log have been verified. -/
def Log.Verified (log : Log) : Prop :=
  log.ldrpreparesChComb.All fun msg => verifyLdrPrepareChComb cfg cr msg = true

/-- An invariant that every step keeps. -/
structure Kept (received : Msg → Prop) (I : State → Prop) : Prop where
  step : ∀ s s', Step cfg cr received s s' → I s → I s'
  verified : ∀ s, I s → s.log.Verified cfg cr

/-- The invariant holds, and the replica is in view `v` and assumes the leaders `L`. -/
structure InView (I : State → Prop) (v : View) (L : View → PID) (s : State) : Prop where
  inv : I s
  view : s.view = v
  leader : ∀ w, (cfg.leaderOf s.skippedLeaders w).1 = L w

/-- It is also free to store a block of its own there. -/
structure VacantIn (I : State → Prop) (v : View) (L : View → PID) (s : State) : Prop
    extends InView cfg I v L s where
  vacant : s.Vacant

end Def

variable {cfg : HandlerConfig Key} {cr : Crypto Key} {received : Msg → Prop} {I : State → Prop}
  {v : View} {L : View → PID}

/-! ### What a step leaves as it is -/

/-- Executing keeps what one execution keeps. -/
theorem foldl_execute {α : Type} {f : State → α} (hf : ∀ s e, f (s.execute e) = f s)
    (toExec : List Execution) (s : State) : f (toExec.foldl State.execute s) = f s := by
  induction toExec generalizing s with
  | nil => rfl
  | cons e toExec ih => rw [List.foldl_cons, ih, hf]

section Walked

variable (s : State) (block0 : CBlock) (toExec : List Execution)

@[simp]
theorem State.walked_log : (s.walked block0 toExec).log = s.log :=
  foldl_execute (fun _ _ => rfl) toExec _

@[simp]
theorem State.walked_view : (s.walked block0 toExec).view = s.view :=
  foldl_execute (fun _ _ => rfl) toExec _

@[simp]
theorem State.walked_skippedLeaders : (s.walked block0 toExec).skippedLeaders = s.skippedLeaders :=
  foldl_execute (fun _ _ => rfl) toExec _

@[simp]
theorem State.walked_entered : (s.walked block0 toExec).entered = s.entered :=
  foldl_execute (fun _ _ => rfl) toExec _

@[simp]
theorem State.walked_stores : (s.walked block0 toExec).stores = s.stores :=
  foldl_execute (fun _ _ => rfl) toExec _

@[simp]
theorem State.walked_walks :
    (s.walked block0 toExec).walks = s.walks ++ [⟨block0, s.cblocks, s.executed⟩] :=
  foldl_execute (fun _ _ => rfl) toExec _

theorem State.walked_executed : (s.walked block0 toExec).executed = s.executed ++ toExec := by
  have hfold : ∀ (l : List Execution) (t : State),
      (l.foldl State.execute t).executed = t.executed ++ l := by
    intro l
    induction l with
    | nil => exact fun t => (List.append_nil _).symm
    | cons e l ih =>
      intro t
      rw [List.foldl_cons, ih]
      exact List.append_assoc _ _ _
  exact hfold toExec _

end Walked

/-- A step keeps the proposals of the log verified. -/
theorem Step.log_verified {s s' : State} (h : Step cfg cr received s s')
    (hlog : s.log.Verified cfg cr) : s'.log.Verified cfg cr := by
  cases h with
  | quiet h => exact h.log ▸ hlog
  | newview h => exact hlog
  | prepare h => exact hlog
  | proposal h =>
    exact ViewLog.All.store hlog h MsgLdrPrepareChComb.lt
      fun msgs m => msgLdrPrepareChCombFrom msgs m.sign.signer
  | store => exact hlog
  | walk h =>
    rw [Log.Verified, State.walked_log]
    exact hlog
  | begin => exact hlog

/-! ### The walk -/

/-- The blocks that are not executed, from the one that is stored for a view down along the certificates, and
the executed block on which they end; none if they go down to the genesis block. -/
abbrev BlockDescent (cblocks : StdMap View CBlock) : View → List CBlock → Option CBlock → Prop :=
  Descent cblocks.lookup (fun b => ca2view b.cert) (fun b => b.executed = true) 0

/-- The executions of the blocks below `block0`, the lowest one first. -/
def executions (block0 : CBlock) : List CBlock → List Execution
  | [] => []
  | b :: path => executions b path ++ [⟨b, block0⟩]

theorem map_block_executions (block0 : CBlock) (path : List CBlock) :
    (executions block0 path).map Execution.block = path.reverse := by
  induction path generalizing block0 with
  | nil => rfl
  | cons b path ih => rw [executions, List.map_append, ih, List.reverse_cons]; rfl

/-- **What the walk collects**: nothing, or the blocks of a descent. -/
theorem blocksToExec_spec {cblocks : StdMap View CBlock} {fuel : ℕ} {block0 : CBlock}
    {toExec collected : List Execution} (h : blocksToExec cblocks fuel block0 toExec = some collected) :
    collected = [] ∨ ∃ path last, BlockDescent cblocks (ca2view block0.cert) path last ∧
      collected = executions block0 path ++ toExec := by
  induction fuel generalizing block0 toExec with
  | zero => cases h
  | succ fuel ih =>
    unfold blocksToExec at h
    cases hfind : cblocks.lookup (ca2view block0.cert) with
    | none =>
      simp only [hfind, Option.some.injEq] at h
      exact Or.inl h.symm
    | some block2 =>
      simp only [hfind] at h
      split at h
      · next hexecuted =>
        cases h
        exact Or.inr ⟨[], some block2, .ends hfind hexecuted, rfl⟩
      · next hnot =>
        split at h
        · next hzero =>
          cases h
          rw [hzero] at hfind ⊢
          exact Or.inr ⟨[block2], none, .bottom hfind hnot, rfl⟩
        · next hzero =>
          refine (ih h).imp_right ?_
          rintro ⟨path, last, hdescent, rfl⟩
          refine ⟨block2 :: path, last, .down hfind hnot hzero hdescent, ?_⟩
          rw [executions, List.append_assoc]
          rfl

/-! ### The component -/

/-- The component signs under the identifier of the replica. -/
theorem signer_of_call {st : PrepState} {c : ChCombCall} {j : Just}
    (h : (chCombCall cr (enclaveVars cfg) st c).1.toJust = j) (hsize : j.signs.size = 1) :
    (j.signs.get 0).signer = cfg.myid := by
  subst h
  cases c with
  | sign => rfl
  | prepare block hash =>
    unfold chCombCall chCombTEEprepare at hsize ⊢
    dsimp only at hsize ⊢
    split at hsize
    · next hacc =>
      rw [if_pos hacc]
      rfl
    · exact absurd hsize Nat.zero_ne_one
  | accum js => exact absurd hsize Nat.zero_ne_one
  | accumSp just => exact absurd hsize Nat.zero_ne_one

theorem Alternates.increment {st : PrepState} (h : Alternates st) : Alternates st.chIncrement := by
  unfold PrepState.chIncrement
  rcases h with h | h
  · rw [h]
    exact Or.inr rfl
  · rw [h]
    exact Or.inl rfl

theorem alternates_of_call (c : ChCombCall) {st : PrepState} (h : Alternates st) :
    Alternates (chCombCall cr (enclaveVars cfg) st c).2 := by
  cases c with
  | sign => exact h.increment
  | prepare block hash =>
    unfold chCombCall chCombTEEprepare
    dsimp only
    split
    · -- the prepared block changes, and the counter moves on
      split
      · have hprepared : Alternates { st with preph := ca2hash block.cert, prepv := ca2view block.cert } := h
        exact hprepared.increment
      · exact h.increment
    · exact h
  | accum js => exact h
  | accumSp just => exact h

/-! ### Triples -/

/-- A vote is a program that keeps the invariant when the block has a source and its view is free. -/
def Votes (cfg : HandlerConfig Key) (cr : Crypto Key) (I : State → Prop)
    (vote : Origin → CBlock → HandlerM Unit) : Prop :=
  ∀ v L origin block, block.view = v → Sourced cfg cr (L v) block origin →
    Triple (fun s => InView cfg I v L s ∧ origin.Free s) (vote origin block) (fun _ => I) fun _ => I

section Triples

variable (hI : Kept cfg cr received I)
include hI

theorem InView.quiet {s s' : State} (hs : InView cfg I v L s) (h : Quiet s s')
    (hview : s'.view = s.view) (hskip : s'.skippedLeaders = s.skippedLeaders) :
    InView cfg I v L s' :=
  ⟨hI.step _ _ (.quiet h) hs.inv, hview.trans hs.view, fun w => hskip ▸ hs.leader w⟩

theorem VacantIn.quiet {s s' : State} (hs : VacantIn cfg I v L s) (h : Quiet s s')
    (hview : s'.view = s.view) (hskip : s'.skippedLeaders = s.skippedLeaders)
    (hentered : s'.entered = s.entered) : VacantIn cfg I v L s' := by
  refine ⟨hs.toInView.quiet hI h hview hskip, ?_⟩
  unfold State.Vacant
  rw [h.cblocks, hview, hentered, h.stores]
  exact hs.vacant

theorem InView.lookup {s : State} (hs : InView cfg I v L s) (w : View) :
    InView cfg I v L { s with skippedLeaders := (cfg.leaderOf s.skippedLeaders w).2 } := by
  refine ⟨hI.step s _ (.quiet ⟨rfl, rfl, rfl, rfl, rfl, id, .inl ⟨rfl, rfl⟩⟩) hs.inv, hs.view, fun w' => ?_⟩
  rw [cfg.leaderOf_lookup]
  exact hs.leader w'

theorem triple_getLeaderOf {w : View} :
    Triple (InView cfg I v L) (getLeaderOf cfg w) (fun leader s => InView cfg I v L s ∧ leader = L w)
      fun _ => I :=
  fun _ hs => ⟨hs.lookup hI w, hs.leader w⟩

theorem triple_amLeaderOf {w : View} :
    Triple (InView cfg I v L) (amLeaderOf cfg w)
      (fun b s => InView cfg I v L s ∧ (b = true ↔ L w = cfg.myid)) fun _ => I := by
  unfold amLeaderOf
  refine Triple.bind (triple_getLeaderOf hI) fun leader => Triple.ret fun s hs => ⟨hs.1, ?_⟩
  rw [hs.2, decide_eq_true_eq, eq_comm]

theorem triple_sendMsg {msg : Msg} {recipients : List PID} :
    Triple (InView cfg I v L) (sendMsg msg recipients) (fun _ => InView cfg I v L) fun _ => I :=
  Triple.update fun _ hs => hs.quiet hI ⟨rfl, rfl, rfl, rfl, rfl, id, .inl ⟨rfl, rfl⟩⟩ rfl rfl

theorem triple_setTimer : Triple (InView cfg I v L) setTimer (fun _ => InView cfg I v L) fun _ => I :=
  Triple.update fun _ hs => hs.quiet hI ⟨rfl, rfl, rfl, rfl, rfl, id, .inl ⟨rfl, rfl⟩⟩ rfl rfl

/-- A replica that has entered a view is free to store a block there. -/
theorem triple_incrementView :
    Triple (InView cfg I v L) incrementView (fun _ => VacantIn cfg I (nextView v) L) fun _ => I := by
  refine Triple.update fun s hs => ⟨⟨hI.step s _ (.quiet ?_) hs.inv, ?_, hs.leader⟩, Or.inr ?_⟩
  · exact ⟨rfl, rfl, rfl, rfl, rfl, id, .inr ⟨rfl, rfl⟩⟩
  · show nextView s.view = nextView v
    rw [hs.view]
  · exact List.getLast?_concat

theorem triple_storeNvChComb {msg : MsgNewViewChComb}
    (h : received (.newview msg) ∨ msg.sign.signer = cfg.myid) :
    Triple (InView cfg I v L) (storeNvChComb msg) (fun _ => InView cfg I v L) fun _ => I :=
  fun _ hs => ⟨hI.step _ _ (.newview h) hs.inv, hs.view, hs.leader⟩

theorem triple_storePrepChComb {msg : MsgPrepareChComb}
    (h : received (.prepare msg) ∨ msg.sign.signer = cfg.myid ∨
      ∃ m, received (.ldrprepare m) ∧ verifyLdrPrepareChComb cfg cr m = true ∧ msg = m.vote cr) :
    Triple (InView cfg I v L) (storePrepChComb msg) (fun _ => InView cfg I v L) fun _ => I :=
  fun _ hs => ⟨hI.step _ _ (.prepare h) hs.inv, hs.view, hs.leader⟩

theorem triple_storeLdrPrepChComb {msg : MsgLdrPrepareChComb}
    (h : verifyLdrPrepareChComb cfg cr msg = true) :
    Triple (InView cfg I v L) (storeLdrPrepChComb msg) (fun _ => InView cfg I v L) fun _ => I :=
  fun _ hs => ⟨hI.step _ _ (.proposal h) hs.inv, hs.view, hs.leader⟩

/-- A call of the component; what it signs is signed by the replica. -/
theorem triple_callTEE {c : ChCombCall} :
    Triple (InView cfg I v L) (callTEE cfg cr c)
      (fun reply s => InView cfg I v L s ∧
        (reply.toJust.signs.size = 1 → (reply.toJust.signs.get 0).signer = cfg.myid)) fun _ => I :=
  fun _ hs => ⟨hs.quiet hI ⟨rfl, rfl, rfl, rfl, rfl, alternates_of_call c, .inl ⟨rfl, rfl⟩⟩ rfl rfl, signer_of_call rfl⟩

/-! ### Starting a view -/

theorem triple_amCurrentLeader :
    Triple (InView cfg I v L) (amCurrentLeader cfg)
      (fun b s => InView cfg I v L s ∧ (b = true ↔ L v = cfg.myid)) fun _ => I := by
  unfold amCurrentLeader
  refine Triple.read_bind fun s₀ hs₀ => ?_
  rw [hs₀.view]
  exact (triple_amLeaderOf hI).pre fun _ hs => hs ▸ hs₀

theorem triple_callTEEsignChComb :
    Triple (InView cfg I v L) (callTEEsignChComb cfg cr)
      (fun j s => InView cfg I v L s ∧ (j.signs.size = 1 → (j.signs.get 0).signer = cfg.myid)) fun _ => I :=
  fun s hs => triple_callTEE hI (c := .sign) s hs

theorem triple_createNewBlockChComb :
    Triple (VacantIn cfg I v L) createNewBlockChComb
      (fun block s => VacantIn cfg I v L s ∧ block.view = v ∧ block.executed = false) fun _ => I :=
  fun _ hs => ⟨hs.quiet hI ⟨rfl, rfl, rfl, rfl, rfl, id, .inl ⟨rfl, rfl⟩⟩ rfl rfl rfl, hs.view, rfl⟩

theorem triple_newviews2accChComb {newviews : List MsgNewViewChComb} :
    Triple (VacantIn cfg I v L) (newviews2accChComb cfg cr newviews) (fun _ => VacantIn cfg I v L) fun _ => I := by
  unfold newviews2accChComb
  refine Triple.cond (fun _ => ?_) fun _ => ?_
  · exact fun _ hs => hs.quiet hI ⟨rfl, rfl, rfl, rfl, rfl, id, .inl ⟨rfl, rfl⟩⟩ rfl rfl rfl
  · exact fun _ hs => hs.quiet hI ⟨rfl, rfl, rfl, rfl, rfl, id, .inl ⟨rfl, rfl⟩⟩ rfl rfl rfl

theorem triple_selectCert :
    Triple (VacantIn cfg I v L) (selectCert cfg cr) (fun _ => VacantIn cfg I v L) fun _ => I := by
  unfold selectCert
  refine Triple.read_bind fun s₀ hs₀ => ?_
  refine Triple.pre (P := VacantIn cfg I v L) ?_ fun _ hs => hs ▸ hs₀
  refine Triple.cond (fun _ => ?_) fun _ => Triple.ret fun _ hs => hs
  refine Triple.cond (fun _ => ?_) fun _ => Triple.ret fun _ hs => hs
  refine Triple.bind (triple_newviews2accChComb hI) fun acc => ?_
  refine Triple.cond (fun _ => ?_) fun _ => Triple.ret fun _ hs => hs
  exact Triple.update fun _ hs => hs.quiet hI ⟨rfl, rfl, rfl, rfl, rfl, id, .inl ⟨rfl, rfl⟩⟩ rfl rfl rfl

section Vote

variable {vote : Origin → CBlock → HandlerM Unit} (hvote : Votes cfg cr I vote)
include hvote

/-- The replica proposes in a view that it leads. -/
theorem triple_prepareChComb (hleader : L v = cfg.myid) :
    Triple (VacantIn cfg I v L) (prepareChComb cfg cr vote) (fun _ => I) fun _ => I := by
  unfold prepareChComb
  refine Triple.bind (triple_selectCert hI) fun _ => ?_
  refine Triple.bind (triple_createNewBlockChComb hI) fun block => Triple.given fun hblock => ?_
  exact (hvote v L .own block hblock.1 ⟨hleader, hblock.2⟩).pre fun _ hs => ⟨hs.toInView, hs.vacant⟩

theorem triple_checkNewJustChComb (hleader : L (nextView v) = cfg.myid) {data : RData} :
    Triple (InView cfg I v L) (checkNewJustChComb cfg cr vote data) (fun _ => I) fun _ => I := by
  unfold checkNewJustChComb
  refine Triple.read_bind fun s₀ hs₀ => ?_
  refine Triple.pre (P := InView cfg I v L) ?_ fun _ hs => hs ▸ hs₀
  cases Raftel.checkNewJustChComb s₀.log.preparesChComb cfg.qsize data with
  | none => exact Triple.ret fun _ hs => hs.inv
  | some cert =>
    refine Triple.bind (Q := fun _ => InView cfg I v L) (Triple.update fun _ hs => ?_) fun _ => ?_
    · exact hs.quiet hI ⟨rfl, rfl, rfl, rfl, rfl, id, .inl ⟨rfl, rfl⟩⟩ rfl rfl
    · exact Triple.bind (triple_incrementView hI) fun _ => triple_prepareChComb hI hvote hleader

/-- A proposal of the log has been verified, and it is for the view under which it is filed. -/
theorem triple_handleEarlierMessagesChComb :
    Triple (InView cfg I v L) (handleEarlierMessagesChComb cfg vote) (fun _ => I) fun _ => I := by
  unfold handleEarlierMessagesChComb
  refine Triple.bind (triple_amCurrentLeader hI) fun leader => ?_
  refine Triple.read_bind fun s₀ hs₀ => ?_
  refine Triple.pre (P := fun s => InView cfg I v L s ∧ s = s₀) ?_ fun _ hs => ⟨hs ▸ hs₀.1, hs⟩
  refine Triple.cond (fun _ => Triple.ret fun _ hs => hs.1.inv) fun _ => ?_
  cases hfirst : s₀.log.firstLdrPrepareChComb s₀.view with
  | none => exact Triple.ret fun _ hs => hs.1.inv
  | some msg =>
    have hmem : msg ∈ s₀.log.ldrpreparesChComb.get s₀.view := List.mem_of_head? hfirst
    refine Triple.cond (fun hguard => ?_) fun _ => Triple.ret fun _ hs => hs.1.inv
    refine (hvote v L (.earlier msg.sign) _ ((ViewLog.viewOf_of_mem_get hmem).trans hs₀.1.view)
      (hI.verified s₀ hs₀.1.inv _ _ hmem)).pre ?_
    rintro s ⟨hs, rfl⟩
    rw [Bool.and_eq_true, Option.isNone_iff_eq_none] at hguard
    exact ⟨hs, hguard.2⟩

omit hvote in
theorem triple_sendNewview {recipients : List PID} {justNv : Just}
    (hsigner : (justNv.signs.get 0).signer = cfg.myid) :
    Triple (InView cfg I v L) (sendNewview cfg recipients justNv) (fun _ => InView cfg I v L) fun _ => I := by
  unfold sendNewview
  refine Triple.read_bind fun s₀ hs₀ => ?_
  refine Triple.pre (P := InView cfg I v L) ?_ fun _ hs => hs ▸ hs₀
  refine Triple.bind (triple_amLeaderOf hI) fun leader => Triple.given fun _ => ?_
  refine Triple.cond (fun _ => ?_) fun _ => triple_sendMsg hI
  exact Triple.bind (triple_storeNvChComb hI (Or.inr hsigner)) fun _ => Triple.ret fun _ hs => hs

omit hvote in
theorem triple_signNewview {view : View} {fuel : ℕ} {justNv : Just}
    (hsigner : justNv.signs.size = 1 → (justNv.signs.get 0).signer = cfg.myid) :
    Triple (InView cfg I v L) (signNewview cfg cr view fuel justNv)
      (fun j s => InView cfg I v L s ∧ (j.signs.size = 1 → (j.signs.get 0).signer = cfg.myid)) fun _ => I := by
  induction fuel generalizing justNv with
  | zero => exact Triple.raise fun _ hs => hs.inv
  | succ fuel ih =>
    unfold signNewview
    refine Triple.cond (fun _ => ?_) fun _ => Triple.ret fun _ hs => ⟨hs, hsigner⟩
    exact Triple.bind (triple_callTEEsignChComb hI) fun j => Triple.given ih

theorem triple_startNewViewChComb {fuel : ℕ} :
    Triple (InView cfg I v L) (startNewViewChComb cfg cr vote fuel) (fun _ => I) fun _ => I := by
  unfold startNewViewChComb
  refine Triple.read_bind fun s₀ hs₀ => ?_
  refine Triple.pre (P := InView cfg I v L) ?_ fun _ hs => hs ▸ hs₀
  refine Triple.bind (triple_callTEEsignChComb hI) fun first => Triple.given fun hfirst => ?_
  refine Triple.bind (triple_signNewview hI hfirst) fun justNv => Triple.given fun hsigner => ?_
  refine Triple.cond (fun hsize => ?_) fun _ => Triple.ret fun _ hs => hs.inv
  refine Triple.bind (triple_getLeaderOf hI) fun nextLeader => Triple.given fun _ => ?_
  refine Triple.bind (triple_sendNewview hI (hsigner hsize)) fun _ => ?_
  refine Triple.bind (triple_incrementView hI) fun _ => Triple.pre ?_ fun _ hs => hs.toInView
  refine Triple.bind (triple_setTimer hI) fun _ => ?_
  refine Triple.bind (triple_amCurrentLeader hI) fun leader => Triple.given fun _ => ?_
  exact Triple.cond (fun _ => Triple.ret fun _ hs => hs.inv) fun _ =>
    triple_handleEarlierMessagesChComb hI hvote

omit hI hvote in
/-- A lookup from a state that has a name. -/
theorem triple_amLeaderOf_from {s₀ : State} {w : View} :
    Triple (fun s => s = s₀) (amLeaderOf cfg w)
      (fun b s => s = s₀.lookedUp cfg w ∧ (b = true ↔ (cfg.leaderOf s₀.skippedLeaders w).1 = cfg.myid))
      fun _ => I := by
  rintro s rfl
  have hleader : decide (cfg.myid = (cfg.leaderOf s.skippedLeaders w).1) = true ↔
      (cfg.leaderOf s.skippedLeaders w).1 = cfg.myid := by
    rw [decide_eq_true_eq, eq_comm]
  exact ⟨rfl, hleader⟩

omit hvote in
theorem State.lookedUp_inv {s₀ : State} {w : View} (h : I s₀) : I (s₀.lookedUp cfg w) :=
  hI.step s₀ _ (.quiet ⟨rfl, rfl, rfl, rfl, rfl, id, .inl ⟨rfl, rfl⟩⟩) h

/-- What holds in the state in which a new-view comes, if it does not pass the checks, and else in the one in
which it is stored, holds afterwards. -/
theorem triple_handleNewviewChComb {msg : MsgNewViewChComb} {s₀ : State}
    (hpass : ¬ s₀.Passes cfg (.newview msg) → I s₀)
    (hlogged : s₀.Passes cfg (.newview msg) → received (.newview msg) ∨ msg.sign.signer = cfg.myid)
    (hstored : s₀.Passes cfg (.newview msg) → ∀ s₁, s₁ = s₀ ∨ s₁ = s₀.lookedUp cfg (nextView msg.data.propv) →
      I { s₁ with log := s₁.log.store (.newview msg) }) :
    Triple (fun s => s = s₀) (handleNewviewChComb cfg cr vote msg) (fun _ => I) fun _ => I := by
  unfold handleNewviewChComb
  refine Triple.read_bind fun s hs => ?_
  subst hs
  refine Triple.cond (fun hgate => ?_) fun hgate => Triple.ret fun s' hs' => hs' ▸ hpass fun h => hgate ?_
  · rw [Bool.and_eq_true, Bool.and_eq_true, Bool.not_eq_true', decide_eq_true_eq, decide_eq_true_eq] at hgate
    refine Triple.bind triple_amLeaderOf_from fun leader => Triple.given fun hleader => ?_
    refine Triple.cond (fun hlead => ?_) fun hnot => Triple.ret fun s' hs' => ?_
    · have hpasses : s.Passes cfg (.newview msg) := ⟨hgate.1.1, hgate.1.2, hgate.2, hleader.mp hlead⟩
      have hstore : Triple (fun s' => s' = s.lookedUp cfg (nextView msg.data.propv)) (storeNvChComb msg)
          (fun _ s' => InView cfg I s.view (fun w => (cfg.leaderOf s.skippedLeaders w).1) s' ∧
            s'.cblocks = s.cblocks) fun _ => I := by
        rintro s' rfl
        exact ⟨⟨hstored hpasses _ (Or.inr rfl), rfl, fun w => cfg.leaderOf_lookup _ _ _⟩, rfl⟩
      refine Triple.cond (fun hview => Triple.bind hstore fun n => ?_) fun _ =>
        Triple.bind hstore fun _ => Triple.ret fun _ hs' => hs'.1.inv
      refine Triple.cond (fun hguard => ?_) fun _ => ?_
      · refine (triple_prepareChComb hI hvote ?_).pre fun s' hs' => ⟨hs'.1, Or.inl ?_⟩
        · rw [← hview]
          exact hleader.mp hlead
        · rw [Bool.and_eq_true, Option.isNone_iff_eq_none] at hguard
          rw [hs'.1.view, hs'.2]
          exact hguard.2
      · exact Triple.bind ((triple_storeNvChComb hI (hlogged hpasses)).pre fun _ hs' => hs'.1) fun _ =>
          Triple.ret fun _ hs' => hs'.inv
    · rw [hs']
      exact State.lookedUp_inv hI (hpass fun h => hnot (hleader.mpr h.2.2.2))
  · rw [Bool.and_eq_true, Bool.and_eq_true, Bool.not_eq_true', decide_eq_true_eq, decide_eq_true_eq]
    exact ⟨⟨h.1, h.2.1⟩, h.2.2.1⟩

end Vote

/-! ### Votes -/

theorem triple_recordStats :
    Triple (InView cfg I v L) recordStats (fun _ => InView cfg I v L) fun _ => I := by
  refine Triple.read_bind fun s₀ hs₀ => Triple.cond (fun _ => ?_) fun _ => ?_
  · exact Triple.raise fun _ hs => hs ▸ hs₀.inv
  · refine Triple.update fun s hs => ?_
    subst hs
    exact hs₀.quiet hI ⟨rfl, rfl, rfl, rfl, rfl, id, .inl ⟨rfl, rfl⟩⟩ rfl rfl

theorem triple_tryExecuteChComb {fuel : ℕ} {blockL block0 : CBlock} :
    Triple (InView cfg I v L) (tryExecuteChComb cfg fuel blockL block0) (fun _ => InView cfg I v L)
      fun _ => I := by
  unfold tryExecuteChComb
  refine Triple.cond (fun _ => ?_) fun _ => Triple.ret fun _ hs => hs
  refine Triple.read_bind fun s₀ hs₀ => ?_
  cases hwalk : blocksToExec s₀.cblocks fuel block0 [] with
  | none => exact Triple.raise fun _ hs => hs ▸ hs₀.inv
  | some toExec =>
    refine Triple.bind (Q := fun _ => InView cfg I v L) (Triple.assign fun s hs => ?_) fun _ => ?_
    · refine ⟨hI.step s₀ _ (.walk hwalk) hs₀.inv, ?_, fun w => ?_⟩
      · rw [State.walked_view]
        exact hs₀.view
      · rw [State.walked_skippedLeaders]
        exact hs₀.leader w
    · refine Triple.read_bind fun s₁ hs₁ => ?_
      refine Triple.pre (P := InView cfg I v L) ?_ fun _ hs => hs ▸ hs₁
      exact Triple.cond (fun _ => triple_recordStats hI) fun _ => Triple.ret fun _ hs => hs

theorem triple_sendPrepare {recipients : List PID} {block : CBlock} {justPrep : Just}
    (hsigner : (justPrep.signs.get 0).signer = cfg.myid) :
    Triple (InView cfg I v L) (sendPrepare cfg recipients block justPrep) (fun _ => InView cfg I v L)
      fun _ => I := by
  unfold sendPrepare
  refine Triple.read_bind fun s₀ hs₀ => ?_
  refine Triple.pre (P := InView cfg I v L) ?_ fun _ hs => hs ▸ hs₀
  refine Triple.bind (triple_amLeaderOf hI) fun leader => Triple.given fun _ => ?_
  refine Triple.cond (fun _ => triple_sendMsg hI) fun _ => ?_
  refine Triple.bind (triple_amLeaderOf hI) fun nextLeader => Triple.given fun _ => ?_
  refine Triple.cond (fun _ => ?_) fun _ => triple_sendMsg hI
  exact Triple.bind (triple_storePrepChComb hI (Or.inr (Or.inl hsigner))) fun _ =>
    Triple.ret fun _ hs => hs

theorem triple_leaveView {vote : Origin → CBlock → HandlerM Unit} (hvote : Votes cfg cr I vote)
    {justPrep : Just} :
    Triple (InView cfg I v L) (leaveView cfg cr vote justPrep) (fun _ => I) fun _ => I := by
  unfold leaveView
  refine Triple.read_bind fun s₀ hs₀ => ?_
  refine Triple.pre (P := InView cfg I v L) ?_ fun _ hs => hs ▸ hs₀
  refine Triple.bind (triple_amLeaderOf hI) fun nextLeader => Triple.given fun hleader => ?_
  refine Triple.cond (fun hlead => triple_checkNewJustChComb hI hvote ?_) fun _ => ?_
  · rw [← hs₀.view]
    exact hleader.mp hlead
  · exact Triple.bind (triple_incrementView hI) fun _ =>
      (triple_handleEarlierMessagesChComb hI hvote).pre fun _ hs => hs.toInView

/-- **Votes keep the invariant**, however many of them follow on the first. -/
theorem votes_voteChComb (fuel : ℕ) : Votes cfg cr I (voteChComb cfg cr fuel) := by
  induction fuel with
  | zero => exact fun v L origin block _ _ => Triple.raise fun _ hs => hs.1.inv
  | succ fuel ih =>
    intro v L origin block hview hsource
    unfold voteChComb
    refine Triple.bind (Q := fun _ => InView cfg I v L) (Triple.update fun s hs => ?_) fun _ => ?_
    · obtain ⟨hs, hfree⟩ := hs
      refine ⟨hI.step s _ (.store (hview.trans hs.view.symm) ?_ hfree) hs.inv, hs.view, hs.leader⟩
      rw [State.leader, hs.leader, hs.view]
      exact hsource
    refine Triple.read_bind fun s₀ hs₀ => ?_
    refine Triple.pre (P := InView cfg I v L) ?_ fun _ hs => hs ▸ hs₀
    cases s₀.cblocks.lookup (ca2view block.cert) with
    | none => exact Triple.ret fun _ hs => hs.inv
    | some block0 =>
      refine Triple.bind (Q := fun j s => InView cfg I v L s ∧
        (j.signs.size = 1 → (j.signs.get 0).signer = cfg.myid)) ?_ fun justPrep => ?_
      · exact fun s hs => triple_callTEE hI (c := .prepare block (block0.hash cr.sha256)) s hs
      refine Triple.given fun hsignerPrep => ?_
      refine Triple.bind (triple_callTEEsignChComb hI) fun justNv2 => Triple.given fun hsignerNv => ?_
      refine Triple.cond (fun hsizePrep => ?_) fun _ => Triple.ret fun _ hs => hs.inv
      refine Triple.bind (triple_getLeaderOf hI) fun nextLeader => Triple.given fun _ => ?_
      refine Triple.bind (triple_sendPrepare hI (hsignerPrep hsizePrep)) fun _ => ?_
      refine Triple.cond (fun hsizeNv => ?_) fun _ => Triple.ret fun _ hs => hs.inv
      refine Triple.bind (triple_sendNewview hI (hsignerNv hsizeNv)) fun _ => ?_
      refine Triple.bind (triple_setTimer hI) fun _ => ?_
      exact Triple.bind (triple_tryExecuteChComb hI) fun _ => triple_leaveView hI ih

/-! ### Inputs -/

theorem triple_handleLdrPrepareChComb {fuel : ℕ} {msg : MsgLdrPrepareChComb}
    (h : received (.ldrprepare msg)) :
    Triple (InView cfg I v L) (handleLdrPrepareChComb cfg cr fuel msg) (fun _ => I) fun _ => I := by
  unfold handleLdrPrepareChComb
  refine Triple.read_bind fun s₀ hs₀ => ?_
  refine Triple.pre (P := InView cfg I v L) ?_ fun _ hs => hs ▸ hs₀
  refine Triple.cond (fun _ => ?_) fun _ => Triple.ret fun _ hs => hs.inv
  refine Triple.bind (triple_amLeaderOf hI) fun leader => Triple.given fun _ => ?_
  refine Triple.cond (fun hcond => ?_) fun _ => Triple.ret fun _ hs => hs.inv
  have hverified : verifyLdrPrepareChComb cfg cr msg = true := (Bool.and_eq_true _ _ ▸ hcond).2
  refine Triple.bind (Q := fun _ => InView cfg I v L) ?_ fun _ => ?_
  · unfold storeLeaderVote
    refine Triple.bind (triple_amLeaderOf hI) fun nextLeader => Triple.given fun _ => ?_
    refine Triple.cond (fun _ => ?_) fun _ => Triple.ret fun _ hs => hs
    exact Triple.bind (triple_storePrepChComb hI (Or.inr (Or.inr ⟨msg, h, hverified, rfl⟩))) fun _ =>
      Triple.ret fun _ hs => hs
  · refine Triple.cond (fun hview => ?_) fun _ => ?_
    · exact (votes_voteChComb hI fuel v L (.proposal msg.sign) _ (hview.trans hs₀.view) hverified).pre
        fun _ hs => ⟨hs, trivial⟩
    · exact Triple.bind (triple_storeLdrPrepChComb hI hverified) fun _ =>
        Triple.ret fun _ hs => hs.inv

/-- The same for votes. -/
theorem triple_handlePrepareChComb {fuel : ℕ} {msg : MsgPrepareChComb} {s₀ : State}
    (hpass : ¬ s₀.Passes cfg (.prepare msg) → I s₀)
    (hstored : s₀.Passes cfg (.prepare msg) → ∀ s₁, s₁ = s₀ ∨ s₁ = s₀.lookedUp cfg (nextView msg.data.propv) →
      I { s₁ with log := s₁.log.store (.prepare msg) }) :
    Triple (fun s => s = s₀) (handlePrepareChComb cfg cr fuel msg) (fun _ => I) fun _ => I := by
  unfold handlePrepareChComb
  refine Triple.read_bind fun s hs => ?_
  subst hs
  refine Triple.cond (fun hview => ?_) fun hview => Triple.cond (fun hlater => ?_) fun hlater => ?_
  · refine Triple.bind triple_amLeaderOf_from fun nextLeader => Triple.given fun hleader => ?_
    refine Triple.cond (fun hlead => ?_) fun hnot => Triple.ret fun s' hs' => ?_
    · have hpasses : s.Passes cfg (.prepare msg) := Or.inl ⟨hview, hleader.mp hlead⟩
      refine Triple.bind (Q := fun _ => InView cfg I s.view fun w => (cfg.leaderOf s.skippedLeaders w).1) ?_
        fun n => Triple.cond (fun _ => triple_checkNewJustChComb hI (votes_voteChComb hI fuel) ?_) fun _ =>
          Triple.ret fun _ hs' => hs'.inv
      · rintro s' rfl
        exact ⟨hstored hpasses _ (Or.inr rfl), rfl, fun w => cfg.leaderOf_lookup _ _ _⟩
      · rw [← hview]
        exact hleader.mp hlead
    · rw [hs']
      refine State.lookedUp_inv hI (hpass fun h => ?_)
      rcases h with ⟨-, hlead⟩ | hgt
      · exact hnot (hleader.mpr hlead)
      · exact absurd hview (Nat.ne_of_gt hgt)
  · have hpasses : s.Passes cfg (.prepare msg) := Or.inr hlater
    refine Triple.bind (Q := fun _ => I) ?_ fun _ => Triple.ret fun _ hs' => hs'
    rintro s' rfl
    exact hstored hpasses _ (Or.inl rfl)
  · refine Triple.ret fun s' hs' => hs' ▸ hpass fun h => ?_
    rcases h with ⟨hcurrent, -⟩ | hgt
    · exact hview hcurrent
    · exact hlater hgt

/-- A new-view or a vote is a step of the log. -/
theorem State.stored_inv {msg : Msg} {s₀ s₁ : State} {w : View}
    (h : received msg ∨ ∃ m, msg = .newview m ∧ m.sign.signer = cfg.myid)
    (hs₁ : s₁ = s₀ ∨ s₁ = s₀.lookedUp cfg w) (hs₀ : I s₀) : I { s₁ with log := s₁.log.store msg } := by
  have hinv : I s₁ := by
    rcases hs₁ with rfl | rfl
    · exact hs₀
    · exact State.lookedUp_inv hI hs₀
  cases msg with
  | newview msg =>
    refine hI.step s₁ _ (.newview (h.imp_right ?_)) hinv
    rintro ⟨m, heq, hsigner⟩
    cases heq
    exact hsigner
  | ldrprepare msg => exact hinv
  | prepare msg =>
    refine hI.step s₁ _ (.prepare (h.imp_right ?_)) hinv
    rintro ⟨m, heq, -⟩
    cases heq

theorem triple_getStarted {fuel : ℕ} :
    Triple (InView cfg I v L) (getStarted cfg cr fuel) (fun _ => I) fun _ => I := by
  unfold getStarted
  refine Triple.read_bind fun s₀ hs₀ => ?_
  refine Triple.pre (P := InView cfg I v L) ?_ fun _ hs => hs ▸ hs₀
  refine Triple.bind (triple_getLeaderOf hI) fun _ => Triple.given fun _ => ?_
  refine Triple.bind (triple_getLeaderOf hI) fun nextLeader => Triple.given fun _ => ?_
  refine Triple.bind (Q := fun j s => InView cfg I v L s ∧ (j.signs.get 0).signer = cfg.myid) ?_
    fun j => Triple.given fun hsigner => ?_
  · exact fun s hs => ⟨(triple_callTEEsignChComb hI s hs).1, (triple_callTEEsignChComb hI s hs).2 rfl⟩
  refine Triple.bind (Q := fun _ => InView cfg I 1 L) (Triple.update fun s hs => ?_) fun _ => ?_
  · exact ⟨hI.step s _ .begin hs.inv, rfl, hs.leader⟩
  refine Triple.bind (triple_amCurrentLeader hI) fun leader => Triple.given fun _ => ?_
  refine Triple.cond (fun _ => ?_) fun _ => ?_
  · intro s hs
    refine triple_handleNewviewChComb hI (votes_voteChComb hI fuel) (fun _ => hs.inv) (fun _ => Or.inr hsigner)
      (fun _ s₁ hs₁ => ?_) s rfl
    exact State.stored_inv hI (Or.inr ⟨_, rfl, hsigner⟩) hs₁ hs.inv
  · exact Triple.bind (triple_sendMsg hI) fun _ =>
      triple_handleEarlierMessagesChComb hI (votes_voteChComb hI fuel)

/-- The handlers of messages. -/
theorem triple_handlePeer {fuel : ℕ} {msg : Msg} {s₀ : State} (hpass : ¬ s₀.Passes cfg msg → I s₀)
    (hreceived : s₀.Passes cfg msg → received msg)
    (hstored : s₀.Passes cfg msg → ∀ w s₁, s₁ = s₀ ∨ s₁ = s₀.lookedUp cfg w →
      I { s₁ with log := s₁.log.store msg }) :
    Triple (fun s => s = s₀) (handle cfg cr fuel (.peer msg)) (fun _ => I) fun _ => I := by
  cases msg with
  | newview msg =>
    exact triple_handleNewviewChComb hI (votes_voteChComb hI fuel) hpass (fun h => Or.inl (hreceived h))
      fun h s₁ => hstored h _ s₁
  | ldrprepare msg =>
    have hs₀ : I s₀ := hstored trivial s₀.view s₀ (Or.inl rfl)
    rintro s rfl
    exact triple_handleLdrPrepareChComb hI (hreceived trivial) s ⟨hs₀, rfl, fun w => rfl⟩
  | prepare msg => exact triple_handlePrepareChComb hI hpass fun h s₁ => hstored h _ s₁

/-- **Every handler is made of steps.** -/
theorem triple_handle {fuel : ℕ} {input : Input} {s₀ : State} (hs₀ : I s₀)
    (h : ∀ msg, input = .peer msg → s₀.Passes cfg msg → received msg) :
    Triple (fun s => s = s₀) (handle cfg cr fuel input) (fun _ => I) fun _ => I := by
  -- the view and the leaders are named
  have hnamed : ∀ {m : HandlerM Unit}, (∀ v L, Triple (InView cfg I v L) m (fun _ => I) fun _ => I) →
      Triple I m (fun _ => I) fun _ => I :=
    fun hm s hs => hm s.view (fun w => (cfg.leaderOf s.skippedLeaders w).1) s ⟨hs, rfl, fun _ => rfl⟩
  cases input with
  | peer msg =>
    refine triple_handlePeer hI (fun _ => hs₀) (h msg rfl) fun hpasses w s₁ hs₁ => ?_
    exact State.stored_inv hI (Or.inl (h msg rfl hpasses)) hs₁ hs₀
  | start cid =>
    refine (hnamed fun v L => ?_).pre fun _ hs => hs ▸ hs₀
    show Triple _ (handleStart cfg cr fuel cid) _ _
    unfold handleStart
    refine Triple.read_bind fun s₀ hs₀ => ?_
    refine Triple.bind (Q := fun _ => InView cfg I v L) (Triple.assign fun s hs => ?_) fun _ => ?_
    · exact hs₀.quiet hI ⟨rfl, rfl, rfl, rfl, rfl, id, .inl ⟨rfl, rfl⟩⟩ rfl rfl
    · exact Triple.cond (fun _ => Triple.ret fun _ hs => hs.inv) fun _ => triple_getStarted hI
  | transaction trans =>
    refine Triple.update fun s hs => hI.step s _ (.quiet ?_) (hs ▸ hs₀)
    split <;> exact ⟨rfl, rfl, rfl, rfl, rfl, id, .inl ⟨rfl, rfl⟩⟩
  | timeout =>
    show Triple _ (startNewViewOnTimeout cfg cr fuel) _ _
    unfold startNewViewOnTimeout
    refine Triple.bind (Q := fun _ => I) (Triple.update fun s hs => hI.step s _ (.quiet ?_) (hs ▸ hs₀))
      fun _ => ?_
    · split <;> exact ⟨rfl, rfl, rfl, rfl, rfl, id, .inl ⟨rfl, rfl⟩⟩
    · exact hnamed fun v L => triple_startNewViewChComb hI (votes_voteChComb hI fuel)

/-- A reaction is what the handler does, unless the replica is stopped or the timer is not set. -/
theorem react_of_triple {s : State} {fuel : ℕ} {input : Input}
    (hs : s.stopped = true ∨ (input.isTimeout && !s.timer) = true → I s)
    (hhandle : Triple (fun s' => s' = s) (handle cfg cr fuel input) (fun _ => I) fun _ => I) :
    I (s.react cfg cr fuel input) := by
  have hend := hhandle s rfl
  unfold State.react
  split
  · next hstop => exact hs (Or.inl hstop)
  · split
    · next htimer => exact hs (Or.inr htimer)
    · cases hres : handle cfg cr fuel input s with
      | ok a s' =>
        rw [hres] at hend
        exact hend
      | error e s' =>
        rw [hres] at hend
        dsimp only
        split
        · exact hI.step s' _ (.quiet ⟨rfl, rfl, rfl, rfl, rfl, id, .inl ⟨rfl, rfl⟩⟩) hend
        · exact hend

/-- **Messages.**  What holds after a message is stored, or if it is not, holds after the reaction to it. -/
theorem react_peer {s : State} {fuel : ℕ} {msg : Msg} (hstop : s.stopped = true → I s)
    (hpass : ¬ s.Passes cfg msg → I s) (hreceived : s.Passes cfg msg → received msg)
    (hstored : s.Passes cfg msg → ∀ w s₁, s₁ = s ∨ s₁ = s.lookedUp cfg w →
      I { s₁ with log := s₁.log.store msg }) : I (s.react cfg cr fuel (.peer msg)) := by
  refine react_of_triple hI (fun h => ?_) (triple_handlePeer hI hpass hreceived hstored)
  rcases h with h | h
  · exact hstop h
  · exact absurd h Bool.false_ne_true

/-- **The reaction to an input keeps what every step keeps.** -/
theorem react_kept {s : State} {fuel : ℕ} {input : Input}
    (h : ∀ msg, input = .peer msg → s.Passes cfg msg → received msg) (hs : I s) :
    I (s.react cfg cr fuel input) :=
  react_of_triple hI (fun _ => hs) (triple_handle hI hs h)

/-- **A run keeps what every step keeps.** -/
theorem run_kept {s : State} {inputs : List (ℕ × Input)}
    (h : ∀ x ∈ inputs, ∀ msg, x.2 = .peer msg → received msg) (hs : I s) : I (s.run cfg cr inputs) := by
  induction inputs generalizing s with
  | nil => exact hs
  | cons x inputs ih =>
    exact ih (fun y hy => h y (List.mem_cons_of_mem x hy))
      (react_kept hI (fun msg hmsg _ => h x List.mem_cons_self msg hmsg) hs)

end Triples

/-- The messages that come in a run. -/
def Received (inputs : List (ℕ × Input)) (msg : Msg) : Prop := ∃ fuel, (fuel, .peer msg) ∈ inputs

/-- **Runs are made of steps**: what every step keeps holds of every run. -/
theorem run_invariant {inputs : List (ℕ × Input)} (hinit : I (State.init cr.sha256))
    (hstep : ∀ s s', Step cfg cr (Received inputs) s s' → I s → I s') : I (run cfg cr inputs) := by
  have hkept : Kept cfg cr (Received inputs) fun s => I s ∧ s.log.Verified cfg cr :=
    ⟨fun s s' h hs => ⟨hstep s s' h hs.1, h.log_verified hs.2⟩, fun s hs => hs.2⟩
  have hreceived : ∀ x ∈ inputs, ∀ msg, x.2 = .peer msg → Received inputs msg :=
    fun x hx msg hmsg => ⟨x.1, hmsg ▸ hx⟩
  exact (run_kept hkept hreceived ⟨hinit, ViewLog.all_empty⟩).1

/-- So does the rest of a run. -/
theorem run_later {inputs later : List (ℕ × Input)} (hstart : I (run cfg cr inputs))
    (hstep : ∀ s s', Step cfg cr (Received later) s s' → I s → I s') :
    I (run cfg cr (inputs ++ later)) := by
  have hkept : Kept cfg cr (Received later) fun s => I s ∧ s.log.Verified cfg cr :=
    ⟨fun s s' h hs => ⟨hstep s s' h hs.1, h.log_verified hs.2⟩, fun s hs => hs.2⟩
  have hverified : (run cfg cr inputs).log.Verified cfg cr :=
    run_invariant (I := fun s => s.log.Verified cfg cr) ViewLog.all_empty fun _ _ h => h.log_verified
  have hreceived : ∀ x ∈ later, ∀ msg, x.2 = .peer msg → Received later msg :=
    fun x hx msg hmsg => ⟨x.1, hmsg ▸ hx⟩
  rw [run, State.run, List.foldl_append]
  exact (run_kept hkept hreceived ⟨hstart, hverified⟩).1

/-! ### Stored blocks -/

/-- Blocks are stored under their views. -/
def Keyed (cblocks : StdMap View CBlock) : Prop := ∀ v b, cblocks.lookup v = some b → b.view = v

theorem Keyed.insert {cblocks : StdMap View CBlock} (h : Keyed cblocks) (b : CBlock) :
    Keyed (cblocks.insert b.view b) := by
  intro v c hc
  by_cases hv : v = b.view
  · subst hv
    rw [AList.lookup_insert, Option.some.injEq] at hc
    rw [hc]
  · rw [AList.lookup_insert_ne hv] at hc
    exact h v c hc

theorem Step.keyed {s s' : State} (h : Step cfg cr received s s') (hs : Keyed s.cblocks) :
    Keyed s'.cblocks := by
  cases h with
  | quiet h => exact h.cblocks ▸ hs
  | newview h => exact hs
  | prepare h => exact hs
  | proposal h => exact hs
  | @store origin block hview _ _ =>
    show Keyed (s.cblocks.insert s.view block)
    rw [← hview]
    exact hs.insert block
  | @walk fuel block0 toExec h =>
    have hfold : ∀ (l : List Execution) (t : State), Keyed t.cblocks →
        Keyed (l.foldl State.execute t).cblocks := by
      intro l
      induction l with
      | nil => exact fun t ht => ht
      | cons e l ih => exact fun t ht => ih _ (ht.insert e.block.markExecuted)
    exact hfold toExec _ hs
  | begin => exact hs.insert genBlock

theorem run_keyed (cfg : HandlerConfig Key) (cr : Crypto Key) (inputs : List (ℕ × Input)) :
    Keyed (run cfg cr inputs).cblocks :=
  run_invariant (I := fun s => Keyed s.cblocks) (fun v b hb => by simp [State.init] at hb)
    fun _ _ h hs => h.keyed hs

@[simp]
theorem State.walked_tq (s : State) (block0 : CBlock) (toExec : List Execution) :
    (s.walked block0 toExec).tq = s.tq :=
  foldl_execute (fun _ _ => rfl) toExec _

/-- The component stays in its two phases. -/
theorem Step.alternates {s s' : State} (h : Step cfg cr received s s') (hs : Alternates s.tq) :
    Alternates s'.tq := by
  cases h with
  | quiet h => exact h.alternates hs
  | newview h => exact hs
  | prepare h => exact hs
  | proposal h => exact hs
  | store => exact hs
  | walk h => exact (State.walked_tq _ _ _).symm ▸ hs
  | begin => exact hs

theorem run_alternates (cfg : HandlerConfig Key) (cr : Crypto Key) (inputs : List (ℕ × Input)) :
    Alternates (run cfg cr inputs).tq :=
  run_invariant (I := fun s => Alternates s.tq) (Or.inl rfl) fun _ _ h hs => h.alternates hs

/-- No record of a stored block is lost. -/
theorem Step.stores_prefix {s s' : State} (h : Step cfg cr received s s') : s.stores <+: s'.stores := by
  cases h with
  | quiet h => exact h.stores ▸ List.prefix_rfl
  | newview h => exact List.prefix_rfl
  | prepare h => exact List.prefix_rfl
  | proposal h => exact List.prefix_rfl
  | store => exact List.prefix_append _ _
  | walk h => exact (State.walked_stores _ _ _).symm ▸ List.prefix_rfl
  | begin => exact List.prefix_append _ _

/-- No record of a view that has been entered is lost. -/
theorem Step.entered_prefix {s s' : State} (h : Step cfg cr received s s') : s.entered <+: s'.entered := by
  cases h with
  | quiet h =>
    rcases h.views with ⟨-, hsame⟩ | ⟨-, hnext⟩
    · exact hsame ▸ List.prefix_rfl
    · exact hnext ▸ List.prefix_append _ _
  | newview h => exact List.prefix_rfl
  | prepare h => exact List.prefix_rfl
  | proposal h => exact List.prefix_rfl
  | store => exact List.prefix_rfl
  | walk h => exact (State.walked_entered _ _ _).symm ▸ List.prefix_rfl
  | begin => exact List.prefix_append _ _

/-- The executions of a walk overwrite the blocks of their views. -/
theorem walked_lookup (s : State) (block0 : CBlock) (toExec : List Execution) (v : View) :
    ((s.walked block0 toExec).cblocks.lookup v = s.cblocks.lookup v ∧ ∀ e ∈ toExec, e.block.view ≠ v) ∨
      ∃ e ∈ toExec, e.block.view = v ∧
        (s.walked block0 toExec).cblocks.lookup v = some e.block.markExecuted := by
  have hfold : ∀ (l : List Execution) (t : State),
      ((l.foldl State.execute t).cblocks.lookup v = t.cblocks.lookup v ∧ ∀ e ∈ l, e.block.view ≠ v) ∨
        ∃ e ∈ l, e.block.view = v ∧
          (l.foldl State.execute t).cblocks.lookup v = some e.block.markExecuted := by
    intro l
    induction l with
    | nil => exact fun t => Or.inl ⟨rfl, fun e he => absurd he List.not_mem_nil⟩
    | cons e l ih =>
      intro t
      rw [List.foldl_cons]
      rcases ih (t.execute e) with ⟨hsame, hviews⟩ | ⟨e', he', hview, hlookup⟩
      · by_cases hv : v = e.block.view
        · refine Or.inr ⟨e, List.mem_cons_self, hv.symm, ?_⟩
          rw [hsame, hv]
          exact AList.lookup_insert _
        · refine Or.inl ⟨?_, fun e' he' => ?_⟩
          · rw [hsame]
            exact AList.lookup_insert_ne hv
          · rcases List.mem_cons.mp he' with rfl | he'
            · exact Ne.symm hv
            · exact hviews e' he'
      · exact Or.inr ⟨e', List.mem_cons_of_mem e he', hview, hlookup⟩
  exact hfold toExec _

/-- **What a walk collects is stored**, each block for its own view, not executed, and once. -/
theorem collected_stored {s : State} (hkeyed : Keyed s.cblocks) {fuel : ℕ} {block0 : CBlock}
    {toExec : List Execution} (h : blocksToExec s.cblocks fuel block0 [] = some toExec) :
    (∀ e ∈ toExec, s.cblocks.lookup e.block.view = some e.block ∧ ¬ e.block.executed = true) ∧
      (toExec.map fun e => e.block.view).Nodup := by
  rcases blocksToExec_spec h with rfl | ⟨path, last, hdescent, rfl⟩
  · exact ⟨fun e he => absurd he List.not_mem_nil, List.nodup_nil⟩
  · have hblocks : ((executions block0 path ++ []).map Execution.block) = path.reverse := by
      rw [List.append_nil, map_block_executions]
    refine ⟨fun e he => ?_, ?_⟩
    · have hmem : e.block ∈ path := by
        rw [← List.mem_reverse, ← hblocks]
        exact List.mem_map_of_mem he
      obtain ⟨v, hfind⟩ := hdescent.exists_find hmem
      rw [hkeyed v _ hfind]
      exact ⟨hfind, hdescent.not_stop hmem⟩
    · show ((executions block0 path ++ []).map (CBlock.view ∘ Execution.block)).Nodup
      rw [← List.map_map, hblocks, List.map_reverse, List.nodup_reverse]
      exact hdescent.nodup_keys hkeyed

end Raftel.Chained
