import Raftel.Handler.Comb
import Raftel.Lib.Cyclic
import Raftel.Lib.Hoare
import Mathlib.Logic.Relation

/-!
# The steps of a handler

What a correct replica does on an input, cut into steps.  `Step` lists them: a call of the trusted
component, a proposal, an execution, a change of the leader's phase, a message that is logged, the
entry into the next view.  Each step carries what the source checked before it.  `Begin` is what an
input does first: a timeout skips a leader and enters the next view, the start message makes the
component sign.

* `enterView_ok` : what the entry into a view leaves, and `enterView_error` when it does not come to an end
* `Step.view_cases` : a step stays in the view, or it enters the next one after an execution
-/

namespace Raftel

variable {Key : Type}

/-! ### Entering a view -/

section Enter

variable (cfg : HandlerConfig Key) (o : Oracle Key)

/-- The first half of `startNewViewComb`: the signing loop and the increment of the view. -/
def enterView (fuel : ℕ) : HandlerM Just := do
  let s ← get
  let first ← callTEEsignComb cfg o
  let just ← signUntilAfter cfg o s.view fuel first
  if just.set then
    modify fun s => { s with view := nextView s.view, timer := true }
    pure just
  else pure just

/-- The second half of `startNewViewComb`: the new-view message and what came early. -/
def announceView (exec : RData → HandlerM Unit) (just : Just) : HandlerM Unit := do
  let s ← get
  if just.rdata.propv = s.view && just.rdata.phase = Phase1.newview.byte
      && just.signs.size = 1 then
    let msg : MsgNewViewComb := ⟨just.rdata, just.signs.get 0⟩
    let leader ← getCurrentLeader cfg
    if cfg.myid = leader then
      handleEarlierMessagesComb cfg o exec
      handleNewviewComb cfg o msg
    else
      sendMsg (.newview msg) (cfg.keepFromPeers leader)
      handleEarlierMessagesComb cfg o exec
  else pure ()

theorem startNewViewComb_eq (exec : RData → HandlerM Unit) (fuel : ℕ) :
    startNewViewComb cfg o exec fuel = enterView cfg o fuel >>= fun just =>
      if just.set then announceView cfg o exec just else pure () := by
  unfold startNewViewComb enterView
  simp only [bind_assoc]
  refine bind_congr fun s => bind_congr fun first => bind_congr fun just => ?_
  by_cases hset : just.set = true
  · simp only [if_pos hset, bind_assoc, pure_bind]
    rfl
  · simp only [if_neg hset, pure_bind]

end Enter

/-! ### The signing loop -/

section Sign

variable (cfg : HandlerConfig Key) (o : Oracle Key)

/-- The state after `k` calls of `TEEsign`. -/
def HandlerState.signedTimes (s : HandlerState) : ℕ → HandlerState
  | 0 => s
  | k + 1 => ((s.signedTimes k).called cfg o .sign).2

/-- What `TEEsign` returns in state `s`. -/
def HandlerState.signature (s : HandlerState) : Just := (s.called cfg o .sign).1.toJust

variable {cfg o}

theorem HandlerState.signature_rdata (s : HandlerState) :
    (s.signature cfg o).rdata = ⟨noHash, s.tc.view, s.tc.preph, s.tc.prepv, s.tc.phase.byte⟩ := by
  unfold signature called
  cases cfg.component <;> rfl

theorem HandlerState.signature_set (s : HandlerState) : (s.signature cfg o).set = true := by
  unfold signature called
  cases cfg.component <;> rfl

@[simp]
theorem HandlerState.called_sign_tc (s : HandlerState) :
    (s.called cfg o .sign).2.tc = s.tc.increment := by
  unfold called
  cases cfg.component <;> rfl

theorem HandlerState.signedTimes_tc (s : HandlerState) (k : ℕ) :
    (s.signedTimes cfg o k).tc = CombState.increment^[k] s.tc := by
  induction k with
  | zero => rfl
  | succ k ih =>
    rw [Function.iterate_succ_apply', ← ih]
    exact HandlerState.called_sign_tc _

/-- Signing changes the component and the record of its calls only. -/
theorem HandlerState.signedTimes_eq (s : HandlerState) (k : ℕ) :
    s.signedTimes cfg o k =
      { s with tc := (s.signedTimes cfg o k).tc, calls := (s.signedTimes cfg o k).calls } := by
  induction k with
  | zero => rfl
  | succ k ih =>
    unfold signedTimes called
    dsimp only
    rw [ih]

/-- The loop after `k` signatures: it goes on while the last one is for the view or an earlier one. -/
theorem signUntilAfter_signedTimes (cfg : HandlerConfig Key) (o : Oracle Key) (s : HandlerState)
    (fuel k : ℕ) :
    match signUntilAfter cfg o s.view fuel ((s.signedTimes cfg o k).signature cfg o)
      (s.signedTimes cfg o (k + 1)) with
    | .ok just s' => ∃ n, s' = s.signedTimes cfg o (n + 1) ∧
        just = (s.signedTimes cfg o n).signature cfg o ∧ s.view < (s.signedTimes cfg o n).tc.view ∧
        ∀ m, k ≤ m → m < n → (s.signedTimes cfg o m).tc.view ≤ s.view
    | .error _ s' => (∃ n, s' = s.signedTimes cfg o n) ∧
        ∀ m, k ≤ m → m < k + fuel → (s.signedTimes cfg o m).tc.view ≤ s.view := by
  induction fuel generalizing k with
  | zero => exact ⟨⟨k + 1, rfl⟩, fun m hm hlt => absurd hlt (Nat.not_lt.mpr hm)⟩
  | succ fuel ih =>
    unfold signUntilAfter
    by_cases hle : (s.signedTimes cfg o k).tc.view ≤ s.view
    · rw [if_pos (by simp [HandlerState.signature_set, HandlerState.signature_rdata, hle])]
      -- the views signed so far are those of the rest of the loop and the one at `k`
      have hmore : ∀ n, (∀ m, k + 1 ≤ m → m < n → (s.signedTimes cfg o m).tc.view ≤ s.view) →
          ∀ m, k ≤ m → m < n → (s.signedTimes cfg o m).tc.view ≤ s.view := by
        intro n hrest m hm hlt
        rcases Nat.eq_or_lt_of_le hm with rfl | hm
        · exact hle
        · exact hrest m hm hlt
      have hloop := ih (k + 1)
      show match signUntilAfter cfg o s.view fuel ((s.signedTimes cfg o (k + 1)).signature cfg o)
        (s.signedTimes cfg o (k + 1 + 1)) with
      | .ok just s' => _
      | .error _ s' => _
      split at hloop
      · obtain ⟨n, hstate, hjust, hlt, hrest⟩ := hloop
        exact ⟨n, hstate, hjust, hlt, hmore n hrest⟩
      · rw [Nat.succ_add_eq_add_succ] at hloop
        exact ⟨hloop.1, hmore _ hloop.2⟩
    · rw [if_neg (by simp [HandlerState.signature_set, HandlerState.signature_rdata, hle])]
      exact ⟨k, rfl, rfl, Nat.lt_of_not_le hle, fun m hm hlt => absurd hlt (Nat.not_lt.mpr hm)⟩

/-- `enterView` is the loop from the first signature on. -/
theorem enterView_eq (s : HandlerState) (fuel : ℕ) :
    enterView cfg o fuel s =
      match signUntilAfter cfg o s.view fuel ((s.signedTimes cfg o 0).signature cfg o)
        (s.signedTimes cfg o 1) with
      | .ok just s' =>
        if just.set then .ok just { s' with view := nextView s'.view, timer := true }
        else .ok just s'
      | .error e s' => .error e s' := by
  show EStateM.bind (signUntilAfter cfg o s.view fuel ((s.signedTimes cfg o 0).signature cfg o)) _
    (s.signedTimes cfg o 1) = _
  unfold EStateM.bind
  cases signUntilAfter cfg o s.view fuel ((s.signedTimes cfg o 0).signature cfg o)
      (s.signedTimes cfg o 1) with
  | error e s' => rfl
  | ok just s' =>
    dsimp only
    split <;> rfl

/-- **Inversion** for the entry into a view: some signatures, the last one and no other for a later
view, and the increment of the view. -/
theorem enterView_ok {s s' : HandlerState} {fuel : ℕ} {just : Just}
    (h : enterView cfg o fuel s = .ok just s') :
    ∃ n, s' = { s.signedTimes cfg o (n + 1) with view := nextView s.view, timer := true } ∧
      just = (s.signedTimes cfg o n).signature cfg o ∧ s.view < (s.signedTimes cfg o n).tc.view ∧
      ∀ m < n, (s.signedTimes cfg o m).tc.view ≤ s.view := by
  have hloop := signUntilAfter_signedTimes cfg o s fuel 0
  rw [enterView_eq] at h
  cases hres : signUntilAfter cfg o s.view fuel ((s.signedTimes cfg o 0).signature cfg o)
      (s.signedTimes cfg o 1) with
  | error e s₁ =>
    rw [hres] at h
    cases h
  | ok j s₁ =>
    rw [hres] at h
    rw [Nat.zero_add, hres] at hloop
    obtain ⟨n, rfl, rfl, hlt, hrest⟩ := hloop
    dsimp only at h
    rw [if_pos (HandlerState.signature_set _)] at h
    cases h
    refine ⟨n, ?_, rfl, hlt, fun m hm => hrest m (Nat.zero_le m) hm⟩
    rw [show (s.signedTimes cfg o (n + 1)).view = s.view by rw [HandlerState.signedTimes_eq]]

/-- The loop runs out of fuel only when no signature is for a later view. -/
theorem enterView_error_views {s s' : HandlerState} {fuel : ℕ} {e : HandlerError}
    (h : enterView cfg o fuel s = .error e s') :
    (∃ n, s' = s.signedTimes cfg o n) ∧
      ∀ m < fuel, (s.signedTimes cfg o m).tc.view ≤ s.view := by
  have hloop := signUntilAfter_signedTimes cfg o s fuel 0
  rw [enterView_eq] at h
  cases hres : signUntilAfter cfg o s.view fuel ((s.signedTimes cfg o 0).signature cfg o)
      (s.signedTimes cfg o 1) with
  | error e s₁ =>
    rw [hres] at h
    rw [Nat.zero_add, hres] at hloop
    cases h
    refine ⟨hloop.1, fun m hm => hloop.2 m (Nat.zero_le m) ?_⟩
    rwa [Nat.zero_add]
  | ok j s₁ =>
    rw [hres] at h
    dsimp only at h
    split at h <;> cases h

theorem enterView_error {s s' : HandlerState} {fuel : ℕ} {e : HandlerError}
    (h : enterView cfg o fuel s = .error e s') : ∃ n, s' = s.signedTimes cfg o n :=
  (enterView_error_views h).1

theorem signUntilAfter_outOfFuel {view : View} {fuel : ℕ} {just : Just} {s s' : HandlerState}
    {e : HandlerError} (h : signUntilAfter cfg o view fuel just s = .error e s') : e = .outOfFuel := by
  induction fuel generalizing just s with
  | zero =>
    cases h
    rfl
  | succ fuel ih =>
    unfold signUntilAfter at h
    split at h
    · have hcall : callTEEsignComb cfg o s = .ok (s.called cfg o .sign).1.toJust (s.called cfg o .sign).2 := rfl
      rw [Lib.bind_of_ok hcall] at h
      exact ih h
    · cases h

/-- The entry into a view fails only when it does not come to an end. -/
theorem enterView_outOfFuel {s s' : HandlerState} {fuel : ℕ} {e : HandlerError}
    (h : enterView cfg o fuel s = .error e s') : e = .outOfFuel := by
  rw [enterView_eq] at h
  cases hres : signUntilAfter cfg o s.view fuel ((s.signedTimes cfg o 0).signature cfg o)
      (s.signedTimes cfg o 1) with
  | error e s₁ =>
    rw [hres] at h
    cases h
    exact signUntilAfter_outOfFuel hres
  | ok j s₁ =>
    rw [hres] at h
    dsimp only at h
    split at h <;> cases h

/-- The entry into a view leaves the log. -/
theorem enterView_ok_log {s s' : HandlerState} {fuel : ℕ} {just : Just}
    (h : enterView cfg o fuel s = .ok just s') : s'.log = s.log := by
  obtain ⟨n, rfl, -⟩ := enterView_ok h
  show (s.signedTimes cfg o (n + 1)).log = s.log
  rw [HandlerState.signedTimes_eq]

theorem enterView_error_log {s s' : HandlerState} {fuel : ℕ} {e : HandlerError}
    (h : enterView cfg o fuel s = .error e s') : s'.log = s.log := by
  obtain ⟨n, rfl⟩ := enterView_error h
  rw [HandlerState.signedTimes_eq]

/-- The entry into a view, run in state `s`, succeeds with a result that passes a test. -/
def entersWith (cfg : HandlerConfig Key) (o : Oracle Key) (fuel : ℕ) (s : HandlerState)
    (test : Just → HandlerState → Bool) : Bool :=
  match enterView cfg o fuel s with
  | .ok just s' => test just s'
  | .error _ _ => false

theorem exists_of_entersWith {s : HandlerState} {fuel : ℕ} {test : Just → HandlerState → Bool}
    (h : entersWith cfg o fuel s test = true) :
    ∃ just s', enterView cfg o fuel s = .ok just s' ∧ test just s' = true := by
  unfold entersWith at h
  cases henter : enterView cfg o fuel s with
  | ok just s' =>
    rw [henter] at h
    exact ⟨just, s', rfl, h⟩
  | error e s' =>
    rw [henter] at h
    cases h

/-- The views of a component stay below the wrap. -/
theorem CombState.iterate_increment_lt {st : CombState} (h : st.view < 2 ^ 32) (k : ℕ) :
    (CombState.increment^[k] st).view < 2 ^ 32 := by
  induction k with
  | zero => exact h
  | succ k ih =>
    rw [Function.iterate_succ_apply']
    unfold CombState.increment
    split <;> first | exact ih | exact Nat.mod_lt _ (by decide)

/-- **A view is never wrapped.**  The loop ends only when the component has signed for a later view,
so the increment is exact. -/
theorem enterView_view {s s' : HandlerState} {fuel : ℕ} {just : Just}
    (h : enterView cfg o fuel s = .ok just s') (hlt : s.tc.view < 2 ^ 32) :
    s'.view = s.view + 1 ∧ s'.tc.view < 2 ^ 32 := by
  obtain ⟨n, rfl, -, hview, -⟩ := enterView_ok h
  have hn : (s.signedTimes cfg o n).tc.view < 2 ^ 32 := by
    rw [HandlerState.signedTimes_tc]
    exact CombState.iterate_increment_lt hlt n
  refine ⟨Nat.mod_eq_of_lt (Nat.lt_of_le_of_lt hview hn), ?_⟩
  show (s.signedTimes cfg o (n + 1)).tc.view < 2 ^ 32
  rw [HandlerState.signedTimes_tc]
  exact CombState.iterate_increment_lt hlt (n + 1)

end Sign

/-! ### Steps -/

section Defs

variable (cfg : HandlerConfig Key) (o : Oracle Key)

/-- The leader that the replica takes for the one of its view. -/
def HandlerState.leader (s : HandlerState) : PID := (cfg.leaderOf s.skippedLeaders s.view).1

/-- The state after a call of `TEEprepare`: an accepted block is stored under the replica's view. -/
def HandlerState.preparedWith (s : HandlerState) (block : Block) (acc : Accum) (nvs : NewViews) :
    HandlerState :=
  let (reply, s') := s.called cfg o (.prepare block acc nvs)
  if reply.toJust.set then { s' with blocks := s'.blocks.insert s'.view block } else s'

/-- The state after the leader's call of `TEEprepare`, where the view is marked as well. -/
def HandlerState.proposedWith (s : HandlerState) (block : Block) (acc : Accum) (nvs : NewViews) :
    HandlerState :=
  let (reply, s') := s.called cfg o (.prepare block acc nvs)
  if reply.toJust.set then
    { s' with
      processedNewViews := viewInsert s'.view s'.processedNewViews
      blocks := s'.blocks.insert s'.view block }
  else s'

/-- The nominal leader of the view is skipped. -/
def HandlerState.skipLeader (s : HandlerState) : HandlerState :=
  if cfg.fixedLeaderMode then s
  else { s with skippedLeaders := viewInsert (s.view % cfg.total) s.skippedLeaders }

/-- The state in which the component signs when the first start message has arrived: the client is
known and two leaders have been looked up. -/
def HandlerState.greeted (s : HandlerState) (cid : CID) : HandlerState :=
  { s with
    clients := if (s.clients.lookup cid).isSome then s.clients else s.clients.insert cid true
    started := true
    skippedLeaders :=
      (cfg.leaderOf (cfg.leaderOf s.skippedLeaders s.view).2 (nextView s.view)).2 }

/-- There are enough new-views of the view to make a proposal. -/
def HandlerConfig.newViewQuorum (log : Log) (v : View) : Bool :=
  (cfg.fastQC && (log.getTEENewViewComb v cfg.tqsize).length ≥ cfg.tqsize)
    || (log.getTEENewViewComb v cfg.tqsize).length + (log.getNewViewComb v cfg.qsize).length
      ≥ cfg.qsize

/-- The final certificates that a leader makes of the votes that it has stored. -/
def HandlerConfig.Makes (log : Log) : Msg → Prop
  | .prepare msg => msg.signs = log.getTEEPrepareComb msg.data.propv cfg.tqsize ∨
      msg.signs = log.getPrepareCombMerged msg.data.propv cfg.qsize
  | .commit msg => msg.signs = log.getTEECommitComb msg.data.propv cfg.tqsize ∨
      msg.signs = log.getCommitCombMerged msg.data.propv cfg.qsize
  | _ => False

/-- Where a final certificate comes from: it was received, or the replica is the leader and has made it. -/
def HandlerState.Certificate (s : HandlerState) (received : Msg → Prop) (msg : Msg) : Prop :=
  received msg ∨ (s.leader cfg = cfg.myid ∧ cfg.Makes s.log msg)

/-- A certificate that lets the replica execute `data` was accepted: `data` is for the current view,
and the certificate is of phase `prepare` and the leader a TEE node, or it is of phase `commit`. -/
def AcceptedQC (received : Msg → Prop) (data : RData) (s : HandlerState) : Prop :=
  data.propv = s.view ∧ ∃ signs,
    (verifyCombQC cfg (o.crypto s.calls) data signs .prepare = true ∧
        cfg.isTEE (s.leader cfg) = true ∧ s.Certificate cfg received (.prepare ⟨data, signs⟩)) ∨
      (verifyCombQC cfg (o.crypto s.calls) data signs .commit = true ∧
        s.Certificate cfg received (.commit ⟨data, signs⟩))

/-- The replica is not in the middle of leading its view. -/
def HandlerState.Idle (s : HandlerState) : Prop := s.phase = .newview ∨ s.leader cfg ≠ cfg.myid

/-- The log with a new-view. -/
def HandlerConfig.storeNewView (log : Log) (msg : MsgNewViewComb) : Log :=
  if cfg.isTEE msg.sign.signer then (log.storeTEENvComb msg).2 else (log.storeNvComb msg).2

/-- A new-view message completes the quorum of a later view, which the replica will lead, and the
replica holds a quorum of new-views for its own view, or has already proposed in it, although it does
not lead it. -/
structure HandlerState.Misled (s : HandlerState) (msg : MsgNewViewComb) : Prop where
  later : s.view < msg.data.propv
  leads : (cfg.leaderOf s.skippedLeaders msg.data.propv).1 = cfg.myid
  completes : cfg.newViewQuorum (cfg.storeNewView s.log msg) msg.data.propv = true
  phase : s.phase = .newview
  follows : s.leader cfg ≠ cfg.myid
  ready : s.view ∈ s.processedNewViews ∨ cfg.newViewQuorum s.log s.view = true

end Defs

/-- The certificates that wait for a later view. -/
def HandlerState.Awaits (s : HandlerState) : Msg → Prop
  | .prepare msg => msg ∈ s.futurePrepareQCs.get msg.data.propv
  | .precommit msg => msg ∈ s.futurePreCommitQCs.get msg.data.propv
  | .commit msg => msg ∈ s.futureCommitQCs.get msg.data.propv
  | _ => False

/-- A step that changes none of the following, unsends no message and keeps a certificate for later only if it
was received: the proposals that wait for a later view and the clients and their transactions are left. -/
structure Quiet (received : Msg → Prop) (s s' : HandlerState) : Prop where
  view : s'.view = s.view
  phase : s'.phase = s.phase
  skippedLeaders : s'.skippedLeaders = s.skippedLeaders
  processedNewViews : s'.processedNewViews = s.processedNewViews
  processedCommit : s'.processedCommit = s.processedCommit
  blocks : s'.blocks = s.blocks
  log : ∃ l, s'.log = { s.log with ldrpreparesComb := l }
  awaits : ∀ m, s'.Awaits m → s.Awaits m ∨ received m
  kvExecutor : s'.kvExecutor = s.kvExecutor
  repQueue : s'.repQueue = s.repQueue
  started : s'.started = s.started
  stopped : s'.stopped = s.stopped
  timer : s'.timer = s.timer
  tc : s'.tc = s.tc
  calls : s'.calls = s.calls
  executed : s'.executed = s.executed
  out : s.out <+: s'.out

/-- The pairs of functions that store the votes of TEE nodes and of the others. -/
inductive VoteStore : (Log → MsgVoteComb → ℕ × Log) → (Log → MsgVoteComb → ℕ × Log) → Prop
  | prepare : VoteStore Log.storeTEEPrepComb Log.storePrepComb
  | precommit : VoteStore Log.storeTEEPcComb Log.storePcComb
  | commit : VoteStore Log.storeTEEComComb Log.storeComComb

/-- How the vote handlers of a leader move its phase. -/
inductive PhaseMove : Phase1 → Phase1 → Prop
  | decide : PhaseMove .prepare .newview
  | precommit : PhaseMove .prepare .precommit
  | commit : PhaseMove .precommit .commit
  | finish : PhaseMove .commit .newview

/-- The steps of a replica that has received the given messages.  `misled` tells whether the replica may have
taken up the leader's phase in a view that it does not lead. -/
inductive Step (cfg : HandlerConfig Key) (o : Oracle Key) (misled : Prop) (received : Msg → Prop) :
    HandlerState → HandlerState → Prop
  | quiet {s s' : HandlerState} (h : Quiet received s s') : Step cfg o misled received s s'
  | lookup {s : HandlerState} (v : View) :
      Step cfg o misled received s { s with skippedLeaders := (cfg.leaderOf s.skippedLeaders v).2 }
  | accum {s : HandlerState} {c : Call} (hc : c.isAccum = true) :
      Step cfg o misled received s (s.called cfg o c).2
  | store {s : HandlerState} {just : Just} (hview : just.rdata.propv = s.view) :
      Step cfg o misled received s (s.called cfg o (.store just)).2
  | prepare {s : HandlerState} {block : Block} {acc : Accum} {nvs : NewViews}
      (hview : (s.called cfg o (.prepare block acc nvs)).1.toJust.set = true → s.tc.view = s.view) :
      Step cfg o misled received s (s.preparedWith cfg o block acc nvs)
  | propose {s : HandlerState} {block : Block} {acc : Accum} {nvs : NewViews}
      (hview : (s.called cfg o (.prepare block acc nvs)).1.toJust.set = true → s.tc.view = s.view)
      (hnew : s.view ∉ s.processedNewViews) :
      Step cfg o misled received s (s.proposedWith cfg o block acc nvs)
  | lead {s : HandlerState} (hphase : s.phase = .newview) (hview : s.view ∈ s.processedNewViews)
      (hleader : s.leader cfg = cfg.myid ∨ misled) :
      Step cfg o misled received s { s with phase := .prepare }
  | phase {s : HandlerState} {ph : Phase1} (hmove : PhaseMove s.phase ph)
      (hleader : s.leader cfg = cfg.myid) : Step cfg o misled received s { s with phase := ph }
  | newview {s : HandlerState} {msg : MsgNewViewComb} (hview : s.view ≤ msg.data.propv)
      (hsign : verifyNewViewComb cfg (o.crypto s.calls) msg = true) :
      Step cfg o misled received s { s with
        log := if cfg.isTEE msg.sign.signer then (s.log.storeTEENvComb msg).2
          else (s.log.storeNvComb msg).2 }
  | vote {s : HandlerState} {storeTEE store : Log → MsgVoteComb → ℕ × Log} {msg : MsgVoteComb}
      (hstore : VoteStore storeTEE store) (hsize : msg.signs.size = 1) :
      Step cfg o misled received s { s with
        log := if cfg.isTEE (msg.signs.get 0).signer then (storeTEE s.log msg).2
          else (store s.log msg).2 }
  | execute {s : HandlerState} {data : RData} {block : Block} (hqc : AcceptedQC cfg o received data s)
      (hnew : data.propv ∉ s.processedCommit)
      (hblock : s.blocks.lookup data.propv = some block)
      (hhash : eqHashes (block.hash o.sha256) data.proph = true) :
      Step cfg o misled received s (s.committed cfg o data block)
  | enter {s s' : HandlerState} {fuel : ℕ} {just : Just} (hidle : s.Idle cfg ∨ misled)
      (hdone : s.view ∈ s.processedCommit) (henter : enterView cfg o fuel s = .ok just s') :
      Step cfg o misled received s s'
  | hang {s s' : HandlerState} {fuel : ℕ} {e : HandlerError} (hdone : s.view ∈ s.processedCommit)
      (henter : enterView cfg o fuel s = .error e s') :
      Step cfg o misled received s { s' with stopped := true }
  | stop {s : HandlerState} : Step cfg o misled received s { s with stopped := true }

/-- What an input does first. -/
inductive Begin (cfg : HandlerConfig Key) (o : Oracle Key) (s : HandlerState) :
    Input → HandlerState → Prop
  | other {input : Input} (htimeout : input.isTimeout = true → s.timer = false)
      (hstart : ∀ cid, input = .start cid → s.started = true) : Begin cfg o s input s
  | stopped {input : Input} (h : s.stopped = true) : Begin cfg o s input s
  | start {cid : CID} (hrun : s.stopped = false) (hstart : s.started = false) :
      Begin cfg o s (.start cid) ((s.greeted cfg cid).called cfg o .sign).2
  | timeout {s' : HandlerState} {fuel : ℕ} {just : Just} (hrun : s.stopped = false)
      (htimer : s.timer = true) (henter : enterView cfg o fuel (s.skipLeader cfg) = .ok just s') :
      Begin cfg o s .timeout s'
  | hang {s' : HandlerState} {fuel : ℕ} {e : HandlerError} (hrun : s.stopped = false)
      (htimer : s.timer = true) (henter : enterView cfg o fuel (s.skipLeader cfg) = .error e s') :
      Begin cfg o s .timeout { s' with stopped := true }

/-! ### Small facts -/

variable {cfg : HandlerConfig Key} {o : Oracle Key}

/-- The replica accepts a proposal only when its component is in the view of the proof. -/
theorem view_of_prepare_set {s : HandlerState} {block : Block} {acc : Accum} {nvs : NewViews}
    (h : (s.called cfg o (.prepare block acc nvs)).1.toJust.set = true) :
    ValidProof (cfg.component.env (o.crypto s.calls)) s.tc.view nvs acc := by
  have hout := cfg.component.call_outcome (o.crypto s.calls) s.tc (.prepare block acc nvs)
  change (cfg.component.call (o.crypto s.calls) s.tc (.prepare block acc nvs)).1.toJust.set = true at h
  cases hout with
  | accepted j hreply hset hacc =>
    cases hacc with
    | prepare proof => exact proof
  | refused j hreply hset => simp [hreply, Reply.toJust, hset] at h
  | accum a hreply => simp [hreply, Reply.toJust, Just.none] at h

/-- The identifier under which a component signs. -/
def Component.id : Component Key → PID
  | enclave vars => vars.id
  | host vars => vars.id

theorem HandlerConfig.component_id (cfg : HandlerConfig Key) : cfg.component.id = cfg.myid := by
  unfold component
  split <;> rfl

/-- An accepted call comes with one signature, of the component itself. -/
theorem Component.signs_of_set {comp : Component Key} {cr : Crypto Key} {st : CombState} {c : Call}
    (h : (comp.call cr st c).1.toJust.set = true) :
    ∃ s : Sign, (comp.call cr st c).1.toJust.signs = Signs.one s ∧ s.signer = comp.id := by
  -- every call that signs an `RData` accepts with one signature or refuses
  have hif : ∀ {b : Prop} [Decidable b] {x y : Just × CombState} {id : PID},
      (∃ s : Sign, x.1.signs = Signs.one s ∧ s.signer = id) → y.1.set = false →
      (if b then x else y).1.set = true →
      ∃ s : Sign, (if b then x else y).1.signs = Signs.one s ∧ s.signer = id := by
    intro b _ x y id hx hy hset
    split
    · exact hx
    · next hb =>
      rw [if_neg hb, hy] at hset
      exact absurd hset (by decide)
  cases comp with
  | enclave vars =>
    cases c with
    | sign => exact ⟨_, rfl, rfl⟩
    | prepare block acc nvs => exact hif ⟨_, rfl, rfl⟩ rfl h
    | store just => exact hif ⟨_, rfl, rfl⟩ rfl h
    | accum justs => cases h
    | accumSp just => cases h
  | host vars =>
    cases c with
    | sign => exact ⟨_, rfl, rfl⟩
    | prepare block acc nvs => exact hif ⟨_, rfl, rfl⟩ rfl h
    | store just => exact hif ⟨_, rfl, rfl⟩ rfl h
    | accum justs => cases h
    | accumSp just => cases h

/-- The vote that a call returns is signed by the replica itself. -/
theorem HandlerState.called_signs {s : HandlerState} {c : Call}
    (h : (s.called cfg o c).1.toJust.set = true) :
    (s.called cfg o c).1.toJust.signs.size = 1 ∧
      ((s.called cfg o c).1.toJust.signs.get 0).signer = cfg.myid := by
  obtain ⟨sg, hsigns, hsigner⟩ := Component.signs_of_set h
  change (cfg.component.call (o.crypto s.calls) s.tc c).1.toJust.signs.size = 1 ∧
    ((cfg.component.call (o.crypto s.calls) s.tc c).1.toJust.signs.get 0).signer = cfg.myid
  rw [hsigns, Signs.get_one, hsigner, cfg.component_id]
  exact ⟨rfl, rfl⟩

/-- The places of a proof that are in use hold the data of the given messages. -/
def NewViewProofComb.From (msgs : List MsgNewViewComb) (p : NewViewProofComb) : Prop :=
  ∀ i : Fin maxNumSignatures, i.val < p.size → ∃ m ∈ msgs, p.data.get i = m.data

theorem NewViewProofComb.From.add {msgs : List MsgNewViewComb} {p : NewViewProofComb}
    (h : p.From msgs) {m : MsgNewViewComb} (hm : m ∈ msgs) : (p.add m).From msgs := by
  intro i hi
  unfold NewViewProofComb.add at hi ⊢
  by_cases hsize : p.size < maxNumSignatures
  · rw [if_pos hsize] at hi ⊢
    by_cases hip : p.size = i.val
    · exact ⟨m, hm, (Vector.getElem_setIfInBounds i.isLt).trans (if_pos hip)⟩
    · obtain ⟨m', hm', heq⟩ := h i (by simp only at hi; omega)
      exact ⟨m', hm', ((Vector.getElem_setIfInBounds i.isLt).trans (if_neg hip)).trans heq⟩
  · rw [if_neg hsize] at hi ⊢
    exact h i hi

theorem NewViewProofComb.from_ofMsgs (msgs : List MsgNewViewComb) :
    (NewViewProofComb.ofMsgs msgs).From msgs := by
  have hfold : ∀ (ms : List MsgNewViewComb) (p : NewViewProofComb), p.From msgs →
      (∀ m ∈ ms, m ∈ msgs) → (ms.foldl NewViewProofComb.add p).From msgs := by
    intro ms
    induction ms with
    | nil => exact fun p hp _ => hp
    | cons m ms ih =>
      intro p hp hms
      exact ih _ (hp.add (hms m List.mem_cons_self)) fun m' hm' =>
        hms m' (List.mem_cons_of_mem m hm')
  exact hfold msgs _ (fun i hi => absurd hi (Nat.not_lt_zero _)) fun _ hm => hm

/-- The entries of a proof are the new-view messages it was built from. -/
theorem exists_msg_of_mem_setNewViews {msgs : List MsgNewViewComb} {e : OneJust}
    (he : e ∈ (setNewViews (.ofMsgs msgs)).entries) : ∃ m ∈ msgs, e.rdata = m.data := by
  obtain ⟨i, hi, rfl⟩ := List.mem_iff_getElem.mp he
  simp only [NewViews.entries, List.length_take, lt_min_iff, Vector.length_toList] at hi
  obtain ⟨m, hm, heq⟩ := NewViewProofComb.from_ofMsgs msgs ⟨i, hi.2⟩ hi.1
  refine ⟨m, hm, ?_⟩
  rw [← heq]
  simp [NewViews.entries, setNewViews]

/-- Every replica is skipped. -/
def HandlerConfig.AllSkipped (cfg : HandlerConfig Key) (skipped : List PID) : Prop :=
  ∀ j < cfg.total, j ∈ skipped

instance (cfg : HandlerConfig Key) (skipped : List PID) : Decidable (cfg.AllSkipped skipped) :=
  inferInstanceAs (Decidable (∀ j < cfg.total, j ∈ skipped))

/-- When every replica is skipped, a lookup gives the nominal leader and clears the set. -/
theorem HandlerConfig.leaderOf_of_allSkipped {cfg : HandlerConfig Key} {skipped : List PID}
    (hfixed : cfg.fixedLeaderMode = false) (h : cfg.AllSkipped skipped) (v : View) :
    cfg.leaderOf skipped v = (v % cfg.total, []) := by
  have hstart : v % cfg.total < cfg.total := Nat.mod_lt _ (Nat.succ_pos _)
  have hfind : ((List.range cfg.total).map fun k => (v % cfg.total + k) % cfg.total).find?
      (fun cand => cand ∉ skipped) = none := by
    apply (Lib.find?_circle_eq_none hstart).mpr
    intro p hp
    simpa using h p hp
  simp only [leaderOf, hfixed, hfind]
  rfl

/-- Otherwise a lookup leaves the set as it is. -/
theorem HandlerConfig.leaderOf_snd {cfg : HandlerConfig Key} {skipped : List PID}
    (h : cfg.fixedLeaderMode = true ∨ ¬ cfg.AllSkipped skipped) (v : View) :
    (cfg.leaderOf skipped v).2 = skipped := by
  by_cases hfixed : cfg.fixedLeaderMode = true
  · simp [leaderOf, hfixed]
  · have hstart : v % cfg.total < cfg.total := Nat.mod_lt _ (Nat.succ_pos _)
    have hnot := h.resolve_left hfixed
    unfold AllSkipped at hnot
    push Not at hnot
    obtain ⟨j, hj, hskip⟩ := hnot
    -- the candidates run through all replicas, `j` among them
    cases hfind : ((List.range cfg.total).map fun k => (v % cfg.total + k) % cfg.total).find?
        (fun cand => cand ∉ skipped) with
    | none =>
      have hnone := (Lib.find?_circle_eq_none hstart).mp hfind j hj
      exact absurd (decide_eq_true hskip) hnone
    | some cand => simp only [leaderOf, if_neg hfixed, hfind]

/-- Looking up a leader changes no leader, also when it clears the skipped leaders. -/
theorem HandlerConfig.leaderOf_lookup (cfg : HandlerConfig Key) (skipped : List PID) (w v : View) :
    (cfg.leaderOf (cfg.leaderOf skipped w).2 v).1 = (cfg.leaderOf skipped v).1 := by
  by_cases h : cfg.fixedLeaderMode = true ∨ ¬ cfg.AllSkipped skipped
  · rw [leaderOf_snd h]
  · rw [not_or, not_not, Bool.not_eq_true] at h
    rw [leaderOf_of_allSkipped h.1 h.2, leaderOf_of_allSkipped h.1 h.2]
    -- with no skipped leaders the nominal one is taken
    simp [leaderOf, h.1, total, List.range_succ_eq_map]

/-- The mixed quorum is made of the given new-views. -/
theorem mem_of_mem_mixed {n : ℕ} {msgs : List MsgNewViewComb} {m : MsgNewViewComb}
    {mixed : List MsgNewViewComb}
    (h : m ∈ msgs.foldl (fun mixed msg =>
      if mixed.length < n then setInsert MsgNewViewComb.lt msg mixed else mixed) mixed) :
    m ∈ mixed ∨ m ∈ msgs := by
  induction msgs generalizing mixed with
  | nil => exact Or.inl h
  | cons msg msgs ih =>
    rcases ih h with h | h
    · dsimp only at h
      split at h
      · rcases mem_of_mem_setInsert h with rfl | h
        · exact Or.inr List.mem_cons_self
        · exact Or.inl h
      · exact Or.inl h
    · exact Or.inr (List.mem_cons_of_mem msg h)

/-! ### What a step does to the view -/

/-- A step stays in the view, where at most a lookup clears the skipped leaders, or enters the next
view after an execution. -/
theorem Step.view_cases {misled : Prop} {received : Msg → Prop} {s s' : HandlerState}
    (h : Step cfg o misled received s s') :
    (s'.view = s.view ∧ (s'.skippedLeaders = s.skippedLeaders ∨
        ∃ w, s'.skippedLeaders = (cfg.leaderOf s.skippedLeaders w).2)) ∨
      (s.view ∈ s.processedCommit ∧ (s.Idle cfg ∨ misled) ∧
        ∃ fuel just, enterView cfg o fuel s = .ok just s') := by
  cases h with
  | quiet h => exact Or.inl ⟨h.view, Or.inl h.skippedLeaders⟩
  | lookup w => exact Or.inl ⟨rfl, Or.inr ⟨w, rfl⟩⟩
  | prepare =>
    refine Or.inl ?_
    unfold HandlerState.preparedWith
    dsimp only
    split <;> exact ⟨rfl, Or.inl rfl⟩
  | propose =>
    refine Or.inl ?_
    unfold HandlerState.proposedWith
    dsimp only
    split <;> exact ⟨rfl, Or.inl rfl⟩
  | enter hidle hdone henter => exact Or.inr ⟨hdone, hidle, _, _, henter⟩
  | hang hdone henter =>
    obtain ⟨n, rfl⟩ := enterView_error henter
    rw [HandlerState.signedTimes_eq]
    exact Or.inl ⟨rfl, Or.inl rfl⟩
  | accum => exact Or.inl ⟨rfl, Or.inl rfl⟩
  | store => exact Or.inl ⟨rfl, Or.inl rfl⟩
  | lead => exact Or.inl ⟨rfl, Or.inl rfl⟩
  | phase => exact Or.inl ⟨rfl, Or.inl rfl⟩
  | newview => exact Or.inl ⟨rfl, Or.inl rfl⟩
  | vote => exact Or.inl ⟨rfl, Or.inl rfl⟩
  | execute => exact Or.inl ⟨rfl, Or.inl rfl⟩
  | stop => exact Or.inl ⟨rfl, Or.inl rfl⟩

/-- A step that stays in the view keeps its leader. -/
theorem HandlerState.leader_eq {s s' : HandlerState} (hview : s'.view = s.view)
    (hskip : s'.skippedLeaders = s.skippedLeaders ∨
      ∃ w, s'.skippedLeaders = (cfg.leaderOf s.skippedLeaders w).2) :
    s'.leader cfg = s.leader cfg := by
  unfold HandlerState.leader
  rw [hview]
  rcases hskip with hskip | ⟨w, hskip⟩
  · rw [hskip]
  · rw [hskip, cfg.leaderOf_lookup]

end Raftel
