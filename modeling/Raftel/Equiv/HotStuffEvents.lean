import Raftel.Equiv.HotStuff
import Raftel.HotStuffRuns

/-!
# The reactions of HotStuff, event by event

Whatever a replica does on an input is explained by events: it changes the state of the trusted functions
only by calling them, and each of its executions is recorded.  What the handlers check before they call
holds of the events (`Event.Made`); for a proposal that was stored, it is known since it came (`Linked`).

* `react_explained` : the reaction to an input
* `exists_run` : the states that the replicas reach are those of a `Run`
-/

namespace Raftel.HotStuff

open Lib

variable {Key : Type} {cfg : HandlerConfig Key} {cr : Crypto Key}

/-! ### Explanations -/

theorem advance_append (st : CombState) (es es' : List Event) :
    advance cfg cr st (es' ++ es) = advance cfg cr (advance cfg cr st es) es' := List.foldr_append

@[simp]
theorem advance_cons (st : CombState) (e : Event) (es : List Event) :
    advance cfg cr st (e :: es) = (e.call cr (funVars cfg) (advance cfg cr st es)).2 := rfl

theorem Explains.refl (s : State) : Explains cfg cr s [] s where
  tf := rfl
  executed := (List.append_nil _).symm
  made _ he := absurd he List.not_mem_nil

theorem Explains.trans {s s' s'' : State} {es es' : List Event} (h : Explains cfg cr s es s')
    (h' : Explains cfg cr s' es' s'') : Explains cfg cr s (es' ++ es) s'' where
  tf := by rw [h'.tf, h.tf, advance_append]
  executed := by
    rw [h'.executed, h.executed, List.filterMap_append, List.reverse_append, List.append_assoc]
  made e he := (List.mem_append.mp he).elim (h'.made e) (h.made e)

/-- A stored proposal extends the block of its justification. -/
def Linked (msg : MsgLdrPrepare) : Prop :=
  msg.prop.block.prevHash.hash = msg.prop.just.rdata.justh.hash

variable (cfg cr) in
/-- The state is explained from `s₀` on. -/
structure Explained (s₀ s : State) : Prop where
  proposals : s.log.proposals.All Linked
  events : ∃ es, Explains cfg cr s₀ es s

variable {s₀ s s' : State}

theorem Explained.init : Explained cfg cr .init .init :=
  ⟨ViewLog.all_empty, [], Explains.refl _⟩

/-- What is not explained by events may change. -/
theorem Explained.same (h : Explained cfg cr s₀ s) (hlog : s'.log.proposals = s.log.proposals)
    (htf : s'.tf = s.tf) (hexecuted : s'.executed = s.executed) : Explained cfg cr s₀ s' := by
  obtain ⟨es, hes⟩ := h.events
  exact ⟨hlog ▸ h.proposals, es, ⟨htf.trans hes.tf, hexecuted.trans hes.executed, hes.made⟩⟩

/-- One more event. -/
theorem Explained.event (h : Explained cfg cr s₀ s) (e : Event) (hmade : e.Made cr cfg)
    (hlog : s'.log = s.log) (htf : s'.tf = (e.call cr (funVars cfg) s.tf).2)
    (hexecuted : s'.executed = s.executed ++ e.executed?.toList) : Explained cfg cr s₀ s' := by
  obtain ⟨es, hes⟩ := h.events
  have hone : Explains cfg cr s [e] s' := by
    refine ⟨htf, hexecuted.trans ?_, fun e' he' => List.mem_singleton.mp he' ▸ hmade⟩
    cases he : e.executed? <;> simp [he]
  exact ⟨hlog ▸ h.proposals, e :: es, hes.trans hone⟩

/-! ### Programs that are explained -/

variable (cfg cr) in
/-- What the program does is explained, and its value is as `Q` says. -/
def Records {α : Type} (s₀ : State) (c : HandlerM α) (Q : α → Prop) : Prop :=
  Ensures (Explained cfg cr s₀) c (fun a s => Explained cfg cr s₀ s ∧ Q a) (Explained cfg cr s₀)

section Rules

variable {α β : Type} {c : HandlerM α} {Q : α → Prop} {R : β → Prop}

theorem Records.bind {f : α → HandlerM β} (hc : Records cfg cr s₀ c Q)
    (hf : ∀ a, Q a → Records cfg cr s₀ (f a) R) : Records cfg cr s₀ (c >>= f) R :=
  Ensures.bind hc fun a s r hs hrun => hf a hs.2 s r hs.1 hrun

theorem Records.ret {a : α} (h : Q a) : Records cfg cr s₀ (pure a) Q :=
  Ensures.ret fun _ hs => ⟨hs, h⟩

theorem Records.cond {p : Prop} [Decidable p] {c' : HandlerM α}
    (hc : p → Records cfg cr s₀ c Q) (hc' : ¬ p → Records cfg cr s₀ c' Q) :
    Records cfg cr s₀ (if p then c else c') Q :=
  Ensures.cond hc hc'

theorem Records.get {f : State → HandlerM α}
    (h : ∀ s, s.log.proposals.All Linked → Records cfg cr s₀ (f s) Q) :
    Records cfg cr s₀ (MonadState.get >>= f) Q :=
  Ensures.get fun s hs => (h s hs.proposals).pre fun _ heq => heq ▸ hs

theorem Records.read {x : Option α} {f : α → HandlerM β}
    (h : ∀ a, x = some a → Records cfg cr s₀ (f a) R) : Records cfg cr s₀ (liftM x >>= f) R :=
  Ensures.read h

theorem Records.raise {e : HandlerError} : Records cfg cr s₀ (throw e : HandlerM α) Q :=
  Ensures.raise fun _ hs => hs

/-- The rule for a program with one outcome. -/
theorem Records.of_run (h : ∀ s, Explained cfg cr s₀ s →
    ∃ a s', c s = some (.ok a, s') ∧ Explained cfg cr s₀ s' ∧ Q a) : Records cfg cr s₀ c Q :=
  Ensures.of_run h

/-- The rule for the programs that do nothing that events explain. -/
theorem Records.of_same (h : ∀ s, ∃ a s', c s = some (.ok a, s') ∧
    s'.log.proposals = s.log.proposals ∧ s'.tf = s.tf ∧ s'.executed = s.executed ∧ Q a) :
    Records cfg cr s₀ c Q := by
  refine Records.of_run fun s hs => ?_
  obtain ⟨a, s', hrun, hlog, htf, hexecuted, hQ⟩ := h s
  exact ⟨a, s', hrun, hs.same hlog htf hexecuted, hQ⟩

end Rules

theorem records_sendMsg {msg : Msg} {recipients : List PID} :
    Records cfg cr s₀ (sendMsg msg recipients) fun _ => True :=
  Records.of_same fun _ => ⟨_, _, rfl, rfl, rfl, rfl, trivial⟩

theorem records_getLeaderOf {v : View} : Records cfg cr s₀ (getLeaderOf cfg v) fun _ => True :=
  Records.of_same fun _ => ⟨_, _, rfl, rfl, rfl, rfl, trivial⟩

theorem records_getCurrentLeader : Records cfg cr s₀ (getCurrentLeader cfg) fun _ => True :=
  Records.of_same fun _ => ⟨_, _, rfl, rfl, rfl, rfl, trivial⟩

theorem records_amLeaderOf {v : View} : Records cfg cr s₀ (amLeaderOf cfg v) fun _ => True :=
  Records.of_same fun _ => ⟨_, _, rfl, rfl, rfl, rfl, trivial⟩

theorem records_amCurrentLeader : Records cfg cr s₀ (amCurrentLeader cfg) fun _ => True :=
  Records.of_same fun _ => ⟨_, _, rfl, rfl, rfl, rfl, trivial⟩

theorem records_storeBlock {block : Block} :
    Records cfg cr s₀ (modify fun s => { s with blocks := s.blocks.insert s.view block })
      fun _ => True :=
  Records.of_same fun _ => ⟨_, _, rfl, rfl, rfl, rfl, trivial⟩

/-! ### The trusted functions -/

theorem records_callTEEsign : Records cfg cr s₀ (callTEEsign cfg cr) fun _ => True := by
  refine Records.of_run fun s hs => ⟨_, _, rfl, ?_, trivial⟩
  exact hs.event .sign trivial rfl rfl (List.append_nil _).symm

/-- The block that is prepared extends the one of the justification. -/
theorem records_callTEEprepare {block : Block} {just : Just}
    (hlink : block.prevHash.hash = just.rdata.justh.hash) :
    Records cfg cr s₀ (callTEEprepare cfg cr (block.hash cr.sha256) just) fun _ => True := by
  unfold callTEEprepare
  refine Records.read fun _ _ => Records.of_run fun s hs => ⟨_, _, rfl, ?_, trivial⟩
  exact hs.event (.prepare block just) hlink rfl rfl (List.append_nil _).symm

/-- Signatures in the right number have been read. -/
theorem records_callTEEstore {just : Just} :
    Records cfg cr s₀ (callTEEstore cfg cr just) fun _ => True := by
  unfold callTEEstore
  refine Records.read fun verified hverified => ?_
  refine Records.of_run fun s hs => ⟨_, _, rfl, ?_, trivial⟩
  refine hs.event (.store just) (fun hsize => ?_) rfl rfl (List.append_nil _).symm
  unfold Checked.checkIf at hverified
  rw [if_pos hsize] at hverified
  rw [hverified]
  rfl

/-! ### The log -/

theorem records_storeMsg {store : Log → Option (ℕ × Log)}
    (h : ∀ log n log', store log = some (n, log') → log.proposals.All Linked →
      log'.proposals.All Linked) : Records cfg cr s₀ (storeMsg store) fun _ => True := by
  unfold storeMsg
  refine Ensures.get fun s hs => Ensures.read fun r hstore => ?_
  obtain ⟨n, log⟩ := r
  obtain ⟨es, hes⟩ := hs.events
  refine Ensures.of_run fun s' hs' => ⟨n, { s with log := log }, rfl, ?_, trivial⟩
  exact ⟨h s.log n log hstore hs.proposals, es, hes.tf, hes.executed, hes.made⟩

section Store

variable {msg : MsgVoteComb}

theorem records_storeNv : Records cfg cr s₀ (storeMsg fun log => log.storeNv msg) fun _ => True := by
  refine records_storeMsg fun log n log' hstore hlog => ?_
  obtain ⟨⟨n', votes⟩, -, hset⟩ := Option.bind_eq_some_iff.mp hstore
  cases hset
  exact hlog

theorem records_storePrep :
    Records cfg cr s₀ (storeMsg fun log => log.storePrep msg) fun _ => True := by
  refine records_storeMsg fun log n log' hstore hlog => ?_
  obtain ⟨⟨n', votes⟩, -, hset⟩ := Option.bind_eq_some_iff.mp hstore
  cases hset
  exact hlog

theorem records_storePc : Records cfg cr s₀ (storeMsg fun log => log.storePc msg) fun _ => True := by
  refine records_storeMsg fun log n log' hstore hlog => ?_
  obtain ⟨⟨n', votes⟩, -, hset⟩ := Option.bind_eq_some_iff.mp hstore
  cases hset
  exact hlog

theorem records_storeCom :
    Records cfg cr s₀ (storeMsg fun log => log.storeCom msg) fun _ => True := by
  refine records_storeMsg fun log n log' hstore hlog => ?_
  obtain ⟨⟨n', votes⟩, -, hset⟩ := Option.bind_eq_some_iff.mp hstore
  cases hset
  exact hlog

/-- The log with the message, or as it was. -/
theorem all_of_store {α : Type} {viewOf : α → View} {signs : α → Signs} {p : α → Prop}
    {l l' : ViewLog α viewOf} {msg : α} {n : ℕ} (h : Checked.store signs l msg = some (n, l'))
    (hl : l.All p) (hmsg : p msg) : l'.All p := by
  have hinsert : ∀ {l₁}, Checked.insert signs l msg = some l₁ → l₁.All p := by
    intro l₁ hl₁
    obtain ⟨-, -, heq⟩ := Option.bind_eq_some_iff.mp hl₁
    cases heq
    exact hl.insert hmsg _
  obtain ⟨signers, -, h⟩ := Option.bind_eq_some_iff.mp h
  split at h
  · obtain ⟨found, -, h⟩ := Option.bind_eq_some_iff.mp h
    split at h
    · cases h
      exact hl
    · obtain ⟨l₁, hl₁, h⟩ := Option.bind_eq_some_iff.mp h
      cases h
      exact hinsert hl₁
  · cases h
    exact hl.insert hmsg _

theorem records_storeProp {msg : MsgLdrPrepare} (hmsg : Linked msg) :
    Records cfg cr s₀ (storeMsg fun log => log.storeProp msg) fun _ => True := by
  refine records_storeMsg fun log n log' hstore hlog => ?_
  obtain ⟨⟨n', proposals⟩, hprop, hset⟩ := Option.bind_eq_some_iff.mp hstore
  cases hset
  exact all_of_store hprop hlog hmsg

end Store

/-- A hash that is read in range is the hash of the block. -/
theorem eq_of_hash {sha : Text → Digest} {block : Block} {h : Hash}
    (hhash : Checked.hash sha block = some h) : h = block.hash sha := by
  have hin : block.InBounds := Checked.isSome_hash.mp (by rw [hhash]; rfl)
  rw [Checked.hash_eq hin, Option.some.injEq] at hhash
  exact hhash.symm

/-! ### The leader -/

section Exec

variable {exec : RData → HandlerM Unit}
  (hexec : ∀ rdata, Records cfg cr s₀ (exec rdata) fun _ => True)

section Leader

include hexec

theorem records_initiateCommit {rdata : RData} :
    Records cfg cr s₀ (initiateCommit cfg exec rdata) fun _ => True := by
  unfold initiateCommit
  refine Records.get fun s _ => Records.read fun signs _ => ?_
  refine Records.cond (fun _ => ?_) fun _ => Records.ret trivial
  exact Records.bind records_sendMsg fun _ _ => hexec rdata

theorem records_initiatePrecommit {rdata : RData} :
    Records cfg cr s₀ (initiatePrecommit cfg cr exec rdata) fun _ => True := by
  unfold initiatePrecommit
  refine Records.get fun s _ => Records.read fun signs _ => ?_
  refine Records.cond (fun _ => ?_) fun _ => Records.ret trivial
  refine Records.bind records_sendMsg fun _ _ => Records.bind records_callTEEstore fun just _ => ?_
  refine Records.bind records_storeCom fun n _ => ?_
  exact Records.cond (fun _ => records_initiateCommit hexec) fun _ => Records.ret trivial

theorem records_initiatePrepare {rdata : RData} :
    Records cfg cr s₀ (initiatePrepare cfg cr exec rdata) fun _ => True := by
  unfold initiatePrepare
  refine Records.get fun s _ => Records.read fun signs _ => ?_
  refine Records.cond (fun _ => ?_) fun _ => Records.ret trivial
  refine Records.bind records_sendMsg fun _ _ => Records.bind records_callTEEstore fun just _ => ?_
  refine Records.bind records_storePc fun n _ => ?_
  exact Records.cond (fun _ => records_initiatePrecommit hexec) fun _ => Records.ret trivial

omit hexec in
/-- A block of the replica itself extends the hash that it is created with. -/
theorem records_createNewBlock {h : Hash} :
    Records cfg cr s₀ (createNewBlock cfg h) fun block => block.prevHash = h := by
  unfold createNewBlock
  refine Ensures.get fun s hs => Ensures.bind (Q := fun _ => Explained cfg cr s₀) ?_ fun _ => ?_
  · exact Ensures.of_run fun s' _ => ⟨_, _, rfl, hs.same rfl rfl rfl⟩
  · exact Records.cond (fun _ => Records.ret rfl) fun _ => Records.raise

theorem records_prepare : Records cfg cr s₀ (prepare cfg cr exec) fun _ => True := by
  unfold prepare
  refine Records.get fun s _ => Records.bind records_createNewBlock fun block hblock => ?_
  refine Records.read fun hash hhash => ?_
  obtain rfl := eq_of_hash hhash
  have hlink : block.prevHash.hash = (s.log.findHighestNv s.view).rdata.justh.hash :=
    congrArg Hash.hash hblock
  refine Records.bind (records_callTEEprepare hlink) fun justPrep _ => ?_
  refine Records.cond (fun _ => ?_) fun _ => Records.ret trivial
  refine Records.bind records_storeBlock fun _ _ => Records.bind records_sendMsg fun _ _ => ?_
  refine Records.bind records_storePrep fun n _ => ?_
  exact Records.cond (fun _ => records_initiatePrepare hexec) fun _ => Records.ret trivial

theorem records_handleNewview {msg : MsgNewView} :
    Records cfg cr s₀ (handleNewview cfg cr exec msg) fun _ => True := by
  unfold handleNewview
  refine Records.get fun s _ => Records.cond (fun _ => ?_) fun _ => Records.ret trivial
  refine Records.bind records_amLeaderOf fun leader _ => ?_
  refine Records.cond (fun _ => ?_) fun _ => Records.ret trivial
  refine Records.bind records_storeNv fun n _ => ?_
  exact Records.cond (fun _ => records_prepare hexec) fun _ => Records.ret trivial

end Leader

/-! ### The backups -/

theorem records_respondToProposal {just : Just} {block : Block}
    (hlink : block.prevHash.hash = just.rdata.justh.hash) :
    Records cfg cr s₀ (respondToProposal cfg cr just block) fun _ => True := by
  unfold respondToProposal
  refine Records.read fun hash hhash => ?_
  obtain rfl := eq_of_hash hhash
  refine Records.bind (records_callTEEprepare hlink) fun justPrep _ => ?_
  refine Records.cond (fun _ => ?_) fun _ => Records.ret trivial
  refine Records.bind records_storeBlock fun _ _ => ?_
  exact Records.bind records_getCurrentLeader fun _ _ => records_sendMsg

theorem records_respondToPrepareJust {just : Just} :
    Records cfg cr s₀ (respondToPrepareJust cfg cr just) fun _ => True := by
  unfold respondToPrepareJust
  refine Records.bind records_callTEEstore fun _ _ => ?_
  exact Records.bind records_getCurrentLeader fun _ _ => records_sendMsg

theorem records_respondToPreCommitJust {just : Just} :
    Records cfg cr s₀ (respondToPreCommitJust cfg cr just) fun _ => True := by
  unfold respondToPreCommitJust
  refine Records.bind records_callTEEstore fun _ _ => ?_
  exact Records.bind records_getCurrentLeader fun _ _ => records_sendMsg

theorem records_handleLdrPrepare {msg : MsgLdrPrepare} :
    Records cfg cr s₀ (handleLdrPrepare cfg cr msg) fun _ => True := by
  unfold handleLdrPrepare
  refine Records.read fun hash _ => Records.read fun vm _ => Records.get fun s _ => ?_
  refine Records.cond (fun hgate => ?_) fun _ => Records.ret trivial
  rw [Bool.and_eq_true] at hgate
  have hlink : Linked msg := eqHashes_eq_true.mp hgate.2
  refine Records.cond (fun _ => records_respondToProposal hlink) fun _ => ?_
  exact Records.bind (records_storeProp hlink) fun _ _ => Records.ret trivial

/-! ### Starting a view -/

theorem records_catchUpPrepared : Records cfg cr s₀ (catchUpPrepared cfg cr) fun _ => True := by
  unfold catchUpPrepared
  refine Records.get fun s hs => Records.read fun signs _ => Records.cond (fun _ => ?_) fun _ => ?_
  · exact Records.bind records_callTEEsign fun _ _ => records_respondToPrepareJust
  · cases hfirst : s.log.firstProposal s.view with
    | none => exact Records.ret trivial
    | some msg =>
      have hlink : Linked msg := hs s.view msg (List.mem_of_head? hfirst)
      exact Records.cond (fun _ => records_respondToProposal hlink) fun _ => Records.ret trivial

theorem records_signUntilAfter {view : View} (fuel : ℕ) {just : Just} :
    Records cfg cr s₀ (signUntilAfter cfg cr view fuel just) fun _ => True := by
  induction fuel generalizing just with
  | zero => exact Records.raise
  | succ fuel ih =>
    unfold signUntilAfter
    exact Records.cond (fun _ => Records.bind records_callTEEsign fun _ _ => ih)
      fun _ => Records.ret trivial

include hexec

theorem records_handleEarlierMessages :
    Records cfg cr s₀ (handleEarlierMessages cfg cr exec) fun _ => True := by
  unfold handleEarlierMessages
  refine Records.bind records_amCurrentLeader fun leader _ => Records.get fun s _ => ?_
  refine Records.cond (fun _ => ?_) fun _ => ?_
  · refine Records.read fun signs _ => ?_
    exact Records.cond (fun _ => records_prepare hexec) fun _ => Records.ret trivial
  · refine Records.read fun signs _ => Records.cond (fun _ => ?_) fun _ => records_catchUpPrepared
    refine Records.bind records_callTEEsign fun _ _ => ?_
    refine Records.bind records_callTEEsign fun _ _ => ?_
    refine Records.bind records_respondToPreCommitJust fun _ _ => Records.get fun s' _ => ?_
    refine Records.read fun signs' _ => ?_
    exact Records.cond (fun _ => hexec _) fun _ => Records.ret trivial

theorem records_startNewView (fuel : ℕ) :
    Records cfg cr s₀ (startNewView cfg cr exec fuel) fun _ => True := by
  unfold startNewView
  refine Records.get fun s _ => Records.bind records_callTEEsign fun first _ => ?_
  refine Records.bind (records_signUntilAfter fuel) fun just _ => ?_
  refine Records.bind (Q := fun _ => True) ?_ fun _ _ => Records.get fun s' _ => ?_
  · exact Records.of_same fun _ => ⟨_, _, rfl, rfl, rfl, rfl, trivial⟩
  refine Records.cond (fun _ => ?_) fun _ => Records.ret trivial
  refine Records.bind records_amCurrentLeader fun leader _ => Records.cond (fun _ => ?_) fun _ => ?_
  · exact Records.bind (records_handleEarlierMessages hexec) fun _ _ => records_handleNewview hexec
  · refine Records.bind records_getCurrentLeader fun _ _ => ?_
    exact Records.bind records_sendMsg fun _ _ => records_handleEarlierMessages hexec

end Exec

/-! ### Execution -/

/-- The execution is the event that its caller gives; what it starts has events of its own. -/
theorem records_execute (fuel : ℕ) (e : Event) (hmade : e.Made cr cfg) {rdata : RData}
    (he : e.executed? = some rdata) :
    Records cfg cr s₀ (executeRData cfg cr fuel rdata) fun _ => True := by
  induction fuel generalizing e rdata with
  | zero => exact Records.raise
  | succ fuel ih =>
    have htf : ∀ st, (e.call cr (funVars cfg) st).2 = st := by
      cases e <;> first | exact fun _ => rfl | cases he
    unfold executeRData
    refine Ensures.get fun s hs => Ensures.read fun _ _ => Ensures.read fun _ _ => ?_
    refine Ensures.bind (Q := fun _ => Explained cfg cr s₀) ?_ fun _ => ?_
    · refine Ensures.of_run fun s' _ => ⟨_, _, rfl, ?_⟩
      exact hs.event e hmade rfl (htf _).symm (by rw [he]; rfl)
    · refine Records.get fun s' _ => Records.cond (fun _ => ?_) fun _ => ?_
      · refine Records.get fun _ _ => Records.cond (fun _ => Records.raise) fun _ => ?_
        exact Records.of_same fun _ => ⟨_, _, rfl, rfl, rfl, rfl, trivial⟩
      · exact records_startNewView (fun rdata' => ih (.collected rdata') trivial rfl) fuel

/-- Without a certificate at hand. -/
theorem records_executeRData (fuel : ℕ) (rdata : RData) :
    Records cfg cr s₀ (executeRData cfg cr fuel rdata) fun _ => True :=
  records_execute fuel (.collected rdata) trivial rfl

/-! ### Messages -/

theorem records_handlePrepare (fuel : ℕ) {msg : MsgPrepare} :
    Records cfg cr s₀ (handlePrepare cfg cr fuel msg) fun _ => True := by
  unfold handlePrepare
  refine Records.get fun s _ => Records.cond (fun _ => ?_) fun _ => Records.cond (fun _ => ?_)
    fun _ => Records.ret trivial
  · refine Records.bind records_amCurrentLeader fun leader _ => Records.cond (fun _ => ?_) fun _ => ?_
    · refine Records.bind records_storePrep fun n _ => ?_
      exact Records.cond (fun _ => records_initiatePrepare (records_executeRData fuel))
        fun _ => Records.ret trivial
    · exact Records.cond (fun _ => records_respondToPrepareJust) fun _ => Records.ret trivial
  · exact Records.bind records_storePrep fun _ _ => Records.ret trivial

theorem records_handlePrecommit (fuel : ℕ) {msg : MsgPreCommit} :
    Records cfg cr s₀ (handlePrecommit cfg cr fuel msg) fun _ => True := by
  unfold handlePrecommit
  refine Records.get fun s _ => Records.cond (fun _ => ?_) fun _ => Records.cond (fun _ => ?_)
    fun _ => Records.ret trivial
  · refine Records.bind records_amCurrentLeader fun leader _ => Records.cond (fun _ => ?_) fun _ => ?_
    · refine Records.bind records_storePc fun n _ => ?_
      exact Records.cond (fun _ => records_initiatePrecommit (records_executeRData fuel))
        fun _ => Records.ret trivial
    · exact Records.cond (fun _ => records_respondToPreCommitJust) fun _ => Records.ret trivial
  · exact Records.bind records_storePc fun _ _ => Records.ret trivial

/-- A backup verifies the certificate that it executes. -/
theorem records_handleCommit (fuel : ℕ) {msg : MsgCommit} :
    Records cfg cr s₀ (handleCommit cfg cr fuel msg) fun _ => True := by
  unfold handleCommit
  refine Records.get fun s _ => Records.cond (fun hgate => ?_) fun _ => Records.cond (fun _ => ?_)
    fun _ => Records.ret trivial
  · rw [Bool.and_eq_true, decide_eq_true_eq, decide_eq_true_eq] at hgate
    refine Records.bind records_amCurrentLeader fun leader _ => Records.cond (fun _ => ?_) fun _ => ?_
    · refine Records.bind records_storeCom fun n _ => ?_
      exact Records.cond (fun _ => records_initiateCommit (records_executeRData fuel))
        fun _ => Records.ret trivial
    · refine Records.read fun verified hverified => ?_
      refine Records.cond (fun htrue => ?_) fun _ => Records.ret trivial
      subst htrue
      refine records_execute fuel (.certified ⟨true, msg.data, msg.signs⟩) ?_ rfl
      unfold Checked.checkIf at hverified
      split at hverified
      · next hsize => exact ⟨hgate.2, hsize, hverified⟩
      · exact nomatch hverified
  · refine Records.bind records_amLeaderOf fun leader _ => Records.cond (fun _ => ?_) fun _ => ?_
    · exact Records.bind records_storeCom fun _ _ => Records.ret trivial
    · refine Records.read fun verified _ => Records.cond (fun _ => ?_) fun _ => Records.ret trivial
      exact Records.bind records_storeCom fun _ _ => Records.ret trivial

theorem records_getStarted (fuel : ℕ) :
    Records cfg cr s₀ (getStarted cfg cr fuel) fun _ => True := by
  unfold getStarted
  refine Records.bind records_getCurrentLeader fun leader _ => Records.get fun s _ => ?_
  refine Records.bind records_getLeaderOf fun _ _ => Records.bind records_callTEEsign fun j _ => ?_
  refine Records.bind records_amCurrentLeader fun amLeader _ => Records.cond (fun _ => ?_) fun _ => ?_
  · exact records_handleNewview (records_executeRData fuel)
  · exact records_sendMsg

theorem records_handleStart (fuel : ℕ) {cid : CID} :
    Records cfg cr s₀ (handleStart cfg cr fuel cid) fun _ => True := by
  unfold handleStart
  refine Ensures.get fun s hs => Ensures.bind (Q := fun _ => Explained cfg cr s₀) ?_ fun _ => ?_
  · exact Ensures.of_run fun s' _ => ⟨_, _, rfl, hs.same rfl rfl rfl⟩
  · exact Records.cond (fun _ => Records.ret trivial) fun _ => records_getStarted fuel

theorem records_handleTransaction {t : Transaction} :
    Records cfg cr s₀ (handleTransaction t) fun _ => True := by
  refine Records.of_run fun s hs => ⟨_, _, rfl, ?_, trivial⟩
  dsimp only
  split
  · exact hs.same rfl rfl rfl
  · exact hs

theorem records_startNewViewOnTimeout (fuel : ℕ) :
    Records cfg cr s₀ (startNewViewOnTimeout cfg cr fuel) fun _ => True := by
  unfold startNewViewOnTimeout
  refine Records.bind (Q := fun _ => True) (Records.of_run fun s hs => ⟨_, _, rfl, ?_, trivial⟩)
    fun _ _ => records_startNewView (records_executeRData fuel) fuel
  split
  · exact hs
  · exact hs.same rfl rfl rfl

/-- **Each handler is explained by events.** -/
theorem records_handle (fuel : ℕ) (input : Input) :
    Records cfg cr s₀ (handle cfg cr fuel input) fun _ => True := by
  cases input with
  | peer msg =>
    cases msg with
    | newview msg => exact records_handleNewview (records_executeRData fuel)
    | ldrprepare msg => exact records_handleLdrPrepare
    | prepare msg => exact records_handlePrepare fuel
    | precommit msg => exact records_handlePrecommit fuel
    | commit msg => exact records_handleCommit fuel
  | start cid => exact records_handleStart fuel
  | transaction t => exact records_handleTransaction
  | timeout => exact records_startNewViewOnTimeout fuel

theorem react_explained {fuel : ℕ} {input : Input} (h : Explained cfg cr s₀ s)
    (hstep : s.react cfg cr fuel input = some s') : Explained cfg cr s₀ s' := by
  unfold State.react at hstep
  split at hstep
  · cases hstep
    exact h
  split at hstep
  · cases hstep
    exact h
  cases hrun : handle cfg cr fuel input s with
  | none =>
    rw [hrun] at hstep
    exact nomatch hstep
  | some r =>
    have hends := records_handle fuel input s r h hrun
    rw [hrun] at hstep
    obtain ⟨x, s''⟩ := r
    cases x with
    | ok a =>
      cases hstep
      exact hends.1
    | error e =>
      cases hstep
      split
      · exact Explained.same hends rfl rfl rfl
      · exact hends

/-! ### Runs -/

/-- A replica that reacts to inputs reaches its states by events. -/
theorem exists_reaches {inputs : List (ℕ × Input)} {s s' : State} {es : List Event}
    (hs : Reaches cfg cr es s) (hlog : s.log.proposals.All Linked)
    (h : inputs.foldlM (fun s x => s.react cfg cr x.1 x.2) s = some s') :
    ∃ es', Reaches cfg cr es' s' := by
  induction inputs generalizing s es with
  | nil =>
    cases h
    exact ⟨es, hs⟩
  | cons x inputs ih =>
    rw [List.foldlM_cons] at h
    obtain ⟨s₁, hstep, hrest⟩ := Option.bind_eq_some_iff.mp h
    obtain ⟨hlog₁, es₁, hes₁⟩ := react_explained ⟨hlog, [], Explains.refl s⟩ hstep
    exact ih (.react hs hstep hes₁) hlog₁ hrest

section System

variable {sys : System} {history : History} {p : PID}

@[simp]
theorem History.eventsOf_nil : History.eventsOf [] p = [] := rfl

@[simp]
theorem History.eventsOf_cons_self (e : Event) :
    History.eventsOf ((p, e) :: history) p = e :: history.eventsOf p := by
  simp [History.eventsOf]

theorem History.eventsOf_cons_ne {x : PID × Event} (h : x.1 ≠ p) :
    History.eventsOf (x :: history) p = history.eventsOf p := by
  simp [History.eventsOf, h]

theorem History.eventsOf_append (history history' : History) :
    History.eventsOf (history ++ history') p = history.eventsOf p ++ history'.eventsOf p :=
  List.filterMap_append

theorem History.eventsOf_map (q : PID) (es : List Event) :
    History.eventsOf (es.map fun e => (q, e)) p = if q = p then es else [] := by
  induction es with
  | nil => simp
  | cons e es ih =>
    by_cases hq : q = p
    · subst hq
      rw [List.map_cons, eventsOf_cons_self, ih, if_pos rfl, if_pos rfl]
    · rw [List.map_cons, eventsOf_cons_ne hq, ih, if_neg hq, if_neg hq]

/-- The histories of replicas one after the other. -/
theorem History.eventsOf_flatMap (es : PID → List Event) (k : ℕ) :
    History.eventsOf ((List.range k).flatMap fun q => (es q).map fun e => (q, e)) p =
      if p < k then es p else [] := by
  induction k with
  | zero => simp
  | succ k ih =>
    rw [List.range_succ, List.flatMap_append, eventsOf_append, ih, List.flatMap_singleton,
      eventsOf_map]
    rcases Nat.lt_trichotomy p k with hlt | rfl | hlt
    · rw [if_pos hlt, if_neg hlt.ne', if_pos (Nat.lt_succ_of_lt hlt), List.append_nil]
    · rw [if_neg (lt_irrefl p), if_pos rfl, if_pos p.lt_succ_self, List.nil_append]
    · rw [if_neg hlt.le.not_gt, if_neg hlt.ne, if_neg (Nat.not_lt.mpr hlt), List.nil_append]

/-- **The states that the correct replicas reach are those of a run**, whatever the inputs. -/
theorem exists_run {cr : Crypto Unit} {inputs : PID → List (ℕ × Input)} {state : PID → State}
    (h : ∀ p, sys.Correct p →
      (inputs p).foldlM (fun s x => s.react (sys.config p) cr x.1 x.2) .init = some (state p)) :
    ∃ run : Run sys cr, run.state = state := by
  have hreach : ∀ p, ∃ es, (sys.Correct p → Reaches (sys.config p) cr es (state p)) ∧
      (¬ sys.Correct p → es = []) := by
    intro p
    by_cases hp : sys.Correct p
    · obtain ⟨es, hes⟩ := exists_reaches .init ViewLog.all_empty (h p hp)
      exact ⟨es, fun _ => hes, fun hnot => absurd hp hnot⟩
    · exact ⟨[], fun hcorrect => absurd hcorrect hp, fun _ => rfl⟩
  choose es hes hnone using hreach
  refine ⟨⟨(List.range sys.n).flatMap fun q => (es q).map fun e => (q, e), state, fun x hx => ?_,
    fun p hp => ?_⟩, rfl⟩
  · obtain ⟨q, -, hx⟩ := List.mem_flatMap.mp hx
    obtain ⟨e, he, rfl⟩ := List.mem_map.mp hx
    by_contra hnot
    rw [hnone q hnot] at he
    exact absurd he List.not_mem_nil
  · rw [History.eventsOf_flatMap, if_pos hp.1]
    exact hes p hp

theorem reaches_stateAfter {cr : Crypto Unit} {fuel : ℕ} {steps : List Step} {s : State}
    (h : stateAfter sys cr fuel steps p = some s) :
    Reaches (sys.config p) cr ((History.ofSteps steps).eventsOf p) s := by
  induction steps generalizing s with
  | nil =>
    cases h
    exact .init
  | cons x steps ih =>
    obtain ⟨q, input, es⟩ := x
    have hevents : (History.ofSteps ((q, input, es) :: steps)).eventsOf p =
        (if q = p then es else []) ++ (History.ofSteps steps).eventsOf p := by
      rw [← History.eventsOf_map, ← History.eventsOf_append]
      rfl
    rw [hevents]
    unfold stateAfter at h
    split at h
    · next hq =>
      obtain ⟨s₀, hs₀, h⟩ := Option.bind_eq_some_iff.mp h
      obtain ⟨s₁, hstep, h⟩ := Option.bind_eq_some_iff.mp h
      split at h
      · next hexplains =>
        cases h
        rw [if_pos hq]
        exact .react (ih hs₀) hstep hexplains
      · exact nomatch h
    · next hq =>
      rw [if_neg hq]
      exact ih h

/-- The run of the steps. -/
def Run.ofSteps {cr : Crypto Unit} (fuel : ℕ) (steps : List Step)
    (hcorrect : ∀ x ∈ steps, sys.Correct x.1)
    (h : ∀ p < sys.n, sys.Correct p → (stateAfter sys cr fuel steps p).isSome) : Run sys cr where
  history := .ofSteps steps
  state p := (stateAfter sys cr fuel steps p).getD .init
  correct x hx := by
    obtain ⟨y, hy, hx⟩ := List.mem_flatMap.mp hx
    obtain ⟨e, -, rfl⟩ := List.mem_map.mp hx
    exact hcorrect y hy
  reaches p hp := by
    obtain ⟨s, hs⟩ := Option.isSome_iff_exists.mp (h p hp.1 hp)
    rw [hs]
    exact reaches_stateAfter hs

end System

end Raftel.HotStuff
