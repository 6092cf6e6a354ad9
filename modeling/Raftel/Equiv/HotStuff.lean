import Raftel.Equiv.Reads
import Raftel.Handler.HotStuff

/-!
# When the handlers of HotStuff read in range

A HotStuff replica loops over the signatures of a message before anything is known of their number.
`MsgInRange` lists what has to hold of a message for the state in which it comes: its block and the
signatures that are stored or verified fit their arrays.  What is stored then fits (`InRange`), so that
later reads are in range too.

* `keeps_handle` : each handler
* `react_inRange` : the reaction to an input
-/

namespace Raftel.HotStuff

open Lib

variable {Key : Type} {cfg : HandlerConfig Key} {cr : Crypto Key}

/-! ### What is stored -/

variable (cfg cr) in
/-- The verification of the justification reads in range. -/
def JustFits (just : Just) : Prop :=
  Checked.VerifyFits cr.verifySign cfg.nodes just.signs (.rdata just.rdata)

theorem JustFits.of_inBounds {just : Just} (h : just.signs.InBounds) : JustFits cfg cr just :=
  Or.inl h

/-- Signatures that are verified fit. -/
theorem JustFits.verify {just : Just} (h : JustFits cfg cr just) :
    ∃ verified, verifyJust cfg cr just = some verified ∧
      (verified = true → just.signs.InBounds) := by
  obtain ⟨verified, hverified⟩ := Option.isSome_iff_exists.mp (Checked.isSome_verify.mpr h)
  refine ⟨verified, hverified, ?_⟩
  rintro rfl
  exact Checked.inBounds_of_verify hverified

variable (cfg cr) in
/-- A stored proposal: its justification is verified only if it has one signature. -/
structure ProposalFits (m : MsgLdrPrepare) : Prop where
  block : m.prop.block.InBounds
  signs : m.signs.InBounds
  just : m.signs.size = 1 → JustFits cfg cr m.prop.just

variable (cfg cr) in
structure LogFits (log : Log) : Prop where
  newviews : log.newviews.All fun m => m.signs.InBounds
  prepares : log.prepares.All fun m => m.signs.InBounds
  precommits : log.precommits.All fun m => m.signs.InBounds
  commits : log.commits.All fun m => m.signs.InBounds
  proposals : log.proposals.All (ProposalFits cfg cr)

variable (cfg cr) in
/-- All that a replica stores fits its array. -/
structure InRange (s : State) : Prop where
  log : LogFits cfg cr s.log
  blocks : ∀ v b, s.blocks.lookup v = some b → b.InBounds

theorem inRange_init : InRange cfg cr .init where
  log := ⟨ViewLog.all_empty, ViewLog.all_empty, ViewLog.all_empty, ViewLog.all_empty,
    ViewLog.all_empty⟩
  blocks v b h := by simp [State.init] at h

theorem InRange.same {s s' : State} (h : InRange cfg cr s) (hlog : s'.log = s.log)
    (hblocks : s'.blocks = s.blocks) : InRange cfg cr s' :=
  ⟨hlog ▸ h.log, hblocks ▸ h.blocks⟩

theorem InRange.insert {s : State} (h : InRange cfg cr s) (v : View) {block : Block}
    (hb : block.InBounds) : InRange cfg cr { s with blocks := s.blocks.insert v block } := by
  refine ⟨h.log, fun w b hw => ?_⟩
  by_cases hwv : w = v
  · subst hwv
    rw [AList.lookup_insert, Option.some.injEq] at hw
    exact hw ▸ hb
  · rw [AList.lookup_insert_ne hwv] at hw
    exact h.blocks w b hw

/-! ### Programs that keep it -/

variable (cfg cr) in
/-- The program reads in range as long as what is stored fits, and what is stored fits afterwards; its
value is as `Q` says. -/
def Keeps {α : Type} (c : HandlerM α) (Q : α → Prop) : Prop :=
  Safe (InRange cfg cr) c (fun a s => InRange cfg cr s ∧ Q a) (InRange cfg cr)

section Rules

variable {α β : Type} {c : HandlerM α} {Q : α → Prop} {R : β → Prop}

theorem Keeps.bind {f : α → HandlerM β} (hc : Keeps cfg cr c Q)
    (hf : ∀ a, Q a → Keeps cfg cr (f a) R) : Keeps cfg cr (c >>= f) R :=
  Safe.bind hc fun a s hs => hf a hs.2 s hs.1

theorem Keeps.ret {a : α} (h : Q a) : Keeps cfg cr (pure a) Q := Safe.ret fun _ hs => ⟨hs, h⟩

theorem Keeps.cond {p : Prop} [Decidable p] {c' : HandlerM α} (hc : p → Keeps cfg cr c Q)
    (hc' : ¬ p → Keeps cfg cr c' Q) : Keeps cfg cr (if p then c else c') Q :=
  Safe.cond hc hc'

/-- The state that is read is one in which all fits. -/
theorem Keeps.get {f : State → HandlerM α} (h : ∀ s, InRange cfg cr s → Keeps cfg cr (f s) Q) :
    Keeps cfg cr (MonadState.get >>= f) Q :=
  Safe.get fun s hs => (h s hs).pre fun _ heq => heq ▸ hs

theorem Keeps.read {x : Option α} {f : α → HandlerM β} (hx : ∃ a, x = some a ∧ Q a)
    (h : ∀ a, Q a → Keeps cfg cr (f a) R) : Keeps cfg cr (liftM x >>= f) R := by
  obtain ⟨a, ha, hQ⟩ := hx
  exact Safe.read ha (h a hQ)

/-- In a state that has been named. -/
theorem Keeps.named (h : Keeps cfg cr c Q) {s₀ : State} (hs₀ : InRange cfg cr s₀) :
    Safe (fun s => s = s₀) c (fun a s => InRange cfg cr s ∧ Q a) (InRange cfg cr) :=
  h.pre fun _ hs => hs ▸ hs₀

/-- The rule for the programs that leave what is stored as it is. -/
theorem Keeps.of_same (h : ∀ s, ∃ a s', c s = some (.ok a, s') ∧ s'.log = s.log ∧
    s'.blocks = s.blocks ∧ Q a) : Keeps cfg cr c Q := by
  intro s hs
  obtain ⟨a, s', hrun, hlog, hblocks, hQ⟩ := h s
  exact ⟨_, hrun, hs.same hlog hblocks, hQ⟩

end Rules

theorem keeps_sendMsg {msg : Msg} {recipients : List PID} :
    Keeps cfg cr (sendMsg msg recipients) fun _ => True :=
  Keeps.of_same fun _ => ⟨_, _, rfl, rfl, rfl, trivial⟩

theorem keeps_getLeaderOf {v : View} : Keeps cfg cr (getLeaderOf cfg v) fun _ => True :=
  Keeps.of_same fun _ => ⟨_, _, rfl, rfl, rfl, trivial⟩

theorem keeps_getCurrentLeader : Keeps cfg cr (getCurrentLeader cfg) fun _ => True :=
  Keeps.of_same fun _ => ⟨_, _, rfl, rfl, rfl, trivial⟩

theorem keeps_amCurrentLeader : Keeps cfg cr (amCurrentLeader cfg) fun _ => True :=
  Keeps.of_same fun _ => ⟨_, _, rfl, rfl, rfl, trivial⟩

theorem keeps_callTEEsign : Keeps cfg cr (callTEEsign cfg cr) fun just => just.signs.InBounds :=
  Keeps.of_same fun _ => ⟨_, _, rfl, rfl, rfl, Signs.one_inBounds _⟩

/-! ### The trusted functions -/

theorem funTEEprepare_inBounds {vars : FunVars Key} {hash : Hash} {just : Just} {st : CombState} :
    (funTEEprepare cr vars hash just st).1.signs.InBounds := by
  unfold funTEEprepare
  dsimp only
  split
  · exact Signs.one_inBounds _
  · exact Signs.empty_inBounds

theorem funTEEstore_inBounds {vars : FunVars Key} {just : Just} {st : CombState} :
    (funTEEstore cr vars just st).1.signs.InBounds := by
  unfold funTEEstore
  dsimp only
  split
  · exact Signs.one_inBounds _
  · exact Signs.empty_inBounds

theorem keeps_callTEEprepare {h : Hash} {j : Just} (hj : JustFits cfg cr j) :
    Keeps cfg cr (callTEEprepare cfg cr h j) fun just => just.signs.InBounds := by
  unfold callTEEprepare
  refine Keeps.read (Q := fun _ => True) ?_ fun _ _ => ?_
  · obtain ⟨verified, hverified, -⟩ := hj.verify
    exact ⟨verified, hverified, trivial⟩
  · exact Keeps.of_same fun _ => ⟨_, _, rfl, rfl, rfl, funTEEprepare_inBounds⟩

/-- The number of signatures is compared before they are verified. -/
theorem keeps_callTEEstore (hq : cfg.qsize ≤ maxNumSignatures) {j : Just} :
    Keeps cfg cr (callTEEstore cfg cr j) fun just => just.signs.InBounds := by
  unfold callTEEstore
  refine Keeps.read (Q := fun _ => True) ?_ fun _ _ => ?_
  · by_cases hsize : j.signs.size = cfg.qsize
    · have hj : JustFits cfg cr j := .of_inBounds (hsize.trans_le hq)
      obtain ⟨verified, hverified, -⟩ := hj.verify
      refine ⟨verified, ?_, trivial⟩
      unfold Checked.checkIf
      rw [if_pos hsize]
      exact hverified
    · exact ⟨false, if_neg hsize, trivial⟩
  · exact Keeps.of_same fun _ => ⟨_, _, rfl, rfl, rfl, funTEEstore_inBounds⟩

/-! ### The log -/

section Log

variable {log : Log} {msg : MsgVoteComb}

theorem keeps_storeMsg {store : Log → Option (ℕ × Log)}
    (h : ∀ log, LogFits cfg cr log → ∃ r, store log = some r ∧ LogFits cfg cr r.2) :
    Keeps cfg cr (storeMsg store) fun _ => True := by
  intro s hs
  obtain ⟨⟨n, log⟩, hstore, hlog⟩ := h s.log hs.log
  refine ⟨(.ok n, { s with log := log }), ?_, ⟨hlog, hs.blocks⟩, trivial⟩
  show (liftM (store s.log) >>= fun r => set { s with log := r.2 } >>= fun _ => pure r.1 :
    HandlerM ℕ) s = _
  rw [hstore]
  rfl

/-- A message that fits is stored among others that do. -/
theorem exists_store {α : Type} {viewOf : α → View} {signs : α → Signs} {p : α → Prop}
    {l : ViewLog α viewOf} {msg : α} (hp : ∀ m, p m → (signs m).InBounds) (h : l.All p)
    (hmsg : p msg) : ∃ n l', Checked.store signs l msg = some (n, l') ∧ l'.All p :=
  ⟨_, _, Checked.store_eq (fun v m hm => hp m (h v m hm)) (hp msg hmsg), h.store hmsg _ _⟩

theorem exists_storeVote {votes : VoteLog} (h : votes.All fun m => m.signs.InBounds)
    (hmsg : msg.signs.InBounds) : ∃ n votes', Checked.store MsgVoteComb.signs votes msg =
      some (n, votes') ∧ votes'.All fun m => m.signs.InBounds :=
  exists_store (fun _ hm => hm) h hmsg

theorem keeps_storeNv (hmsg : msg.signs.InBounds) :
    Keeps cfg cr (storeMsg fun log => log.storeNv msg) fun _ => True := by
  refine keeps_storeMsg fun log h => ?_
  obtain ⟨n, votes, hstore, hvotes⟩ := exists_storeVote h.newviews hmsg
  refine ⟨(n, { log with newviews := votes }), ?_, { h with newviews := hvotes }⟩
  unfold Log.storeNv
  rw [hstore]
  rfl

theorem keeps_storePrep (hmsg : msg.signs.InBounds) :
    Keeps cfg cr (storeMsg fun log => log.storePrep msg) fun _ => True := by
  refine keeps_storeMsg fun log h => ?_
  obtain ⟨n, votes, hstore, hvotes⟩ := exists_storeVote h.prepares hmsg
  refine ⟨(n, { log with prepares := votes }), ?_, { h with prepares := hvotes }⟩
  unfold Log.storePrep
  rw [hstore]
  rfl

theorem keeps_storePc (hmsg : msg.signs.InBounds) :
    Keeps cfg cr (storeMsg fun log => log.storePc msg) fun _ => True := by
  refine keeps_storeMsg fun log h => ?_
  obtain ⟨n, votes, hstore, hvotes⟩ := exists_storeVote h.precommits hmsg
  refine ⟨(n, { log with precommits := votes }), ?_, { h with precommits := hvotes }⟩
  unfold Log.storePc
  rw [hstore]
  rfl

theorem keeps_storeCom (hmsg : msg.signs.InBounds) :
    Keeps cfg cr (storeMsg fun log => log.storeCom msg) fun _ => True := by
  refine keeps_storeMsg fun log h => ?_
  obtain ⟨n, votes, hstore, hvotes⟩ := exists_storeVote h.commits hmsg
  refine ⟨(n, { log with commits := votes }), ?_, { h with commits := hvotes }⟩
  unfold Log.storeCom
  rw [hstore]
  rfl

theorem keeps_storeProp {msg : MsgLdrPrepare} (hmsg : ProposalFits cfg cr msg) :
    Keeps cfg cr (storeMsg fun log => log.storeProp msg) fun _ => True := by
  refine keeps_storeMsg fun log h => ?_
  obtain ⟨n, proposals, hstore, hproposals⟩ :=
    exists_store (fun _ hm => ProposalFits.signs hm) h.proposals hmsg
  refine ⟨(n, { log with proposals := proposals }), ?_, { h with proposals := hproposals }⟩
  unfold Log.storeProp
  rw [hstore]
  rfl

theorem exists_getSigns {votes : VoteLog} (h : votes.All fun m => m.signs.InBounds) (v : View)
    (n : ℕ) : ∃ signs, Checked.getSigns MsgVoteComb.signs votes v n = some signs ∧ True :=
  ⟨_, Checked.getSigns_eq h v n, trivial⟩

/-- The justification of a proposal is a stored new-view. -/
theorem findHighestNv_inBounds (h : LogFits cfg cr log) (v : View) :
    (log.findHighestNv v).signs.InBounds := by
  have hfold : ∀ (msgs : List MsgNewView) (best : View × Just), (∀ m ∈ msgs, m.signs.InBounds) →
      best.2.signs.InBounds →
      (msgs.foldl (fun (best : View × Just) msg =>
        if msg.data.justv ≥ best.1 then (msg.data.justv, ⟨true, msg.data, msg.signs⟩) else best)
        best).2.signs.InBounds := by
    intro msgs
    induction msgs with
    | nil => exact fun _ _ hbest => hbest
    | cons m msgs ih =>
      intro best hmsgs hbest
      rw [List.foldl_cons]
      refine ih _ (fun m' hm' => hmsgs m' (List.mem_cons_of_mem m hm')) ?_
      split
      · exact hmsgs m List.mem_cons_self
      · exact hbest
  exact hfold _ _ (h.newviews v) Signs.empty_inBounds

end Log

/-! ### What a message has to satisfy -/

variable (cfg) in
/-- The replica takes itself for the leader of the view. -/
def Leads (s : State) (v : View) : Prop := cfg.myid = (cfg.leaderOf s.skippedLeaders v).1

instance (s : State) (v : View) : Decidable (Leads cfg s v) := inferInstanceAs (Decidable (_ = _))

variable (cfg) in
/-- The votes that are stored: of the current view by its leader, of later views by every replica. -/
def Stored (s : State) (current : Prop) (msg : MsgVoteComb) : Prop :=
  (current ∧ Leads cfg s s.view) ∨ (¬ current ∧ msg.data.propv > s.view)

variable (cr) in
/-- The justification that `handleLdrPrepare` verifies. -/
def ldrJust (msg : MsgLdrPrepare) : Just :=
  ⟨true, ldrPrepared (msg.prop.block.hash cr.sha256) msg.prop.just.rdata, msg.signs⟩

variable (cfg cr) in
/-- A proposal that is hashed, verified and, in its view, answered. -/
structure LdrPrepareInRange (s : State) (msg : MsgLdrPrepare) : Prop where
  block : msg.prop.block.InBounds
  signs : JustFits cfg cr (ldrJust cr msg)
  answered : msg.prop.just.rdata.propv = s.view → verifyJust cfg cr (ldrJust cr msg) = some true →
    msg.prop.block.extends msg.prop.just.rdata.justh = true → JustFits cfg cr msg.prop.just

variable (cfg cr) in
/-- A proposal that is stored is answered when its view starts, if it has one signature. -/
def LaterInRange (s : State) (msg : MsgLdrPrepare) : Prop :=
  msg.prop.just.rdata.propv > s.view → verifyJust cfg cr (ldrJust cr msg) = some true →
    msg.prop.block.extends msg.prop.just.rdata.justh = true → msg.signs.size = 1 →
    JustFits cfg cr msg.prop.just

variable (cfg cr) in
/-- A commit: a replica that does not lead the later view verifies it, and stores it if it verifies. -/
structure CommitInRange (s : State) (msg : MsgCommit) : Prop where
  current : msg.data.propv = s.view → msg.data.phase = Phase1.commit.byte → Leads cfg s s.view →
    msg.signs.InBounds
  later : msg.data.propv > s.view → Leads cfg s msg.data.propv → msg.signs.InBounds
  verified : msg.data.propv > s.view → ¬ Leads cfg s msg.data.propv →
    JustFits cfg cr ⟨true, msg.data, msg.signs⟩

variable (cfg cr) in
/-- What has to hold of a message, in the state in which it comes, for the reads that it causes at
once. -/
def MsgInRange (s : State) : Msg → Prop
  | .newview msg =>
    newviewGate s.view msg = true → Leads cfg s msg.data.propv → msg.signs.InBounds
  | .ldrprepare msg => LdrPrepareInRange cfg cr s msg
  | .prepare msg => Stored cfg s (msg.data.propv = s.view) msg → msg.signs.InBounds
  | .precommit msg =>
    Stored cfg s (msg.data.propv = s.view ∧ msg.data.phase = Phase1.precommit.byte) msg →
      msg.signs.InBounds
  | .commit msg => CommitInRange cfg cr s msg

variable (cfg cr) in
/-- The messages are the only inputs with a condition, and a stopped replica makes no reads. -/
def InputInRange (s : State) (input : Input) : Prop :=
  s.stopped = false → ∀ msg, input = .peer msg → MsgInRange cfg cr s msg

variable (cfg cr) in
/-- Moreover, what a stored proposal causes later. -/
def StaysInRange (s : State) (input : Input) : Prop :=
  InputInRange cfg cr s input ∧
    (s.stopped = false → ∀ msg, input = .peer (.ldrprepare msg) → LaterInRange cfg cr s msg)

/-! ### The leader -/

section Exec

variable {exec : RData → HandlerM Unit}
  (hexec : ∀ rdata, Keeps cfg cr (exec rdata) fun _ => True)

section Leader

include hexec

theorem keeps_initiateCommit {rdata : RData} :
    Keeps cfg cr (initiateCommit cfg exec rdata) fun _ => True := by
  unfold initiateCommit
  refine Keeps.get fun s hs => Keeps.read (exists_getSigns hs.log.commits _ _) fun signs _ => ?_
  refine Keeps.cond (fun _ => ?_) fun _ => Keeps.ret trivial
  exact Keeps.bind keeps_sendMsg fun _ _ => hexec rdata

variable (hq : cfg.qsize ≤ maxNumSignatures)
include hq

theorem keeps_initiatePrecommit {rdata : RData} :
    Keeps cfg cr (initiatePrecommit cfg cr exec rdata) fun _ => True := by
  unfold initiatePrecommit
  refine Keeps.get fun s hs => Keeps.read (exists_getSigns hs.log.precommits _ _) fun signs _ => ?_
  refine Keeps.cond (fun _ => ?_) fun _ => Keeps.ret trivial
  refine Keeps.bind keeps_sendMsg fun _ _ => Keeps.bind (keeps_callTEEstore hq) fun just hjust => ?_
  refine Keeps.bind (keeps_storeCom hjust) fun n _ => ?_
  exact Keeps.cond (fun _ => keeps_initiateCommit hexec) fun _ => Keeps.ret trivial

theorem keeps_initiatePrepare {rdata : RData} :
    Keeps cfg cr (initiatePrepare cfg cr exec rdata) fun _ => True := by
  unfold initiatePrepare
  refine Keeps.get fun s hs => Keeps.read (exists_getSigns hs.log.prepares _ _) fun signs _ => ?_
  refine Keeps.cond (fun _ => ?_) fun _ => Keeps.ret trivial
  refine Keeps.bind keeps_sendMsg fun _ _ => Keeps.bind (keeps_callTEEstore hq) fun just hjust => ?_
  refine Keeps.bind (keeps_storePc hjust) fun n _ => ?_
  exact Keeps.cond (fun _ => keeps_initiatePrecommit hexec hq) fun _ => Keeps.ret trivial

omit hexec hq in
/-- A block of the replica itself fits. -/
theorem keeps_createNewBlock {h : Hash} :
    Keeps cfg cr (createNewBlock cfg h) fun block => block.InBounds := by
  unfold createNewBlock
  refine Keeps.get fun s hs => Keeps.bind (Q := fun _ => True) ?_ fun _ _ => ?_
  · exact Safe.assign fun _ _ => ⟨hs.same rfl rfl, trivial⟩
  · refine Keeps.cond (fun _ => Keeps.ret ?_) fun _ => Safe.raise fun _ hs => hs
    show (s.transactions.take maxNumTransactions).length ≤ maxNumTransactions
    rw [List.length_take]
    exact Nat.min_le_left _ _

omit hexec hq in
theorem keeps_storeBlock {block : Block} (h : block.InBounds) :
    Keeps cfg cr (modify fun s => { s with blocks := s.blocks.insert s.view block })
      fun _ => True :=
  Safe.update fun s hs => ⟨hs.insert s.view h, trivial⟩

omit hexec hq in
theorem exists_hash {sha : Text → Digest} {block : Block} (h : block.InBounds) :
    ∃ hash, Checked.hash sha block = some hash ∧ True :=
  ⟨_, Checked.hash_eq h, trivial⟩

theorem keeps_prepare : Keeps cfg cr (prepare cfg cr exec) fun _ => True := by
  unfold prepare
  refine Keeps.get fun s hs => Keeps.bind keeps_createNewBlock fun block hblock => ?_
  refine Keeps.read (exists_hash hblock) fun hash _ => ?_
  have hjust : JustFits cfg cr (s.log.findHighestNv s.view) :=
    .of_inBounds (findHighestNv_inBounds hs.log s.view)
  refine Keeps.bind (keeps_callTEEprepare hjust) fun justPrep hprep => ?_
  refine Keeps.cond (fun _ => ?_) fun _ => Keeps.ret trivial
  refine Keeps.bind (keeps_storeBlock hblock) fun _ _ => Keeps.bind keeps_sendMsg fun _ _ => ?_
  refine Keeps.bind (keeps_storePrep hprep) fun n _ => ?_
  exact Keeps.cond (fun _ => keeps_initiatePrepare hexec hq) fun _ => Keeps.ret trivial

omit hexec hq in
/-- A program that depends on whether the replica leads a view, in a state that has been named. -/
theorem safe_amLeaderOf {α : Type} {f : Bool → HandlerM α} {Q : α → Prop} {s₀ : State} {v : View}
    (hs₀ : InRange cfg cr s₀) (hleads : Leads cfg s₀ v → Keeps cfg cr (f true) Q)
    (hnot : ¬ Leads cfg s₀ v → Keeps cfg cr (f false) Q) :
    Safe (fun s => s = s₀) (amLeaderOf cfg v >>= f) (fun a s => InRange cfg cr s ∧ Q a)
      (InRange cfg cr) := by
  rintro s rfl
  have hkeep : InRange cfg cr
      { s with skippedLeaders := (cfg.leaderOf s.skippedLeaders v).2 } := hs₀.same rfl rfl
  show ∃ r, f (decide (cfg.myid = (cfg.leaderOf s.skippedLeaders v).1)) _ = some r ∧ _
  by_cases h : cfg.myid = (cfg.leaderOf s.skippedLeaders v).1
  · rw [decide_eq_true h]
    exact hleads h _ hkeep
  · rw [decide_eq_false h]
    exact hnot h _ hkeep

omit hexec hq in
theorem safe_amCurrentLeader {α : Type} {f : Bool → HandlerM α} {Q : α → Prop} {s₀ : State}
    (hs₀ : InRange cfg cr s₀) (hleads : Leads cfg s₀ s₀.view → Keeps cfg cr (f true) Q)
    (hnot : ¬ Leads cfg s₀ s₀.view → Keeps cfg cr (f false) Q) :
    Safe (fun s => s = s₀) (amCurrentLeader cfg >>= f) (fun a s => InRange cfg cr s ∧ Q a)
      (InRange cfg cr) := by
  rintro s rfl
  exact safe_amLeaderOf hs₀ hleads hnot s rfl

/-- A new-view that is stored fits. -/
theorem safe_handleNewview {msg : MsgNewView} {s₀ : State} (hs₀ : InRange cfg cr s₀)
    (hmsg : MsgInRange cfg cr s₀ (.newview msg)) :
    Safe (fun s => s = s₀) (handleNewview cfg cr exec msg)
      (fun _ s => InRange cfg cr s ∧ True) (InRange cfg cr) := by
  unfold handleNewview
  refine Safe.get fun s hs => ?_
  subst hs
  refine Safe.cond (fun hgate => ?_) fun _ => (Keeps.ret trivial).named hs₀
  refine safe_amLeaderOf hs₀ (fun hleads => ?_) fun _ => Keeps.ret trivial
  refine Keeps.bind (keeps_storeNv (hmsg hgate hleads)) fun n _ => ?_
  exact Keeps.cond (fun _ => keeps_prepare hexec hq) fun _ => Keeps.ret trivial

theorem keeps_handleNewview {msg : MsgNewView} (hmsg : msg.signs.InBounds) :
    Keeps cfg cr (handleNewview cfg cr exec msg) fun _ => True :=
  fun s hs => safe_handleNewview hexec hq hs (fun _ _ => hmsg) s rfl

end Leader

/-! ### The backups -/

theorem keeps_respondToProposal {just : Just} {block : Block} (hjust : JustFits cfg cr just)
    (hblock : block.InBounds) :
    Keeps cfg cr (respondToProposal cfg cr just block) fun _ => True := by
  unfold respondToProposal
  refine Keeps.read (exists_hash hblock) fun hash _ => ?_
  refine Keeps.bind (keeps_callTEEprepare hjust) fun justPrep _ => ?_
  refine Keeps.cond (fun _ => ?_) fun _ => Keeps.ret trivial
  refine Keeps.bind (keeps_storeBlock hblock) fun _ _ => ?_
  exact Keeps.bind keeps_getCurrentLeader fun _ _ => keeps_sendMsg

section Responses

variable (hq : cfg.qsize ≤ maxNumSignatures) {just : Just}
include hq

theorem keeps_respondToPrepareJust :
    Keeps cfg cr (respondToPrepareJust cfg cr just) fun _ => True := by
  unfold respondToPrepareJust
  refine Keeps.bind (keeps_callTEEstore hq) fun _ _ => ?_
  exact Keeps.bind keeps_getCurrentLeader fun _ _ => keeps_sendMsg

theorem keeps_respondToPreCommitJust :
    Keeps cfg cr (respondToPreCommitJust cfg cr just) fun _ => True := by
  unfold respondToPreCommitJust
  refine Keeps.bind (keeps_callTEEstore hq) fun _ _ => ?_
  exact Keeps.bind keeps_getCurrentLeader fun _ _ => keeps_sendMsg

/-! ### Starting a view -/

theorem keeps_catchUpPrepared : Keeps cfg cr (catchUpPrepared cfg cr) fun _ => True := by
  unfold catchUpPrepared
  refine Keeps.get fun s hs => Keeps.read (exists_getSigns hs.log.prepares _ _) fun signs _ => ?_
  refine Keeps.cond (fun _ => ?_) fun _ => ?_
  · exact Keeps.bind keeps_callTEEsign fun _ _ => keeps_respondToPrepareJust hq
  · cases hfirst : s.log.firstProposal s.view with
    | none => exact Keeps.ret trivial
    | some msg =>
      have hmsg := hs.log.proposals s.view msg (List.mem_of_head? hfirst)
      exact Keeps.cond (fun hone => keeps_respondToProposal (hmsg.just hone) hmsg.block)
        fun _ => Keeps.ret trivial

include hexec

theorem keeps_handleEarlierMessages :
    Keeps cfg cr (handleEarlierMessages cfg cr exec) fun _ => True := by
  unfold handleEarlierMessages
  refine Keeps.bind keeps_amCurrentLeader fun leader _ => Keeps.get fun s hs => ?_
  refine Keeps.cond (fun _ => ?_) fun _ => ?_
  · refine Keeps.read (exists_getSigns hs.log.newviews _ _) fun signs _ => ?_
    exact Keeps.cond (fun _ => keeps_prepare hexec hq) fun _ => Keeps.ret trivial
  · refine Keeps.read (exists_getSigns hs.log.precommits _ _) fun signs _ => ?_
    refine Keeps.cond (fun _ => ?_) fun _ => keeps_catchUpPrepared hq
    refine Keeps.bind keeps_callTEEsign fun _ _ => Keeps.bind keeps_callTEEsign fun _ _ => ?_
    refine Keeps.bind (keeps_respondToPreCommitJust hq) fun _ _ => Keeps.get fun s' hs' => ?_
    refine Keeps.read (exists_getSigns hs'.log.commits _ _) fun signs' _ => ?_
    exact Keeps.cond (fun _ => hexec _) fun _ => Keeps.ret trivial

omit hexec hq in
theorem keeps_signUntilAfter {view : View} (fuel : ℕ) {just : Just} (h : just.signs.InBounds) :
    Keeps cfg cr (signUntilAfter cfg cr view fuel just) fun just => just.signs.InBounds := by
  induction fuel generalizing just with
  | zero => exact Safe.raise fun _ hs => hs
  | succ fuel ih =>
    unfold signUntilAfter
    exact Keeps.cond (fun _ => Keeps.bind keeps_callTEEsign fun _ hjust => ih hjust)
      fun _ => Keeps.ret h

theorem keeps_startNewView (fuel : ℕ) :
    Keeps cfg cr (startNewView cfg cr exec fuel) fun _ => True := by
  unfold startNewView
  refine Keeps.get fun s hs => Keeps.bind keeps_callTEEsign fun first hfirst => ?_
  refine Keeps.bind (keeps_signUntilAfter fuel hfirst) fun just hjust => ?_
  refine Keeps.bind (Q := fun _ => True) ?_ fun _ _ => Keeps.get fun s' hs' => ?_
  · exact Safe.update fun _ hs => ⟨hs.same rfl rfl, trivial⟩
  refine Keeps.cond (fun _ => ?_) fun _ => Keeps.ret trivial
  refine Keeps.bind keeps_amCurrentLeader fun leader _ => Keeps.cond (fun _ => ?_) fun _ => ?_
  · exact Keeps.bind (keeps_handleEarlierMessages hexec hq) fun _ _ =>
      keeps_handleNewview hexec hq hjust
  · refine Keeps.bind keeps_getCurrentLeader fun _ _ => Keeps.bind keeps_sendMsg fun _ _ => ?_
    exact keeps_handleEarlierMessages hexec hq

end Responses

end Exec

/-! ### Execution -/

theorem exists_storedHash {s : State} (hs : InRange cfg cr s) (v : View) :
    ∃ hash, storedHash cr s v = some hash ∧ True := by
  unfold storedHash
  cases hblock : s.blocks.lookup v with
  | none => exact ⟨_, rfl, trivial⟩
  | some block => exact exists_hash (hs.blocks v block hblock)

section Messages

variable (hq : cfg.qsize ≤ maxNumSignatures)
include hq

omit hq in
theorem keeps_recordStats : Keeps cfg cr recordStats fun _ => True := by
  refine Keeps.get fun _ _ => Keeps.cond (fun _ => Safe.raise fun _ hs => hs) fun _ => ?_
  exact Safe.update fun _ hs => ⟨hs.same rfl rfl, trivial⟩

/-- By recursion on the bound, as the execution starts the next view. -/
theorem keeps_executeRData (fuel : ℕ) (rdata : RData) :
    Keeps cfg cr (executeRData cfg cr fuel rdata) fun _ => True := by
  induction fuel generalizing rdata with
  | zero => exact Safe.raise fun _ hs => hs
  | succ fuel ih =>
    unfold executeRData
    refine Keeps.get fun s hs => Keeps.read (exists_storedHash hs _) fun _ _ => ?_
    refine Keeps.read (exists_storedHash hs _) fun _ _ => ?_
    refine Keeps.bind (Q := fun _ => True) ?_ fun _ _ => Keeps.get fun s' hs' => ?_
    · exact Safe.assign fun _ _ => ⟨hs.same rfl rfl, trivial⟩
    · exact Keeps.cond (fun _ => keeps_recordStats) fun _ => keeps_startNewView ih hq fuel

/-! ### Messages -/

variable {s : State} (hs : InRange cfg cr s)
include hs

omit hq in
theorem safe_handleLdrPrepare {msg : MsgLdrPrepare} (h : LdrPrepareInRange cfg cr s msg)
    (hlater : LaterInRange cfg cr s msg) :
    Safe (fun s' => s' = s) (handleLdrPrepare cfg cr msg) (fun _ s => InRange cfg cr s ∧ True)
      (InRange cfg cr) := by
  obtain ⟨vm, hvm, hsigns⟩ := h.signs.verify
  unfold handleLdrPrepare
  refine Safe.read (Checked.hash_eq h.block) (Safe.read hvm (Safe.get fun s' hs' => ?_))
  subst hs'
  refine Safe.cond (fun hgate => ?_) fun _ => (Keeps.ret trivial).named hs
  rw [Bool.and_eq_true, Bool.and_eq_true, decide_eq_true_eq] at hgate
  obtain ⟨⟨hview, hvmtrue⟩, hextends⟩ := hgate
  subst hvmtrue
  refine Safe.cond (fun hcurrent => ?_) fun hne => ?_
  · exact (keeps_respondToProposal (h.answered hcurrent hvm hextends) h.block).named hs
  · have hgt : msg.prop.just.rdata.propv > s'.view := Nat.lt_of_le_of_ne hview (Ne.symm hne)
    have hproposal : ProposalFits cfg cr msg := ⟨h.block, hsigns rfl, hlater hgt hvm hextends⟩
    exact (Keeps.bind (keeps_storeProp hproposal) fun _ _ => Keeps.ret trivial).named hs

theorem safe_handlePrepare (fuel : ℕ) {msg : MsgPrepare}
    (h : MsgInRange cfg cr s (.prepare msg)) :
    Safe (fun s' => s' = s) (handlePrepare cfg cr fuel msg) (fun _ s => InRange cfg cr s ∧ True)
      (InRange cfg cr) := by
  unfold handlePrepare
  refine Safe.get fun s' hs' => ?_
  subst hs'
  refine Safe.cond (fun hcurrent => ?_) fun hcurrent => Safe.cond (fun hlater => ?_) fun _ => ?_
  · refine safe_amCurrentLeader hs (fun hleads => ?_) fun _ => ?_
    · refine Keeps.bind (keeps_storePrep (h (Or.inl ⟨hcurrent, hleads⟩))) fun n _ => ?_
      exact Keeps.cond (fun _ => keeps_initiatePrepare (keeps_executeRData hq fuel) hq)
        fun _ => Keeps.ret trivial
    · rw [if_neg Bool.false_ne_true]
      exact Keeps.cond (fun _ => keeps_respondToPrepareJust hq) fun _ => Keeps.ret trivial
  · exact (Keeps.bind (keeps_storePrep (h (Or.inr ⟨hcurrent, hlater⟩))) fun _ _ =>
      Keeps.ret trivial).named hs
  · exact (Keeps.ret trivial).named hs

theorem safe_handlePrecommit (fuel : ℕ) {msg : MsgPreCommit}
    (h : MsgInRange cfg cr s (.precommit msg)) :
    Safe (fun s' => s' = s) (handlePrecommit cfg cr fuel msg) (fun _ s => InRange cfg cr s ∧ True)
      (InRange cfg cr) := by
  unfold handlePrecommit
  refine Safe.get fun s' hs' => ?_
  subst hs'
  refine Safe.cond (fun hcurrent => ?_) fun hcurrent => Safe.cond (fun hlater => ?_) fun _ => ?_
  · rw [Bool.and_eq_true, decide_eq_true_eq, decide_eq_true_eq] at hcurrent
    refine safe_amCurrentLeader hs (fun hleads => ?_) fun _ => ?_
    · refine Keeps.bind (keeps_storePc (h (Or.inl ⟨hcurrent, hleads⟩))) fun n _ => ?_
      exact Keeps.cond (fun _ => keeps_initiatePrecommit (keeps_executeRData hq fuel) hq)
        fun _ => Keeps.ret trivial
    · rw [if_neg Bool.false_ne_true]
      exact Keeps.cond (fun _ => keeps_respondToPreCommitJust hq) fun _ => Keeps.ret trivial
  · rw [Bool.and_eq_true, decide_eq_true_eq, decide_eq_true_eq] at hcurrent
    exact (Keeps.bind (keeps_storePc (h (Or.inr ⟨hcurrent, hlater⟩))) fun _ _ =>
      Keeps.ret trivial).named hs
  · exact (Keeps.ret trivial).named hs

theorem safe_handleCommit (fuel : ℕ) {msg : MsgCommit} (h : CommitInRange cfg cr s msg) :
    Safe (fun s' => s' = s) (handleCommit cfg cr fuel msg) (fun _ s => InRange cfg cr s ∧ True)
      (InRange cfg cr) := by
  have hexec : ∀ rdata, Keeps cfg cr (executeRData cfg cr fuel rdata) fun _ => True :=
    keeps_executeRData hq fuel
  unfold handleCommit
  refine Safe.get fun s' hs' => ?_
  subst hs'
  refine Safe.cond (fun hcurrent => ?_) fun _ => Safe.cond (fun hlater => ?_) fun _ => ?_
  · rw [Bool.and_eq_true, decide_eq_true_eq, decide_eq_true_eq] at hcurrent
    refine safe_amCurrentLeader hs (fun hleads => ?_) fun _ => ?_
    · refine Keeps.bind (keeps_storeCom (h.current hcurrent.1 hcurrent.2 hleads)) fun n _ => ?_
      exact Keeps.cond (fun _ => keeps_initiateCommit hexec) fun _ => Keeps.ret trivial
    · refine Keeps.read (Q := fun _ => True) ?_ fun verified _ => ?_
      · unfold Checked.checkIf
        by_cases hsize : msg.signs.size = cfg.qsize
        · have hjust : JustFits cfg cr ⟨true, msg.data, msg.signs⟩ :=
            .of_inBounds (hsize.trans_le hq)
          obtain ⟨verified, hverified, -⟩ := hjust.verify
          exact ⟨verified, (if_pos hsize).trans hverified, trivial⟩
        · exact ⟨false, if_neg hsize, trivial⟩
      · exact Keeps.cond (fun _ => hexec _) fun _ => Keeps.ret trivial
  · refine safe_amLeaderOf hs (fun hleads => ?_) fun hnot => ?_
    · exact Keeps.bind (keeps_storeCom (h.later hlater hleads)) fun _ _ => Keeps.ret trivial
    · refine Keeps.read (h.verified hlater hnot).verify fun verified hsigns => ?_
      exact Keeps.cond (fun hverified => Keeps.bind (keeps_storeCom (hsigns hverified)) fun _ _ =>
        Keeps.ret trivial) fun _ => Keeps.ret trivial
  · exact (Keeps.ret trivial).named hs

omit hq hs in
theorem keeps_handleTransaction {t : Transaction} :
    Keeps cfg cr (handleTransaction t) fun _ => True := by
  refine Safe.update fun s hs => ⟨?_, trivial⟩
  split
  · exact hs.same rfl rfl
  · exact hs

omit hs in
theorem keeps_getStarted (fuel : ℕ) : Keeps cfg cr (getStarted cfg cr fuel) fun _ => True := by
  unfold getStarted
  refine Keeps.bind keeps_getCurrentLeader fun leader _ => Keeps.get fun s hs => ?_
  refine Keeps.bind keeps_getLeaderOf fun _ _ => Keeps.bind keeps_callTEEsign fun j hj => ?_
  refine Keeps.bind keeps_amCurrentLeader fun amLeader _ => Keeps.cond (fun _ => ?_) fun _ => ?_
  · exact keeps_handleNewview (keeps_executeRData hq fuel) hq hj
  · exact keeps_sendMsg

omit hs in
theorem keeps_handleStart (fuel : ℕ) {cid : CID} :
    Keeps cfg cr (handleStart cfg cr fuel cid) fun _ => True := by
  unfold handleStart
  refine Keeps.get fun s hs => Keeps.bind (Q := fun _ => True) ?_ fun _ _ => ?_
  · exact Safe.assign fun _ _ => ⟨hs.same rfl rfl, trivial⟩
  · exact Keeps.cond (fun _ => Keeps.ret trivial) fun _ => keeps_getStarted hq fuel

omit hs in
theorem keeps_startNewViewOnTimeout (fuel : ℕ) :
    Keeps cfg cr (startNewViewOnTimeout cfg cr fuel) fun _ => True := by
  unfold startNewViewOnTimeout
  refine Keeps.bind (Q := fun _ => True) (Safe.update fun s hs => ⟨?_, trivial⟩) fun _ _ =>
    keeps_startNewView (keeps_executeRData hq fuel) hq fuel
  split
  · exact hs
  · exact hs.same rfl rfl

/-- **Each handler reads in range** when the message fits, and what is stored fits afterwards. -/
theorem safe_handle (fuel : ℕ) {input : Input} (h : StaysInRange cfg cr s input)
    (hstop : s.stopped = false) :
    Safe (fun s' => s' = s) (handle cfg cr fuel input) (fun _ s => InRange cfg cr s ∧ True)
      (InRange cfg cr) := by
  cases input with
  | peer msg =>
    cases msg with
    | newview msg => exact safe_handleNewview (keeps_executeRData hq fuel) hq hs (h.1 hstop _ rfl)
    | ldrprepare msg => exact safe_handleLdrPrepare hs (h.1 hstop _ rfl) (h.2 hstop _ rfl)
    | prepare msg => exact safe_handlePrepare hq hs fuel (h.1 hstop _ rfl)
    | precommit msg => exact safe_handlePrecommit hq hs fuel (h.1 hstop _ rfl)
    | commit msg => exact safe_handleCommit hq hs fuel (h.1 hstop _ rfl)
  | start cid => exact (keeps_handleStart hq fuel).named hs
  | transaction t => exact keeps_handleTransaction.named hs
  | timeout => exact (keeps_startNewViewOnTimeout hq fuel).named hs

theorem react_inRange (fuel : ℕ) {input : Input} (h : StaysInRange cfg cr s input) :
    ∃ s', s.react cfg cr fuel input = some s' ∧ InRange cfg cr s' := by
  unfold State.react
  by_cases hstop : s.stopped = true
  · exact ⟨s, if_pos hstop, hs⟩
  rw [if_neg hstop]
  by_cases htimer : (input.isTimeout && !s.timer) = true
  · exact ⟨s, if_pos htimer, hs⟩
  rw [if_neg htimer]
  obtain ⟨⟨x, s'⟩, hrun, hends⟩ :=
    safe_handle hq hs fuel h (Bool.not_eq_true _ ▸ hstop) s rfl
  rw [hrun]
  cases x with
  | ok a => exact ⟨s', rfl, hends.1⟩
  | error e =>
    refine ⟨_, rfl, ?_⟩
    split
    · exact InRange.same hends rfl rfl
    · exact hends

end Messages

/-! ### The conditions are necessary -/

section Necessary

variable {α β : Type} {s : State}

theorem get_bind {f : State → HandlerM α} : (MonadState.get >>= f) s = f s s := rfl

theorem bind_eq_none {c : HandlerM α} {f : α → HandlerM β} (h : c s = none) :
    (c >>= f) s = none := by
  rw [Checked.bind_apply, h]
  rfl

theorem amLeaderOf_bind {f : Bool → HandlerM α} {v : View} : (amLeaderOf cfg v >>= f) s =
    f (decide (Leads cfg s v))
      { s with skippedLeaders := (cfg.leaderOf s.skippedLeaders v).2 } := rfl

theorem amCurrentLeader_bind {f : Bool → HandlerM α} : (amCurrentLeader cfg >>= f) s =
    f (decide (Leads cfg s s.view))
      { s with skippedLeaders := (cfg.leaderOf s.skippedLeaders s.view).2 } := rfl

/-- To store signatures that do not fit is to read beyond their array. -/
theorem storeMsg_eq_none {store : Log → Option (ℕ × Log)} (h : store s.log = none) :
    storeMsg store s = none := by
  show (liftM (store s.log) >>= fun r => set { s with log := r.2 } >>= fun _ => pure r.1 :
    HandlerM ℕ) s = none
  rw [h]
  rfl

theorem stores_eq_none {log : Log} {msg : MsgVoteComb} (h : ¬ msg.signs.InBounds) :
    log.storeNv msg = none ∧ log.storePrep msg = none ∧ log.storePc msg = none ∧
      log.storeCom msg = none := by
  unfold Log.storeNv Log.storePrep Log.storePc Log.storeCom
  have hnone : ∀ votes : VoteLog, Checked.store MsgVoteComb.signs votes msg = none := fun _ =>
    Checked.store_eq_none h
  rw [hnone, hnone, hnone, hnone]
  exact ⟨rfl, rfl, rfl, rfl⟩

theorem verifyJust_eq_none {just : Just} (h : ¬ JustFits cfg cr just) :
    verifyJust cfg cr just = none := by
  rw [← Option.not_isSome_iff_eq_none]
  exact fun hsome => h (Checked.isSome_verify.mp hsome)

theorem handleNewview_eq_none {exec : RData → HandlerM Unit} {msg : MsgNewView}
    (h : ¬ MsgInRange cfg cr s (.newview msg)) : handleNewview cfg cr exec msg s = none := by
  obtain ⟨hgate, hrest⟩ := Classical.not_imp.mp h
  obtain ⟨hleads, hnot⟩ := Classical.not_imp.mp hrest
  unfold handleNewview
  rw [get_bind, if_pos hgate, amLeaderOf_bind, decide_eq_true hleads, if_pos rfl]
  exact bind_eq_none (storeMsg_eq_none (stores_eq_none hnot).1)

theorem handlePrepare_eq_none (fuel : ℕ) {msg : MsgPrepare}
    (h : ¬ MsgInRange cfg cr s (.prepare msg)) : handlePrepare cfg cr fuel msg s = none := by
  obtain ⟨hstored, hnot⟩ := Classical.not_imp.mp h
  have hnone : ∀ s', storeMsg (fun log => log.storePrep msg) s' = none := fun _ =>
    storeMsg_eq_none (stores_eq_none hnot).2.1
  unfold handlePrepare
  rw [get_bind]
  rcases hstored with ⟨hcurrent, hleads⟩ | ⟨hcurrent, hlater⟩
  · rw [if_pos hcurrent, amCurrentLeader_bind, decide_eq_true hleads, if_pos rfl]
    exact bind_eq_none (hnone _)
  · rw [if_neg hcurrent, if_pos hlater]
    exact bind_eq_none (hnone _)

theorem handlePrecommit_eq_none (fuel : ℕ) {msg : MsgPreCommit}
    (h : ¬ MsgInRange cfg cr s (.precommit msg)) : handlePrecommit cfg cr fuel msg s = none := by
  obtain ⟨hstored, hnot⟩ := Classical.not_imp.mp h
  have hnone : ∀ s', storeMsg (fun log => log.storePc msg) s' = none := fun _ =>
    storeMsg_eq_none (stores_eq_none hnot).2.2.1
  unfold handlePrecommit
  rw [get_bind, ← Bool.decide_and]
  rcases hstored with ⟨hcurrent, hleads⟩ | ⟨hcurrent, hlater⟩
  · rw [if_pos (decide_eq_true hcurrent), amCurrentLeader_bind, decide_eq_true hleads, if_pos rfl]
    exact bind_eq_none (hnone _)
  · rw [if_neg (by simpa using hcurrent), if_pos hlater]
    exact bind_eq_none (hnone _)

theorem commitInRange_of_handleCommit (fuel : ℕ) {msg : MsgCommit}
    (h : handleCommit cfg cr fuel msg s ≠ none) : CommitInRange cfg cr s msg where
  current hview hphase hleads := by
    by_contra hnot
    refine h ?_
    have hcurrent : (decide (msg.data.propv = s.view) &&
        decide (msg.data.phase = Phase1.commit.byte)) = true := by
      rw [decide_eq_true hview, decide_eq_true hphase]
      rfl
    unfold handleCommit
    rw [get_bind, if_pos hcurrent, amCurrentLeader_bind, decide_eq_true hleads, if_pos rfl]
    exact bind_eq_none (storeMsg_eq_none (stores_eq_none hnot).2.2.2)
  later hlater hleads := by
    by_contra hnot
    refine h ?_
    have hcurrent : ¬ (decide (msg.data.propv = s.view) &&
        decide (msg.data.phase = Phase1.commit.byte)) = true := by
      rw [decide_eq_false (Nat.ne_of_gt hlater)]
      exact Bool.false_ne_true
    unfold handleCommit
    rw [get_bind, if_neg hcurrent, if_pos hlater, amLeaderOf_bind, decide_eq_true hleads, if_pos rfl]
    exact bind_eq_none (storeMsg_eq_none (stores_eq_none hnot).2.2.2)
  verified hlater hleads := by
    by_contra hnot
    refine h ?_
    have hcurrent : ¬ (decide (msg.data.propv = s.view) &&
        decide (msg.data.phase = Phase1.commit.byte)) = true := by
      rw [decide_eq_false (Nat.ne_of_gt hlater)]
      exact Bool.false_ne_true
    unfold handleCommit
    rw [get_bind, if_neg hcurrent, if_pos hlater, amLeaderOf_bind, decide_eq_false hleads,
      if_neg Bool.false_ne_true, verifyJust_eq_none hnot]
    rfl

theorem respondToProposal_eq_none {just : Just} {block : Block} (hblock : block.InBounds)
    (hjust : ¬ JustFits cfg cr just) : respondToProposal cfg cr just block s = none := by
  unfold respondToProposal callTEEprepare
  rw [Checked.hash_eq hblock, verifyJust_eq_none hjust]
  rfl

theorem ldrPrepareInRange_of_handleLdrPrepare {msg : MsgLdrPrepare}
    (h : handleLdrPrepare cfg cr msg s ≠ none) : LdrPrepareInRange cfg cr s msg := by
  have hblock : msg.prop.block.InBounds := by
    by_contra hnot
    refine h ?_
    have hnone : Checked.hash cr.sha256 msg.prop.block = none := by
      rw [← Option.not_isSome_iff_eq_none]
      exact fun hsome => hnot (Checked.isSome_hash.mp hsome)
    unfold handleLdrPrepare
    rw [hnone]
    rfl
  refine ⟨hblock, ?_, fun hview hverified hextends => ?_⟩
  · by_contra hnot
    refine h ?_
    have hnone := verifyJust_eq_none hnot
    unfold ldrJust at hnone
    unfold handleLdrPrepare
    rw [Checked.hash_eq hblock, Lib.Checked.read_some, pure_bind, hnone]
    rfl
  · by_contra hnot
    refine h ?_
    unfold ldrJust at hverified
    have hgate : (decide (msg.prop.just.rdata.propv ≥ s.view) && true &&
        msg.prop.block.extends msg.prop.just.rdata.justh) = true := by
      rw [decide_eq_true (Nat.le_of_eq hview.symm), hextends]
      rfl
    unfold handleLdrPrepare
    rw [Checked.hash_eq hblock, Lib.Checked.read_some, pure_bind, hverified, Lib.Checked.read_some,
      pure_bind, get_bind, if_pos hgate, if_pos hview]
    exact respondToProposal_eq_none hblock hnot

/-- **A message that does not satisfy its condition is read beyond an array** while it is handled. -/
theorem inputInRange_of_react (fuel : ℕ) {input : Input} (h : (s.react cfg cr fuel input).isSome) :
    InputInRange cfg cr s input := by
  rintro hstop msg rfl
  have hreact : handle cfg cr fuel (.peer msg) s ≠ none := by
    intro hnone
    unfold State.react at h
    rw [hstop, hnone] at h
    exact Bool.false_ne_true h
  cases msg with
  | newview msg => exact Classical.not_not.mp fun hnot => hreact (handleNewview_eq_none hnot)
  | ldrprepare msg => exact ldrPrepareInRange_of_handleLdrPrepare hreact
  | prepare msg => exact Classical.not_not.mp fun hnot => hreact (handlePrepare_eq_none fuel hnot)
  | precommit msg =>
    exact Classical.not_not.mp fun hnot => hreact (handlePrecommit_eq_none fuel hnot)
  | commit msg => exact commitInRange_of_handleCommit fuel hreact

end Necessary

end Raftel.HotStuff
