import Raftel.Equiv.HotStuff
import Mathlib.Data.List.Dedup

/-!
# What a HotStuff replica logs

The log grows by the messages that the handlers store and by the votes of the replica itself; no message is
ever taken out.  A `Kept` property of the log is one that such a growth keeps.

* `mem_of_store`, `mem_store_of_mem`, `mem_store` : what the log holds after a call of `store*`
* `ensures_peer` : what holds after a message is stored, or when it is not, holds after its handler
* `react_kept` : the reaction to an input
-/

namespace Raftel.HotStuff

open Lib

variable {Key : Type} {cfg : HandlerConfig Key} {cr : Crypto Key}

/-! ### One message more -/

section Store

variable {l l' : VoteLog} {msg m : MsgVoteComb} {n : ℕ} {v : View}

/-- The log is as it was, or the message is inserted. -/
theorem store_cases (h : Checked.store MsgVoteComb.signs l msg = some (n, l')) :
    l' = l ∨ l' = l.insert (Checked.msgLt MsgVoteComb.signs) msg := by
  obtain ⟨signers, -, h⟩ := Option.bind_eq_some_iff.mp h
  split at h
  · obtain ⟨found, -, h⟩ := Option.bind_eq_some_iff.mp h
    split at h
    · cases h
      exact Or.inl rfl
    · obtain ⟨inserted, hinsert, h⟩ := Option.bind_eq_some_iff.mp h
      obtain ⟨-, -, heq⟩ := Option.bind_eq_some_iff.mp hinsert
      cases heq
      cases h
      exact Or.inr rfl
  · cases h
    exact Or.inr rfl

theorem mem_of_store (h : Checked.store MsgVoteComb.signs l msg = some (n, l')) (hm : m ∈ l'.get v) :
    m ∈ l.get v ∨ m = msg := by
  rcases store_cases h with rfl | rfl
  · exact Or.inl hm
  · by_cases hv : v = msg.data.propv
    · subst hv
      have hm : m ∈ setInsert (Checked.msgLt MsgVoteComb.signs) msg (l.get msg.data.propv) := by
        rwa [← ViewLog.get_insert]
      exact (mem_of_mem_setInsert hm).symm
    · have hsame : (l.insert (Checked.msgLt MsgVoteComb.signs) msg).get v = l.get v :=
        ViewLog.get_insert_of_ne hv
      rw [hsame] at hm
      exact Or.inl hm

theorem mem_store_of_mem (h : Checked.store MsgVoteComb.signs l msg = some (n, l')) (hm : m ∈ l.get v) :
    m ∈ l'.get v := by
  rcases store_cases h with rfl | rfl
  · exact hm
  · by_cases hv : v = msg.data.propv
    · subst hv
      have hinsert : m ∈ setInsert (Checked.msgLt MsgVoteComb.signs) msg (l.get msg.data.propv) :=
        mem_setInsert_of_mem hm
      rwa [← ViewLog.get_insert] at hinsert
    · have hsame : (l.insert (Checked.msgLt MsgVoteComb.signs) msg).get v = l.get v :=
        ViewLog.get_insert_of_ne hv
      rwa [hsame]

/-- Signatures are ordered when the signer of a single one is not among the others. -/
theorem lt_or_lt_of_not_mem {ss ts : Signs} (hone : ss.size = 1)
    (h : (ss.get 0).signer ∉ ts.entries.map Sign.signer) : ss.lt ts = true ∨ ts.lt ss = true := by
  by_cases hsize : ts.size = 1
  · rw [Signs.entries_of_size_one hsize, List.map_singleton, List.mem_singleton] at h
    have hvotes : (⟨RData.none, ss⟩ : MsgVoteComb).lt ⟨RData.none, ts⟩ = true ∨
        (⟨RData.none, ts⟩ : MsgVoteComb).lt ⟨RData.none, ss⟩ = true :=
      MsgVoteComb.lt_or_lt hone hsize h
    exact hvotes
  · unfold Signs.lt
    rcases Nat.lt_or_gt_of_ne hsize with hlt | hlt
    · right
      rw [hone, if_pos hlt]
    · left
      rw [hone, if_pos hlt]

/-- The loop over the stored messages does not find a signer that none of them has. -/
theorem msgFrom_eq_false {k : PID} {msgs : List MsgVoteComb} {found : Bool}
    (hnone : ∀ m ∈ msgs, k ∉ m.signs.entries.map Sign.signer)
    (h : Checked.msgFrom MsgVoteComb.signs [k] msgs = some found) : found = false := by
  induction msgs with
  | nil =>
    cases h
    rfl
  | cons m msgs ih =>
    obtain ⟨signers, hread, h⟩ := Option.bind_eq_some_iff.mp h
    have hfits : m.signs.InBounds := Checked.isSome_getSigners.mp (by rw [hread]; rfl)
    rw [Checked.getSigners_eq hfits, Option.some.injEq] at hread
    have hnot : k ∉ signers := by
      rw [← hread]
      intro hk
      exact hnone m List.mem_cons_self (List.mem_dedup.mp hk)
    have hdiff : [k].diff signers = [k] := by
      rw [List.cons_diff_of_not_mem hnot, List.nil_diff]
    have hfrom : ¬ signersFrom [k] signers = true := fun htrue => hnot (signersFrom_singleton.mp htrue)
    rw [if_neg hfrom, hdiff] at h
    exact ih (fun m' hm' => hnone m' (List.mem_cons_of_mem m hm')) h

/-- **A message of a new signer comes in.** -/
theorem mem_store (h : Checked.store MsgVoteComb.signs l msg = some (n, l')) (hone : msg.signs.size = 1)
    (hnew : ∀ m ∈ l.get msg.data.propv, msg.vote.signer ∈ m.signs.entries.map Sign.signer → m = msg) :
    msg ∈ l'.get msg.data.propv := by
  by_cases hmem : msg ∈ l.get msg.data.propv
  · exact mem_store_of_mem h hmem
  have hnone : ∀ m ∈ l.get msg.data.propv, msg.vote.signer ∉ m.signs.entries.map Sign.signer := by
    intro m hm hk
    exact hmem (hnew m hm hk ▸ hm)
  have hinsert : msg ∈ (l.insert (Checked.msgLt MsgVoteComb.signs) msg).get msg.data.propv := by
    rw [ViewLog.get_insert]
    refine (setInsert_perm fun m hm => ?_).mem_iff.mpr List.mem_cons_self
    exact lt_or_lt_of_not_mem hone (hnone m hm)
  obtain ⟨signers, hread, h⟩ := Option.bind_eq_some_iff.mp h
  have hfits : msg.signs.InBounds := hone.trans_le maxNumSignatures_pos
  have hsigners : msg.signs.getSigners = [msg.vote.signer] := by
    unfold Signs.getSigners
    rw [Signs.entries_of_size_one hone]
    rfl
  rw [Checked.getSigners_eq hfits, hsigners, Option.some.injEq] at hread
  subst hread
  split at h
  · next msgs hlookup =>
    have hget : l.get msg.data.propv = msgs := by simp [ViewLog.get, hlookup]
    obtain ⟨found, hfound, h⟩ := Option.bind_eq_some_iff.mp h
    obtain rfl := msgFrom_eq_false (hget ▸ hnone) hfound
    obtain ⟨inserted, hinserted, h⟩ := Option.bind_eq_some_iff.mp h
    obtain ⟨-, -, heq⟩ := Option.bind_eq_some_iff.mp hinserted
    cases heq
    cases h
    exact hinsert
  · cases h
    exact hinsert

end Store

/-! ### What the log holds -/

/-- The map of the log for the new-views, or for the votes of a phase. -/
def Log.votesOf (log : Log) : Phase1 → VoteLog
  | .newview => log.newviews
  | .prepare => log.prepares
  | .precommit => log.precommits
  | .commit => log.commits

/-- The function of the log that stores in it. -/
def Log.storeOf (log : Log) : Phase1 → MsgVoteComb → Option (ℕ × Log)
  | .newview => log.storeNv
  | .prepare => log.storePrep
  | .precommit => log.storePc
  | .commit => log.storeCom

/-- The new-view or the vote, as it is sent. -/
def voteMsg : Phase1 → MsgVoteComb → Msg
  | .newview => .newview
  | .prepare => .prepare
  | .precommit => .precommit
  | .commit => .commit

variable (cfg) in
/-- No signature but those of the replica itself; a vote that its component refused has none. -/
def Own (signs : Signs) : Prop := ∀ s ∈ signs.entries, s.signer = cfg.myid

/-- A log with more messages, for all of which `logged` holds. -/
structure Log.Grows (logged : Phase1 → MsgVoteComb → Prop) (log log' : Log) : Prop where
  kept : ∀ ph v, ∀ m ∈ (log.votesOf ph).get v, m ∈ (log'.votesOf ph).get v
  new : ∀ ph v, ∀ m ∈ (log'.votesOf ph).get v, m ∈ (log.votesOf ph).get v ∨ logged ph m

variable (cfg) in
/-- A property that is kept when such messages are stored, the replica's own ones among them. -/
structure Kept (logged : Phase1 → MsgVoteComb → Prop) (I : Log → Prop) : Prop where
  grows : ∀ log log', log.Grows logged log' → I log → I log'
  own : ∀ ph (m : MsgVoteComb), Own cfg m.signs → logged ph m

section Stored

variable {log log' : Log} {ph : Phase1} {msg : MsgVoteComb} {n : ℕ}

/-- To store a message is to store it in its map. -/
theorem votesOf_of_storeOf (h : log.storeOf ph msg = some (n, log')) :
    (∃ n', Checked.store MsgVoteComb.signs (log.votesOf ph) msg = some (n', log'.votesOf ph)) ∧
      ∀ ph' ≠ ph, log'.votesOf ph' = log.votesOf ph' := by
  cases ph
  all_goals
    obtain ⟨⟨n', votes⟩, hvotes, heq⟩ := Option.bind_eq_some_iff.mp h
    cases heq
    refine ⟨⟨_, hvotes⟩, fun ph' hne => ?_⟩
    cases ph'
    all_goals first | rfl | exact absurd rfl hne

/-- The log grows by the message. -/
theorem grows_of_storeOf {logged : Phase1 → MsgVoteComb → Prop} (hlogged : logged ph msg)
    (h : log.storeOf ph msg = some (n, log')) : log.Grows logged log' := by
  obtain ⟨⟨n', hvotes⟩, hothers⟩ := votesOf_of_storeOf h
  constructor
  · intro ph' v m hm
    by_cases hph : ph' = ph
    · subst hph
      exact mem_store_of_mem hvotes hm
    · rw [hothers ph' hph]
      exact hm
  · intro ph' v m hm
    by_cases hph : ph' = ph
    · subst hph
      refine (mem_of_store hvotes hm).imp_right ?_
      rintro rfl
      exact hlogged
    · rw [hothers ph' hph] at hm
      exact Or.inl hm

end Stored

/-! ### Programs that keep it -/

variable {logged : Phase1 → MsgVoteComb → Prop} {I : Log → Prop}

/-- The program keeps the property, and its value is as `Q` says. -/
def Logs {α : Type} (I : Log → Prop) (c : HandlerM α) (Q : α → Prop) : Prop :=
  Ensures (fun s => I s.log) c (fun a s => I s.log ∧ Q a) fun s => I s.log

section Rules

variable {α β : Type} {c : HandlerM α} {Q : α → Prop} {R : β → Prop}

theorem Logs.bind {f : α → HandlerM β} (hc : Logs I c Q) (hf : ∀ a, Q a → Logs I (f a) R) :
    Logs I (c >>= f) R :=
  Ensures.bind hc fun a s r hs hrun => hf a hs.2 s r hs.1 hrun

theorem Logs.ret {a : α} (h : Q a) : Logs I (pure a) Q := Ensures.ret fun _ hs => ⟨hs, h⟩

theorem Logs.cond {p : Prop} [Decidable p] {c' : HandlerM α} (hc : p → Logs I c Q)
    (hc' : ¬ p → Logs I c' Q) : Logs I (if p then c else c') Q :=
  Ensures.cond hc hc'

theorem Logs.get {f : State → HandlerM α} (h : ∀ s, Logs I (f s) Q) :
    Logs I (MonadState.get >>= f) Q :=
  Ensures.get fun s hs => (h s).pre fun _ heq => heq ▸ hs

theorem Logs.read {x : Option α} {f : α → HandlerM β} (h : ∀ a, x = some a → Logs I (f a) R) :
    Logs I (liftM x >>= f) R :=
  Ensures.read h

theorem Logs.raise {e : HandlerError} : Logs I (throw e : HandlerM α) Q := Ensures.raise fun _ hs => hs

/-- The rule for the programs that do not touch the log. -/
theorem Logs.of_same (h : ∀ s, ∃ a s', c s = some (.ok a, s') ∧ s'.log = s.log ∧ Q a) : Logs I c Q := by
  refine Ensures.of_run fun s hs => ?_
  obtain ⟨a, s', hrun, hlog, hQ⟩ := h s
  exact ⟨a, s', hrun, hlog ▸ hs, hQ⟩

end Rules

theorem logs_sendMsg {msg : Msg} {recipients : List PID} :
    Logs I (sendMsg msg recipients) fun _ => True :=
  Logs.of_same fun _ => ⟨_, _, rfl, rfl, trivial⟩

theorem logs_getLeaderOf {v : View} : Logs I (getLeaderOf cfg v) fun _ => True :=
  Logs.of_same fun _ => ⟨_, _, rfl, rfl, trivial⟩

theorem logs_getCurrentLeader : Logs I (getCurrentLeader cfg) fun _ => True :=
  Logs.of_same fun _ => ⟨_, _, rfl, rfl, trivial⟩

theorem logs_amLeaderOf {v : View} : Logs I (amLeaderOf cfg v) fun _ => True :=
  Logs.of_same fun _ => ⟨_, _, rfl, rfl, trivial⟩

theorem logs_amCurrentLeader : Logs I (amCurrentLeader cfg) fun _ => True :=
  Logs.of_same fun _ => ⟨_, _, rfl, rfl, trivial⟩

theorem logs_storeBlock {block : Block} :
    Logs I (modify fun s => { s with blocks := s.blocks.insert s.view block }) fun _ => True :=
  Logs.of_same fun _ => ⟨_, _, rfl, rfl, trivial⟩

/-! ### The trusted functions -/

theorem own_none : Own cfg Just.none.signs := fun _ hs => absurd hs List.not_mem_nil

theorem own_funSign {h₁ h₂ : Hash} {v₂ : View} {st : CombState} :
    Own cfg (funSign cr (funVars cfg) h₁ h₂ v₂ st).1.signs := by
  intro s hs
  rw [List.mem_singleton.mp hs]
  rfl

theorem logs_callTEEsign : Logs I (callTEEsign cfg cr) fun just => Own cfg just.signs :=
  Logs.of_same fun _ => ⟨_, _, rfl, rfl, own_funSign⟩

theorem own_funTEEprepare {hash : Hash} {just : Just} {st : CombState} :
    Own cfg (funTEEprepare cr (funVars cfg) hash just st).1.signs := by
  unfold funTEEprepare
  dsimp only
  split
  · exact own_funSign
  · exact own_none

theorem own_funTEEstore {just : Just} {st : CombState} :
    Own cfg (funTEEstore cr (funVars cfg) just st).1.signs := by
  unfold funTEEstore
  dsimp only
  split
  · exact own_funSign
  · exact own_none

theorem logs_callTEEprepare {hash : Hash} {just : Just} :
    Logs I (callTEEprepare cfg cr hash just) fun just => Own cfg just.signs := by
  unfold callTEEprepare
  exact Logs.read fun _ _ => Logs.of_same fun _ => ⟨_, _, rfl, rfl, own_funTEEprepare⟩

theorem logs_callTEEstore {just : Just} :
    Logs I (callTEEstore cfg cr just) fun just => Own cfg just.signs := by
  unfold callTEEstore
  exact Logs.read fun _ _ => Logs.of_same fun _ => ⟨_, _, rfl, rfl, own_funTEEstore⟩

/-! ### The log -/

/-- A call of `store*` keeps what the new log has. -/
theorem logs_storeMsg {store : Log → Option (ℕ × Log)}
    (h : ∀ log n log', store log = some (n, log') → I log → I log') :
    Logs I (storeMsg store) fun _ => True := by
  unfold storeMsg
  refine Ensures.get fun s hs => Ensures.read fun r hstore => ?_
  obtain ⟨n, log⟩ := r
  refine Ensures.of_run fun s' hs' => ⟨n, { s with log := log }, rfl, ?_, trivial⟩
  exact h s.log n log hstore hs

section Functions

variable (hI : Kept cfg logged I)
include hI

theorem logs_storeOf (ph : Phase1) {msg : MsgVoteComb} (hlogged : logged ph msg) :
    Logs I (storeMsg fun log => log.storeOf ph msg) fun _ => True :=
  logs_storeMsg fun log _ log' hstore => hI.grows log log' (grows_of_storeOf hlogged hstore)

/-- Proposals are kept apart. -/
theorem logs_storeProp {msg : MsgLdrPrepare} :
    Logs I (storeMsg fun log => log.storeProp msg) fun _ => True := by
  refine logs_storeMsg fun log n log' hstore => hI.grows log log' ?_
  obtain ⟨⟨n', proposals⟩, -, heq⟩ := Option.bind_eq_some_iff.mp hstore
  cases heq
  have hsame : ∀ ph, ({ log with proposals := proposals } : Log).votesOf ph = log.votesOf ph := by
    intro ph
    cases ph <;> rfl
  constructor
  · intro ph v m hm
    rw [hsame]
    exact hm
  · intro ph v m hm
    rw [hsame] at hm
    exact Or.inl hm

/-! ### The leader -/

section Exec

variable {exec : RData → HandlerM Unit} (hexec : ∀ rdata, Logs I (exec rdata) fun _ => True)
include hexec

omit hI in
theorem logs_initiateCommit {rdata : RData} :
    Logs I (initiateCommit cfg exec rdata) fun _ => True := by
  unfold initiateCommit
  refine Logs.get fun s => Logs.read fun signs _ => Logs.cond (fun _ => ?_) fun _ => Logs.ret trivial
  exact Logs.bind logs_sendMsg fun _ _ => hexec rdata

theorem logs_initiatePrecommit {rdata : RData} :
    Logs I (initiatePrecommit cfg cr exec rdata) fun _ => True := by
  unfold initiatePrecommit
  refine Logs.get fun s => Logs.read fun signs _ => Logs.cond (fun _ => ?_) fun _ => Logs.ret trivial
  refine Logs.bind logs_sendMsg fun _ _ => Logs.bind logs_callTEEstore fun justCom hown => ?_
  refine Logs.bind (logs_storeOf hI .commit (hI.own _ _ hown)) fun n _ => ?_
  exact Logs.cond (fun _ => logs_initiateCommit hexec) fun _ => Logs.ret trivial

theorem logs_initiatePrepare {rdata : RData} :
    Logs I (initiatePrepare cfg cr exec rdata) fun _ => True := by
  unfold initiatePrepare
  refine Logs.get fun s => Logs.read fun signs _ => Logs.cond (fun _ => ?_) fun _ => Logs.ret trivial
  refine Logs.bind logs_sendMsg fun _ _ => Logs.bind logs_callTEEstore fun justPc hown => ?_
  refine Logs.bind (logs_storeOf hI .precommit (hI.own _ _ hown)) fun n _ => ?_
  exact Logs.cond (fun _ => logs_initiatePrecommit hI hexec) fun _ => Logs.ret trivial

omit hI hexec in
theorem logs_createNewBlock {h : Hash} : Logs I (createNewBlock cfg h) fun _ => True := by
  unfold createNewBlock
  refine Ensures.get fun s hs => Ensures.bind (Q := fun _ s => I s.log) ?_ fun _ => ?_
  · exact Ensures.of_run fun s' _ => ⟨_, _, rfl, hs⟩
  · exact Logs.cond (fun _ => Logs.ret trivial) fun _ => Logs.raise

theorem logs_prepare : Logs I (prepare cfg cr exec) fun _ => True := by
  unfold prepare
  refine Logs.get fun s => Logs.bind logs_createNewBlock fun block _ => Logs.read fun hash _ => ?_
  refine Logs.bind logs_callTEEprepare fun justPrep hown => ?_
  refine Logs.cond (fun _ => ?_) fun _ => Logs.ret trivial
  refine Logs.bind logs_storeBlock fun _ _ => Logs.bind logs_sendMsg fun _ _ => ?_
  refine Logs.bind (logs_storeOf hI .prepare (hI.own _ _ hown)) fun n _ => ?_
  exact Logs.cond (fun _ => logs_initiatePrepare hI hexec) fun _ => Logs.ret trivial

theorem logs_handleNewview {msg : MsgNewView} (hlogged : logged .newview msg) :
    Logs I (handleNewview cfg cr exec msg) fun _ => True := by
  unfold handleNewview
  refine Logs.get fun s => Logs.cond (fun _ => ?_) fun _ => Logs.ret trivial
  refine Logs.bind logs_amLeaderOf fun leader _ => Logs.cond (fun _ => ?_) fun _ => Logs.ret trivial
  refine Logs.bind (logs_storeOf hI .newview hlogged) fun n _ => ?_
  exact Logs.cond (fun _ => logs_prepare hI hexec) fun _ => Logs.ret trivial

end Exec

/-! ### The backups -/

omit hI in
theorem logs_respondToProposal {just : Just} {block : Block} :
    Logs I (respondToProposal cfg cr just block) fun _ => True := by
  unfold respondToProposal
  refine Logs.read fun hash _ => Logs.bind logs_callTEEprepare fun justPrep _ => ?_
  refine Logs.cond (fun _ => ?_) fun _ => Logs.ret trivial
  refine Logs.bind logs_storeBlock fun _ _ => ?_
  exact Logs.bind logs_getCurrentLeader fun _ _ => logs_sendMsg

omit hI in
theorem logs_respondToPrepareJust {just : Just} :
    Logs I (respondToPrepareJust cfg cr just) fun _ => True := by
  unfold respondToPrepareJust
  refine Logs.bind logs_callTEEstore fun _ _ => ?_
  exact Logs.bind logs_getCurrentLeader fun _ _ => logs_sendMsg

omit hI in
theorem logs_respondToPreCommitJust {just : Just} :
    Logs I (respondToPreCommitJust cfg cr just) fun _ => True := by
  unfold respondToPreCommitJust
  refine Logs.bind logs_callTEEstore fun _ _ => ?_
  exact Logs.bind logs_getCurrentLeader fun _ _ => logs_sendMsg

theorem logs_handleLdrPrepare {msg : MsgLdrPrepare} :
    Logs I (handleLdrPrepare cfg cr msg) fun _ => True := by
  unfold handleLdrPrepare
  refine Logs.read fun hash _ => Logs.read fun vm _ => Logs.get fun s => ?_
  refine Logs.cond (fun _ => ?_) fun _ => Logs.ret trivial
  refine Logs.cond (fun _ => logs_respondToProposal) fun _ => ?_
  exact Logs.bind (logs_storeProp hI) fun _ _ => Logs.ret trivial

/-! ### Starting a view -/

omit hI in
theorem logs_catchUpPrepared : Logs I (catchUpPrepared cfg cr) fun _ => True := by
  unfold catchUpPrepared
  refine Logs.get fun s => Logs.read fun signs _ => Logs.cond (fun _ => ?_) fun _ => ?_
  · exact Logs.bind logs_callTEEsign fun _ _ => logs_respondToPrepareJust
  · cases s.log.firstProposal s.view with
    | none => exact Logs.ret trivial
    | some msg => exact Logs.cond (fun _ => logs_respondToProposal) fun _ => Logs.ret trivial

omit hI in
theorem logs_signUntilAfter {view : View} (fuel : ℕ) {just : Just} (hown : Own cfg just.signs) :
    Logs I (signUntilAfter cfg cr view fuel just) fun just => Own cfg just.signs := by
  induction fuel generalizing just with
  | zero => exact Logs.raise
  | succ fuel ih =>
    unfold signUntilAfter
    exact Logs.cond (fun _ => Logs.bind logs_callTEEsign fun _ hown' => ih hown')
      fun _ => Logs.ret hown

section Exec

variable {exec : RData → HandlerM Unit} (hexec : ∀ rdata, Logs I (exec rdata) fun _ => True)
include hexec

theorem logs_handleEarlierMessages :
    Logs I (handleEarlierMessages cfg cr exec) fun _ => True := by
  unfold handleEarlierMessages
  refine Logs.bind logs_amCurrentLeader fun leader _ => Logs.get fun s => ?_
  refine Logs.cond (fun _ => ?_) fun _ => ?_
  · refine Logs.read fun signs _ => ?_
    exact Logs.cond (fun _ => logs_prepare hI hexec) fun _ => Logs.ret trivial
  · refine Logs.read fun signs _ => Logs.cond (fun _ => ?_) fun _ => logs_catchUpPrepared
    refine Logs.bind logs_callTEEsign fun _ _ => Logs.bind logs_callTEEsign fun _ _ => ?_
    refine Logs.bind logs_respondToPreCommitJust fun _ _ => Logs.get fun s' => ?_
    refine Logs.read fun signs' _ => ?_
    exact Logs.cond (fun _ => hexec _) fun _ => Logs.ret trivial

theorem logs_startNewView (fuel : ℕ) : Logs I (startNewView cfg cr exec fuel) fun _ => True := by
  unfold startNewView
  refine Logs.get fun s => Logs.bind logs_callTEEsign fun first hfirst => ?_
  refine Logs.bind (logs_signUntilAfter fuel hfirst) fun just hown => ?_
  refine Logs.bind (Q := fun _ => True) ?_ fun _ _ => Logs.get fun s' => ?_
  · exact Logs.of_same fun _ => ⟨_, _, rfl, rfl, trivial⟩
  refine Logs.cond (fun _ => ?_) fun _ => Logs.ret trivial
  refine Logs.bind logs_amCurrentLeader fun leader _ => Logs.cond (fun _ => ?_) fun _ => ?_
  · refine Logs.bind (logs_handleEarlierMessages hI hexec) fun _ _ => ?_
    exact logs_handleNewview hI hexec (hI.own _ _ hown)
  · refine Logs.bind logs_getCurrentLeader fun _ _ => ?_
    exact Logs.bind logs_sendMsg fun _ _ => logs_handleEarlierMessages hI hexec

end Exec

/-! ### Execution -/

theorem logs_executeRData (fuel : ℕ) (rdata : RData) :
    Logs I (executeRData cfg cr fuel rdata) fun _ => True := by
  induction fuel generalizing rdata with
  | zero => exact Logs.raise
  | succ fuel ih =>
    unfold executeRData
    refine Ensures.get fun s hs => Ensures.read fun _ _ => Ensures.read fun _ _ => ?_
    refine Ensures.bind (Q := fun _ s => I s.log) ?_ fun _ => ?_
    · exact Ensures.of_run fun s' _ => ⟨_, _, rfl, hs⟩
    · refine Logs.get fun s' => Logs.cond (fun _ => ?_) fun _ => logs_startNewView hI ih fuel
      refine Logs.get fun _ => Logs.cond (fun _ => Logs.raise) fun _ => ?_
      exact Logs.of_same fun _ => ⟨_, _, rfl, rfl, trivial⟩

/-! ### Messages -/

variable {s₀ : State} {msg : MsgVoteComb}

omit hI in
theorem ensures_amLeaderOf {α : Type} {f : Bool → HandlerM α} {Q : α → State → Prop}
    {E : State → Prop} {v : View}
    (hlead : Leads cfg s₀ v → Ensures (fun s => s.log = s₀.log) (f true) Q E)
    (hnot : ¬ Leads cfg s₀ v → Ensures (fun s => s.log = s₀.log) (f false) Q E) :
    Ensures (fun s => s = s₀) (amLeaderOf cfg v >>= f) Q E := by
  rintro s r rfl hrun
  rw [amLeaderOf_bind] at hrun
  by_cases h : Leads cfg s v
  · rw [decide_eq_true h] at hrun
    exact hlead h { s with skippedLeaders := (cfg.leaderOf s.skippedLeaders v).2 } r rfl hrun
  · rw [decide_eq_false h] at hrun
    exact hnot h { s with skippedLeaders := (cfg.leaderOf s.skippedLeaders v).2 } r rfl hrun

omit hI in
theorem ensures_amCurrentLeader {α : Type} {f : Bool → HandlerM α} {Q : α → State → Prop}
    {E : State → Prop}
    (hlead : Leads cfg s₀ s₀.view → Ensures (fun s => s.log = s₀.log) (f true) Q E)
    (hnot : ¬ Leads cfg s₀ s₀.view → Ensures (fun s => s.log = s₀.log) (f false) Q E) :
    Ensures (fun s => s = s₀) (amCurrentLeader cfg >>= f) Q E := by
  rintro s r rfl hrun
  exact ensures_amLeaderOf hlead hnot s r rfl hrun

omit hI in
/-- A message is stored, and what follows keeps what the new log has. -/
theorem ensures_storeOf (ph : Phase1) {α : Type} {f : ℕ → HandlerM α} {Q : α → Prop}
    (hstored : ∀ n log, s₀.log.storeOf ph msg = some (n, log) → I log) (hf : ∀ n, Logs I (f n) Q) :
    Ensures (fun s => s.log = s₀.log) (storeMsg (fun log => log.storeOf ph msg) >>= f)
      (fun a s => I s.log ∧ Q a) fun s => I s.log := by
  refine Ensures.bind (Q := fun _ (s : State) => I s.log) ?_ hf
  unfold storeMsg
  refine Ensures.get fun s hs => Ensures.read fun r hstore => ?_
  obtain ⟨n, log⟩ := r
  exact Ensures.of_run fun s' _ => ⟨n, { s with log := log }, rfl, hstored n log (hs ▸ hstore)⟩

omit hI in
variable (cfg cr) in
/-- What the handlers check before they store a message: a leader stores new-views and votes as they come, and
other replicas verify the commits that they keep for later. -/
def Passes (s : State) : Phase1 → MsgVoteComb → Prop
  | .newview, m => newviewGate s.view m = true ∧ Leads cfg s m.data.propv
  | .prepare, m => Stored cfg s (m.data.propv = s.view) m
  | .precommit, m => Stored cfg s (m.data.propv = s.view ∧ m.data.phase = Phase1.precommit.byte) m
  | .commit, m =>
    (m.data.propv = s.view ∧ m.data.phase = Phase1.commit.byte ∧ Leads cfg s s.view) ∨
      (m.data.propv > s.view ∧
        (Leads cfg s m.data.propv ∨ verifyJust cfg cr ⟨true, m.data, m.signs⟩ = some true))

omit hI in
/-- What holds of the log in which the message comes, if it does not pass, holds afterwards. -/
theorem Logs.kept {c : HandlerM Unit} (h : Logs I c fun _ => True) (hI₀ : I s₀.log) :
    Ensures (fun s => s.log = s₀.log) c (fun _ s => I s.log ∧ True) fun s => I s.log :=
  Ensures.pre h fun _ hs => hs ▸ hI₀

theorem ensures_handleNewview {exec : RData → HandlerM Unit}
    (hexec : ∀ rdata, Logs I (exec rdata) fun _ => True)
    (hpass : ¬ Passes cfg cr s₀ .newview msg → I s₀.log)
    (hstored : Passes cfg cr s₀ .newview msg → ∀ n log, s₀.log.storeOf .newview msg = some (n, log) → I log) :
    Ensures (fun s => s = s₀) (handleNewview cfg cr exec msg) (fun _ s => I s.log ∧ True)
      fun s => I s.log := by
  unfold handleNewview
  refine Ensures.get fun s hs => ?_
  subst hs
  refine Ensures.cond (fun hgate => ensures_amLeaderOf (fun hlead => ?_) fun hnot => ?_) fun hgate => ?_
  · refine ensures_storeOf .newview (hstored ⟨hgate, hlead⟩) fun n => ?_
    exact Logs.cond (fun _ => logs_prepare hI hexec) fun _ => Logs.ret trivial
  · exact (Logs.ret trivial).kept (hpass fun h => hnot h.2)
  · exact Ensures.ret fun s hs => ⟨hs ▸ hpass fun h => hgate h.1, trivial⟩

omit hI in
/-- A vote of the current view is stored by the leader, and one of a later view by every replica. -/
theorem ensures_vote (ph : Phase1) {gate current : Prop} [Decidable gate] (hcurrent : gate ↔ current)
    {lead : ℕ → HandlerM Unit} {backup : HandlerM Unit} (hlead : ∀ n, Logs I (lead n) fun _ => True)
    (hbackup : Logs I backup fun _ => True) (hpass : ¬ Stored cfg s₀ current msg → I s₀.log)
    (hstored : Stored cfg s₀ current msg → ∀ n log, s₀.log.storeOf ph msg = some (n, log) → I log) :
    Ensures (fun s => s = s₀)
      (if gate then do
        let leader ← amCurrentLeader cfg
        if leader then
          let n ← storeMsg fun log => log.storeOf ph msg
          lead n
        else backup
      else if msg.data.propv > s₀.view then do
        let _ ← storeMsg fun log => log.storeOf ph msg
      else pure ())
      (fun _ s => I s.log ∧ True) fun s => I s.log := by
  refine Ensures.cond (fun hgate => ?_) fun hgate => Ensures.cond (fun hlater => ?_) fun hlater => ?_
  all_goals rw [hcurrent] at hgate
  · refine ensures_amCurrentLeader (fun hleads => ?_) fun hnot => ?_
    · exact ensures_storeOf ph (hstored (Or.inl ⟨hgate, hleads⟩)) hlead
    · refine Logs.kept ?_ (hpass fun h => ?_)
      · exact Logs.cond (fun h => absurd h Bool.false_ne_true) fun _ => hbackup
      · rcases h with ⟨-, hleads⟩ | ⟨hother, -⟩
        · exact hnot hleads
        · exact hother hgate
  · refine (ensures_storeOf ph (hstored (Or.inr ⟨hgate, hlater⟩)) fun n => Logs.ret trivial).pre ?_
    exact fun _ hs => hs ▸ rfl
  · refine Ensures.ret fun s hs => ⟨hs ▸ hpass fun h => ?_, trivial⟩
    rcases h with ⟨hnow, -⟩ | ⟨-, hgt⟩
    · exact hgate hnow
    · exact hlater hgt

theorem ensures_handlePrepare {fuel : ℕ} (hpass : ¬ Passes cfg cr s₀ .prepare msg → I s₀.log)
    (hstored : Passes cfg cr s₀ .prepare msg → ∀ n log, s₀.log.storeOf .prepare msg = some (n, log) → I log) :
    Ensures (fun s => s = s₀) (handlePrepare cfg cr fuel msg) (fun _ s => I s.log ∧ True)
      fun s => I s.log := by
  unfold handlePrepare
  refine Ensures.get fun s hs => ?_
  subst hs
  refine ensures_vote .prepare Iff.rfl (fun n => ?_) ?_ hpass hstored
  · exact Logs.cond (fun _ => logs_initiatePrepare hI (logs_executeRData hI fuel)) fun _ => Logs.ret trivial
  · exact Logs.cond (fun _ => logs_respondToPrepareJust) fun _ => Logs.ret trivial

theorem ensures_handlePrecommit {fuel : ℕ} (hpass : ¬ Passes cfg cr s₀ .precommit msg → I s₀.log)
    (hstored : Passes cfg cr s₀ .precommit msg →
      ∀ n log, s₀.log.storeOf .precommit msg = some (n, log) → I log) :
    Ensures (fun s => s = s₀) (handlePrecommit cfg cr fuel msg) (fun _ s => I s.log ∧ True)
      fun s => I s.log := by
  unfold handlePrecommit
  refine Ensures.get fun s hs => ?_
  subst hs
  have hcurrent :
      (decide (msg.data.propv = s.view) && decide (msg.data.phase = Phase1.precommit.byte)) = true ↔
        msg.data.propv = s.view ∧ msg.data.phase = Phase1.precommit.byte := by
    rw [Bool.and_eq_true, decide_eq_true_eq, decide_eq_true_eq]
  refine ensures_vote .precommit hcurrent (fun n => ?_) ?_ hpass hstored
  · exact Logs.cond (fun _ => logs_initiatePrecommit hI (logs_executeRData hI fuel)) fun _ => Logs.ret trivial
  · exact Logs.cond (fun _ => logs_respondToPreCommitJust) fun _ => Logs.ret trivial

/-- A replica that does not lead the view of a commit stores it when its signatures verify. -/
theorem ensures_handleCommit {fuel : ℕ} (hpass : ¬ Passes cfg cr s₀ .commit msg → I s₀.log)
    (hstored : Passes cfg cr s₀ .commit msg → ∀ n log, s₀.log.storeOf .commit msg = some (n, log) → I log) :
    Ensures (fun s => s = s₀) (handleCommit cfg cr fuel msg) (fun _ s => I s.log ∧ True)
      fun s => I s.log := by
  unfold handleCommit
  refine Ensures.get fun s hs => ?_
  subst hs
  refine Ensures.cond (fun hgate => ?_) fun hgate => Ensures.cond (fun hlater => ?_) fun hlater => ?_
  all_goals rw [Bool.and_eq_true, decide_eq_true_eq, decide_eq_true_eq] at hgate
  · refine ensures_amCurrentLeader (fun hlead => ?_) fun hnot => ?_
    · refine ensures_storeOf .commit (hstored (Or.inl ⟨hgate.1, hgate.2, hlead⟩)) fun n => ?_
      exact Logs.cond (fun _ => logs_initiateCommit (logs_executeRData hI fuel)) fun _ => Logs.ret trivial
    · refine Logs.kept ?_ (hpass fun h => ?_)
      · refine Logs.cond (fun h => absurd h Bool.false_ne_true) fun _ => Logs.read fun verified _ => ?_
        exact Logs.cond (fun _ => logs_executeRData hI fuel _) fun _ => Logs.ret trivial
      · rcases h with ⟨-, -, hlead⟩ | ⟨hgt, -⟩
        · exact hnot hlead
        · exact absurd hgate.1 (Nat.ne_of_gt hgt)
  · refine ensures_amLeaderOf (fun hlead => ?_) fun hnot => ?_
    · refine ensures_storeOf .commit (hstored (Or.inr ⟨hlater, Or.inl hlead⟩)) fun n => ?_
      exact Logs.ret trivial
    · refine Ensures.cond (fun h => absurd h Bool.false_ne_true) fun _ => Ensures.read fun verified hread => ?_
      refine Ensures.cond (fun htrue => ?_) fun hfalse => ?_
      · refine ensures_storeOf .commit (hstored (Or.inr ⟨hlater, Or.inr (htrue ▸ hread)⟩)) fun n => ?_
        exact Logs.ret trivial
      · refine Logs.kept (Logs.ret trivial) (hpass fun h => ?_)
        rcases h with ⟨hview, -, -⟩ | ⟨-, hlead | htrue⟩
        · exact absurd hview (Nat.ne_of_gt hlater)
        · exact hnot hlead
        · exact hfalse (Option.some.inj (hread.symm.trans htrue))
  · refine Ensures.ret fun s hs => ⟨hs ▸ hpass fun h => ?_, trivial⟩
    rcases h with ⟨hview, hphase, -⟩ | ⟨hgt, -⟩
    · exact hgate ⟨hview, hphase⟩
    · exact hlater hgt

/-- **The handlers of new-views and votes.** -/
theorem ensures_peer {fuel : ℕ} {ph : Phase1} (hpass : ¬ Passes cfg cr s₀ ph msg → I s₀.log)
    (hstored : Passes cfg cr s₀ ph msg → ∀ n log, s₀.log.storeOf ph msg = some (n, log) → I log) :
    Ensures (fun s => s = s₀) (handle cfg cr fuel (.peer (voteMsg ph msg))) (fun _ s => I s.log ∧ True)
      fun s => I s.log := by
  cases ph with
  | newview => exact ensures_handleNewview hI (logs_executeRData hI fuel) hpass hstored
  | prepare => exact ensures_handlePrepare hI hpass hstored
  | precommit => exact ensures_handlePrecommit hI hpass hstored
  | commit => exact ensures_handleCommit hI hpass hstored

/-! ### Inputs -/

theorem logs_getStarted (fuel : ℕ) : Logs I (getStarted cfg cr fuel) fun _ => True := by
  unfold getStarted
  refine Logs.bind logs_getCurrentLeader fun leader _ => Logs.get fun s => ?_
  refine Logs.bind logs_getLeaderOf fun _ _ => Logs.bind logs_callTEEsign fun j hown => ?_
  refine Logs.bind logs_amCurrentLeader fun amLeader _ => Logs.cond (fun _ => ?_) fun _ => ?_
  · exact logs_handleNewview hI (logs_executeRData hI fuel) (hI.own _ _ hown)
  · exact logs_sendMsg

theorem logs_handleStart (fuel : ℕ) {cid : CID} :
    Logs I (handleStart cfg cr fuel cid) fun _ => True := by
  unfold handleStart
  refine Ensures.get fun s hs => Ensures.bind (Q := fun _ (s : State) => I s.log) ?_ fun _ => ?_
  · exact Ensures.of_run fun s' _ => ⟨_, _, rfl, hs⟩
  · exact Logs.cond (fun _ => Logs.ret trivial) fun _ => logs_getStarted hI fuel

omit hI in
theorem logs_handleTransaction {t : Transaction} : Logs I (handleTransaction t) fun _ => True := by
  refine Logs.of_same fun s => ⟨_, _, rfl, ?_, trivial⟩
  dsimp only
  split <;> rfl

theorem logs_startNewViewOnTimeout (fuel : ℕ) :
    Logs I (startNewViewOnTimeout cfg cr fuel) fun _ => True := by
  unfold startNewViewOnTimeout
  refine Logs.bind (Q := fun _ => True) (Logs.of_same fun s => ⟨_, _, rfl, ?_, trivial⟩)
    fun _ _ => logs_startNewView hI (logs_executeRData hI fuel) fuel
  split <;> rfl

/-- Each handler keeps what is kept when the message that comes is stored. -/
theorem ensures_handle (fuel : ℕ) {input : Input} (hs₀ : I s₀.log)
    (hlogged : ∀ ph msg, input = .peer (voteMsg ph msg) → Passes cfg cr s₀ ph msg → logged ph msg) :
    Ensures (fun s => s = s₀) (handle cfg cr fuel input) (fun _ s => I s.log ∧ True) fun s => I s.log := by
  have hkept : ∀ {c : HandlerM Unit}, Logs I c (fun _ => True) →
      Ensures (fun s => s = s₀) c (fun _ s => I s.log ∧ True) fun s => I s.log :=
    fun hc => Ensures.pre hc fun _ hs => hs ▸ hs₀
  have hvote : ∀ ph msg, input = .peer (voteMsg ph msg) →
      Ensures (fun s => s = s₀) (handle cfg cr fuel (.peer (voteMsg ph msg))) (fun _ s => I s.log ∧ True)
        fun s => I s.log := by
    intro ph msg hinput
    refine ensures_peer hI (fun _ => hs₀) fun hpasses n log hstore => ?_
    exact hI.grows s₀.log log (grows_of_storeOf (hlogged ph msg hinput hpasses) hstore) hs₀
  cases input with
  | peer msg =>
    cases msg with
    | newview msg => exact hvote .newview msg rfl
    | ldrprepare msg => exact hkept (logs_handleLdrPrepare hI)
    | prepare msg => exact hvote .prepare msg rfl
    | precommit msg => exact hvote .precommit msg rfl
    | commit msg => exact hvote .commit msg rfl
  | start cid => exact hkept (logs_handleStart hI fuel)
  | transaction t => exact hkept logs_handleTransaction
  | timeout => exact hkept (logs_startNewViewOnTimeout hI fuel)

variable {s s' : State} {fuel : ℕ}

omit hI in
/-- A reaction is what the handler does, unless the replica is stopped or the timer is not set. -/
theorem react_of_ensures {input : Input} (hs : s.stopped = true ∨ (input.isTimeout && !s.timer) = true →
      I s.log)
    (hhandle : Ensures (fun s' => s' = s) (handle cfg cr fuel input) (fun _ s => I s.log ∧ True)
      fun s => I s.log)
    (hreact : s.react cfg cr fuel input = some s') : I s'.log := by
  unfold State.react at hreact
  split at hreact
  · next hstop =>
    cases hreact
    exact hs (Or.inl hstop)
  split at hreact
  · next htimer =>
    cases hreact
    exact hs (Or.inr htimer)
  cases hrun : handle cfg cr fuel input s with
  | none =>
    rw [hrun] at hreact
    cases hreact
  | some r =>
    have hends := hhandle s r rfl hrun
    rw [hrun] at hreact
    obtain ⟨x, s''⟩ := r
    cases x with
    | ok a =>
      cases hreact
      exact hends.1
    | error e =>
      cases hreact
      split
      · exact hends
      · exact hends

/-- **Messages.**  What holds after a message is stored, or if it is not, holds after the reaction to it. -/
theorem react_peer {ph : Phase1} (hstop : s.stopped = true → I s.log)
    (hpass : ¬ Passes cfg cr s ph msg → I s.log)
    (hstored : Passes cfg cr s ph msg → ∀ n log, s.log.storeOf ph msg = some (n, log) → I log)
    (hreact : s.react cfg cr fuel (.peer (voteMsg ph msg)) = some s') : I s'.log := by
  refine react_of_ensures (fun h => ?_) (ensures_peer hI hpass hstored) hreact
  rcases h with h | h
  · exact hstop h
  · exact absurd h Bool.false_ne_true

/-- **Inputs.** -/
theorem react_kept {input : Input}
    (hlogged : ∀ ph msg, input = .peer (voteMsg ph msg) → Passes cfg cr s ph msg → logged ph msg)
    (hs : I s.log) (hreact : s.react cfg cr fuel input = some s') : I s'.log :=
  react_of_ensures (fun _ => hs) (ensures_handle hI fuel hs hlogged) hreact

end Functions

end Raftel.HotStuff
