import Raftel.Message
import Raftel.Enclave.Share

/-!
# The log of a replica

`Log.cpp`, the hybrid part: for each kind of message a map from views to sets of messages, new-views
and votes kept apart by whether their signer is a TEE node.  `store*` returns the number of messages
of that view, or 0 when the message is a duplicate; `get*` returns at most `n` messages or
signatures.

A `std::set` is a list sorted by the order of its elements.  A message is always filed under its own
view, which `ViewLog` keeps as a field.
-/

namespace Raftel

/-! ### Sets and maps of messages -/

/-- `std::set::insert`: an element that is equivalent to one of the set is not added. -/
def setInsert {α : Type} (lt : α → α → Bool) (x : α) : List α → List α
  | [] => [x]
  | y :: ys =>
    if lt x y then x :: y :: ys
    else if lt y x then y :: setInsert lt x ys
    else y :: ys

theorem mem_of_mem_setInsert {α : Type} {lt : α → α → Bool} {x y : α} {l : List α}
    (h : y ∈ setInsert lt x l) : y = x ∨ y ∈ l := by
  induction l with
  | nil => exact Or.inl (List.mem_singleton.mp h)
  | cons z zs ih =>
    unfold setInsert at h
    split at h
    · exact List.mem_cons.mp h
    · split at h
      · rcases List.mem_cons.mp h with rfl | h
        · exact Or.inr List.mem_cons_self
        · exact (ih h).imp_right (List.mem_cons_of_mem z)
      · exact Or.inr h

/-- `std::map<View,std::set<..>>`, every message under its own view. -/
structure ViewLog (α : Type) (viewOf : α → View) where
  map : StdMap View (List α)
  filed : ∀ v l, map.lookup v = some l → ∀ m ∈ l, viewOf m = v

namespace ViewLog

variable {α : Type} {viewOf : α → View}

def empty : ViewLog α viewOf := ⟨∅, fun v l h => by simp at h⟩

/-- The messages of a view, in order. -/
def get (log : ViewLog α viewOf) (v : View) : List α := (log.map.lookup v).getD []

theorem viewOf_of_mem_get {log : ViewLog α viewOf} {v : View} {m : α} (h : m ∈ log.get v) :
    viewOf m = v := by
  unfold get at h
  cases hl : log.map.lookup v with
  | none => simp [hl] at h
  | some l =>
    rw [hl] at h
    exact log.filed v l hl m h

/-- `log[v]=msgs` -/
def set (log : ViewLog α viewOf) (v : View) (l : List α) (h : ∀ m ∈ l, viewOf m = v) :
    ViewLog α viewOf where
  map := log.map.insert v l
  filed := by
    intro w k hk m hm
    by_cases hw : w = v
    · subst hw
      rw [AList.lookup_insert, Option.some.injEq] at hk
      exact h m (hk ▸ hm)
    · rw [AList.lookup_insert_ne hw] at hk
      exact log.filed w k hk m hm

/-- `log[v].insert(msg)` -/
def insert (lt : α → α → Bool) (log : ViewLog α viewOf) (msg : α) : ViewLog α viewOf :=
  log.set (viewOf msg) (setInsert lt msg (log.get (viewOf msg))) fun _ hm =>
    (mem_of_mem_setInsert hm).elim (fun h => h ▸ rfl) viewOf_of_mem_get

/-- `log.erase(v)` -/
def erase (log : ViewLog α viewOf) (v : View) : ViewLog α viewOf where
  map := log.map.erase v
  filed := by
    intro w k hk m hm
    by_cases hw : w = v
    · subst hw
      simp at hk
    · rw [AList.lookup_erase_ne hw] at hk
      exact log.filed w k hk m hm

/-- The `store*` functions: `isFrom` tells whether the signers of the message are already among
those of the view. -/
def store (lt : α → α → Bool) (isFrom : List α → α → Bool) (log : ViewLog α viewOf) (msg : α) :
    ℕ × ViewLog α viewOf :=
  match log.map.lookup (viewOf msg) with
  | some msgs =>
    if isFrom msgs msg then (0, log)
    else
      let log' := log.insert lt msg
      ((log'.get (viewOf msg)).length, log')
  | none => (1, log.insert lt msg)

end ViewLog

/-! ### Duplicates -/

/-- `msgNewViewCombFrom` -/
def msgNewViewCombFrom (msgs : List MsgNewViewComb) (msg : MsgNewViewComb) : Bool :=
  msgs.any fun m => m.sign.signer = msg.sign.signer

/-- `msgLdrPrepareCombFrom` -/
def msgLdrPrepareCombFrom (msgs : List MsgLdrPrepareComb) (msg : MsgLdrPrepareComb) : Bool :=
  msgs.any fun m => m.sign.signer = msg.sign.signer

/-- `Signs::getSigners` -/
def Signs.getSigners (ss : Signs) : List PID := (ss.entries.map Sign.signer).dedup

/-- The loop of `msgPrepareCombFrom`, `msgPreCommitCombFrom` and `msgCommitCombFrom` over the
stored signers: they are erased from the new ones, until none is left. -/
def signersFrom : List PID → List PID → Bool
  | _, [] => false
  | signers, k :: ks => (signers.erase k).isEmpty || signersFrom (signers.erase k) ks

/-- `msgPrepareCombFrom`, `msgPreCommitCombFrom` and `msgCommitCombFrom`: the same function for the
three types of votes. -/
def msgVoteCombFrom (msgs : List MsgVoteComb) (msg : MsgVoteComb) : Bool :=
  signersFrom msg.signs.getSigners (msgs.flatMap fun m => m.signs.getSigners)

/-! ### The log -/

abbrev NewViewLog := ViewLog MsgNewViewComb fun m => m.data.propv
abbrev VoteLog := ViewLog MsgVoteComb fun m => m.data.propv
abbrev LdrPrepareLog := ViewLog MsgLdrPrepareComb fun m => m.acc.view

/-- The signatures of the votes of a view, at most `n`. -/
def VoteLog.getSigns (log : VoteLog) (view : View) (n : ℕ) : Signs :=
  (log.get view).foldl (fun signs msg =>
    if signs.size < n then signs.addUpto msg.signs n else signs) .empty

/-- The signatures of TEE nodes first, then those of the others, at most `n`. -/
def VoteLog.merged (tee non : VoteLog) (view : View) (n : ℕ) : Signs :=
  let out := Signs.empty.addUpto (tee.getSigns view n) n
  if out.size < n then out.addUpto (non.getSigns view n) n else out

structure Log where
  newviewsComb : NewViewLog
  teeNewviewsComb : NewViewLog
  preparesComb : VoteLog
  teePreparesComb : VoteLog
  precommitsComb : VoteLog
  teePrecommitsComb : VoteLog
  commitsComb : VoteLog
  teeCommitsComb : VoteLog
  ldrpreparesComb : LdrPrepareLog

namespace Log

def init : Log := ⟨.empty, .empty, .empty, .empty, .empty, .empty, .empty, .empty, .empty⟩

def storeNvComb (log : Log) (msg : MsgNewViewComb) : ℕ × Log :=
  (log.newviewsComb.store MsgNewViewComb.lt msgNewViewCombFrom msg).map id
    fun l => { log with newviewsComb := l }

def storeTEENvComb (log : Log) (msg : MsgNewViewComb) : ℕ × Log :=
  (log.teeNewviewsComb.store MsgNewViewComb.lt msgNewViewCombFrom msg).map id
    fun l => { log with teeNewviewsComb := l }

def storePrepComb (log : Log) (msg : MsgPrepareComb) : ℕ × Log :=
  (log.preparesComb.store MsgVoteComb.lt msgVoteCombFrom msg).map id
    fun l => { log with preparesComb := l }

def storeTEEPrepComb (log : Log) (msg : MsgPrepareComb) : ℕ × Log :=
  (log.teePreparesComb.store MsgVoteComb.lt msgVoteCombFrom msg).map id
    fun l => { log with teePreparesComb := l }

def storePcComb (log : Log) (msg : MsgPreCommitComb) : ℕ × Log :=
  (log.precommitsComb.store MsgVoteComb.lt msgVoteCombFrom msg).map id
    fun l => { log with precommitsComb := l }

def storeTEEPcComb (log : Log) (msg : MsgPreCommitComb) : ℕ × Log :=
  (log.teePrecommitsComb.store MsgVoteComb.lt msgVoteCombFrom msg).map id
    fun l => { log with teePrecommitsComb := l }

def storeComComb (log : Log) (msg : MsgCommitComb) : ℕ × Log :=
  (log.commitsComb.store MsgVoteComb.lt msgVoteCombFrom msg).map id
    fun l => { log with commitsComb := l }

def storeTEEComComb (log : Log) (msg : MsgCommitComb) : ℕ × Log :=
  (log.teeCommitsComb.store MsgVoteComb.lt msgVoteCombFrom msg).map id
    fun l => { log with teeCommitsComb := l }

def storeLdrPrepComb (log : Log) (msg : MsgLdrPrepareComb) : ℕ × Log :=
  (log.ldrpreparesComb.store MsgLdrPrepareComb.lt msgLdrPrepareCombFrom msg).map id
    fun l => { log with ldrpreparesComb := l }

def getNewViewComb (log : Log) (view : View) (n : ℕ) : List MsgNewViewComb :=
  (log.newviewsComb.get view).take n

def getTEENewViewComb (log : Log) (view : View) (n : ℕ) : List MsgNewViewComb :=
  (log.teeNewviewsComb.get view).take n

def getPrepareComb (log : Log) : View → ℕ → Signs := log.preparesComb.getSigns
def getTEEPrepareComb (log : Log) : View → ℕ → Signs := log.teePreparesComb.getSigns
def getPrecommitComb (log : Log) : View → ℕ → Signs := log.precommitsComb.getSigns
def getTEEPrecommitComb (log : Log) : View → ℕ → Signs := log.teePrecommitsComb.getSigns
def getCommitComb (log : Log) : View → ℕ → Signs := log.commitsComb.getSigns
def getTEECommitComb (log : Log) : View → ℕ → Signs := log.teeCommitsComb.getSigns

def getPrepareCombMerged (log : Log) : View → ℕ → Signs :=
  VoteLog.merged log.teePreparesComb log.preparesComb

def getPrecommitCombMerged (log : Log) : View → ℕ → Signs :=
  VoteLog.merged log.teePrecommitsComb log.precommitsComb

def getCommitCombMerged (log : Log) : View → ℕ → Signs :=
  VoteLog.merged log.teeCommitsComb log.commitsComb

/-- `firstLdrPrepareComb`; without one, the source returns a message whose signature is not set. -/
def firstLdrPrepareComb (log : Log) (view : View) : Option MsgLdrPrepareComb :=
  (log.ldrpreparesComb.get view).head?

theorem view_of_firstLdrPrepareComb {log : Log} {view : View} {msg : MsgLdrPrepareComb}
    (h : log.firstLdrPrepareComb view = some msg) : msg.acc.view = view :=
  log.ldrpreparesComb.viewOf_of_mem_get (List.mem_of_head? h)

end Log

end Raftel
