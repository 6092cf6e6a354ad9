import Raftel.KVApp
import Raftel.Lib.Checked
import Raftel.Handler
import Raftel.Reads
import Raftel.TrustedFun

/-!
# The state of a HotStuff replica

The fields and the small functions of `Handler` and of `Log` that `BASIC_HOTSTUFF` uses.  Nothing here
counts the signatures of a message before they are looped over, so every function that reads them, or
the transactions of a block, is written with checked reads.

The executed data (`executed`) and the messages that are sent (`out`) are recorded in the state; no
function of the source reads them.
-/

namespace Raftel.HotStuff

/-! ### Messages -/

/-- `MsgNewView`, `MsgPrepare`, `MsgPreCommit` and `MsgCommit` have the fields of the votes of the
hybrid protocol. -/
abbrev MsgNewView := MsgVoteComb
abbrev MsgPrepare := MsgVoteComb
abbrev MsgPreCommit := MsgVoteComb
abbrev MsgCommit := MsgVoteComb

structure Proposal where
  just : Just
  block : Block
  deriving DecidableEq

structure MsgLdrPrepare where
  prop : Proposal
  signs : Signs
  deriving DecidableEq

inductive Msg
  | newview (msg : MsgNewView)
  | ldrprepare (msg : MsgLdrPrepare)
  | prepare (msg : MsgPrepare)
  | precommit (msg : MsgPreCommit)
  | commit (msg : MsgCommit)
  deriving DecidableEq

/-! ### The log -/

abbrev ProposalLog := ViewLog MsgLdrPrepare fun m => m.prop.just.rdata.propv

structure Log where
  newviews : VoteLog
  prepares : VoteLog
  precommits : VoteLog
  commits : VoteLog
  proposals : ProposalLog

namespace Log

def init : Log := ⟨.empty, .empty, .empty, .empty, .empty⟩

variable (log : Log)

def storeNv (msg : MsgNewView) : Option (ℕ × Log) := do
  let (n, l) ← Checked.store MsgVoteComb.signs log.newviews msg
  pure (n, { log with newviews := l })

def storePrep (msg : MsgPrepare) : Option (ℕ × Log) := do
  let (n, l) ← Checked.store MsgVoteComb.signs log.prepares msg
  pure (n, { log with prepares := l })

def storePc (msg : MsgPreCommit) : Option (ℕ × Log) := do
  let (n, l) ← Checked.store MsgVoteComb.signs log.precommits msg
  pure (n, { log with precommits := l })

def storeCom (msg : MsgCommit) : Option (ℕ × Log) := do
  let (n, l) ← Checked.store MsgVoteComb.signs log.commits msg
  pure (n, { log with commits := l })

def storeProp (msg : MsgLdrPrepare) : Option (ℕ × Log) := do
  let (n, l) ← Checked.store MsgLdrPrepare.signs log.proposals msg
  pure (n, { log with proposals := l })

def getNewView : View → ℕ → Option Signs := Checked.getSigns MsgVoteComb.signs log.newviews
def getPrepare : View → ℕ → Option Signs := Checked.getSigns MsgVoteComb.signs log.prepares
def getPrecommit : View → ℕ → Option Signs := Checked.getSigns MsgVoteComb.signs log.precommits
def getCommit : View → ℕ → Option Signs := Checked.getSigns MsgVoteComb.signs log.commits

/-- `findHighestNv`: of the new-views that justify the highest view, the last one. -/
def findHighestNv (view : View) : Just :=
  ((log.newviews.get view).foldl (fun (best : View × Just) msg =>
    if msg.data.justv ≥ best.1 then (msg.data.justv, ⟨true, msg.data, msg.signs⟩) else best)
    (0, Just.none)).2

/-- `firstPrepare`, `firstPrecommit` and `firstCommit`, on the log of their phase. -/
def first (votes : VoteLog) (view : View) : Just :=
  match votes.get view with
  | [] => Just.none
  | msg :: _ => ⟨true, msg.data, msg.signs⟩

def firstPrepare : View → Just := first log.prepares
def firstPrecommit : View → Just := first log.precommits
def firstCommit : View → Just := first log.commits

/-- `firstProposal`; without one, the source returns a message without signatures. -/
def firstProposal (view : View) : Option MsgLdrPrepare := (log.proposals.get view).head?

end Log

/-! ### The state -/

structure State where
  view : View
  skippedLeaders : List PID
  transactions : List Transaction
  blocks : StdMap View Block
  log : Log
  clients : StdMap CID Bool
  kvExecutor : KVAppExecutor
  repQueue : List (TID × CID × AppReply)
  started : Bool
  joined : Bool
  stopped : Bool
  timer : Bool
  tf : CombState
  executed : List RData
  out : List (Msg × List PID)

/-- The state that the constructor leaves. -/
def State.init : State where
  view := 0
  skippedLeaders := []
  transactions := []
  blocks := ∅
  log := .init
  clients := ∅
  kvExecutor := .init
  repQueue := []
  started := false
  joined := false
  stopped := false
  timer := false
  tf := funInit
  executed := []
  out := []

abbrev HandlerM := Lib.Checked HandlerError State

section Functions

variable {Key : Type} (cfg : HandlerConfig Key) (cr : Crypto Key)

/-! ### Leaders and messages -/

def getLeaderOf (v : View) : HandlerM PID := do
  let s ← get
  let (leader, skippedLeaders) := cfg.leaderOf s.skippedLeaders v
  set { s with skippedLeaders := skippedLeaders }
  pure leader

def getCurrentLeader : HandlerM PID := do
  let s ← get
  getLeaderOf cfg s.view

def amLeaderOf (v : View) : HandlerM Bool := do
  let leader ← getLeaderOf cfg v
  pure (cfg.myid = leader)

def amCurrentLeader : HandlerM Bool := do
  let leader ← getCurrentLeader cfg
  pure (cfg.myid = leader)

/-- `sendMsgNewView` .. `sendMsgCommit` -/
def sendMsg (msg : Msg) (recipients : List PID) : HandlerM Unit :=
  modify fun s => { s with out := s.out ++ [(msg, recipients)] }

/-- A call of a `store*` function of the log. -/
def storeMsg (store : Log → Option (ℕ × Log)) : HandlerM ℕ := do
  let s ← get
  let (n, log) ← liftM (store s.log)
  set { s with log := log }
  pure n

/-! ### The trusted functions -/

def funVars : FunVars Key := ⟨cfg.myid, cfg.priv, cfg.qsize, cfg.nodes⟩

/-- `TEEverify`, and `verifyJust` of the handler. -/
def verifyJust (just : Just) : Option Bool :=
  Checked.verify cr.verifySign cfg.nodes just.signs (.rdata just.rdata)

def callTEEsign : HandlerM Just := do
  let s ← get
  let (just, tf) := funTEEsign cr (funVars cfg) s.tf
  set { s with tf := tf }
  pure just

/-- `callTEEprepare`: the justification is verified first. -/
def callTEEprepare (h : Hash) (j : Just) : HandlerM Just := do
  let _ ← verifyJust cfg cr j
  let s ← get
  let (just, tf) := funTEEprepare cr (funVars cfg) h j s.tf
  set { s with tf := tf }
  pure just

/-- `callTEEstore`: the justification is verified when it has `qsize` signatures. -/
def callTEEstore (j : Just) : HandlerM Just := do
  let _ ← liftM (Checked.checkIf (j.signs.size = cfg.qsize) (verifyJust cfg cr j))
  let s ← get
  let (just, tf) := funTEEstore cr (funVars cfg) j s.tf
  set { s with tf := tf }
  pure just

end Functions

end Raftel.HotStuff
