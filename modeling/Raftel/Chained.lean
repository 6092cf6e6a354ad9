import Raftel.Handler
import Raftel.Handler.ChComb

/-!
# The state of a chained replica

The fields and the small functions of `Handler` and of `Log` that `CHAINED_HYBRID_TEE` uses;
`CHAINED_ACHILLES` has other opcodes and another instance of the same enclave code.  As in the hybrid
protocol, a loop up to a `size` field is taken to end with its array.

Three lists are recorded in the state and read by no function of the source: the blocks that are stored
in `cblocks` (`stores`), the walks that look for blocks to execute (`walks`), and the blocks that are
executed (`executed`); besides them, the messages that are sent (`out`).
-/

namespace Raftel.Chained

/-! ### Messages -/

/-- `MsgNewViewChComb` has the fields and the order of the new-view of the hybrid protocol. -/
abbrev MsgNewViewChComb := MsgNewViewComb

structure MsgLdrPrepareChComb where
  block : CBlock
  sign : Sign
  deriving DecidableEq

/-- `operator<` -/
def MsgLdrPrepareChComb.lt (m m' : MsgLdrPrepareChComb) : Bool := m.sign.lt m'.sign

inductive Msg
  | newview (msg : MsgNewViewChComb)
  | ldrprepare (msg : MsgLdrPrepareChComb)
  | prepare (msg : MsgPrepareChComb)
  deriving DecidableEq

/-! ### The log -/

abbrev LdrPrepareLog := ViewLog MsgLdrPrepareChComb fun m => m.block.view

/-- `msgNewViewChCombFrom` -/
def msgNewViewChCombFrom (msgs : List MsgNewViewChComb) (signer : PID) : Bool :=
  msgs.any fun m => m.sign.signer = signer

/-- `msgLdrPrepareChCombFrom` -/
def msgLdrPrepareChCombFrom (msgs : List MsgLdrPrepareChComb) (signer : PID) : Bool :=
  msgs.any fun m => m.sign.signer = signer

structure Log where
  newviewsChComb : NewViewLog
  preparesChComb : PrepareChLog
  ldrpreparesChComb : LdrPrepareLog

namespace Log

def init : Log := ⟨.empty, .empty, .empty⟩

variable (log : Log)

def storeNvChComb (msg : MsgNewViewChComb) : ℕ × Log :=
  (log.newviewsChComb.store MsgNewViewComb.lt
    (fun msgs m => msgNewViewChCombFrom msgs m.sign.signer) msg).map id
    fun l => { log with newviewsChComb := l }

def storePrepChComb (msg : MsgPrepareChComb) : ℕ × Log :=
  (log.preparesChComb.storePrepChComb msg).map id fun l => { log with preparesChComb := l }

def storeLdrPrepChComb (msg : MsgLdrPrepareChComb) : ℕ × Log :=
  (log.ldrpreparesChComb.store MsgLdrPrepareChComb.lt
    (fun msgs m => msgLdrPrepareChCombFrom msgs m.sign.signer) msg).map id
    fun l => { log with ldrpreparesChComb := l }

def getNewViewChComb (view : View) (n : ℕ) : List MsgNewViewChComb :=
  (log.newviewsChComb.get view).take n

/-- `firstLdrPrepareChComb`; without one, the source returns a message whose signature is not set. -/
def firstLdrPrepareChComb (view : View) : Option MsgLdrPrepareChComb :=
  (log.ldrpreparesChComb.get view).head?

end Log

/-! ### Blocks -/

/-- A block that is executed, and the block whose certificate led to it. -/
structure Execution where
  block : CBlock
  child : CBlock

/-- Where a stored block comes from. -/
inductive Origin
  | genesis
  | own
  /-- a proposal that arrives in its view, with its signature -/
  | proposal (sign : Sign)
  /-- a proposal that came early and has been logged -/
  | earlier (sign : Sign)
  deriving DecidableEq

/-- A block that is stored under a view.  The other fields are what the replica has just before: the
leader it assumes for the view, the blocks that are stored, the variables of its component. -/
structure Store where
  view : View
  block : CBlock
  origin : Origin
  leader : PID
  cblocks : StdMap View CBlock
  tq : PrepState

/-- A view that the replica enters, and the number of blocks that it has stored before. -/
structure Entry where
  view : View
  stored : ℕ

/-- The start of a walk: the block whose certificate it follows, the blocks that are stored, and those
that have been executed. -/
structure Walk where
  block0 : CBlock
  cblocks : StdMap View CBlock
  executed : List Execution

/-! ### The state -/

structure State where
  view : View
  skippedLeaders : List PID
  transactions : List Transaction
  caprep : CA
  cblocks : StdMap View CBlock
  log : Log
  clients : StdMap CID Bool
  kvExecutor : KVAppExecutor
  repQueue : List (TID × CID × AppReply)
  started : Bool
  joined : Bool
  stopped : Bool
  timer : Bool
  tq : PrepState
  entered : List Entry
  stores : List Store
  walks : List Walk
  executed : List Execution
  out : List (Msg × List PID)

/-- The state that the constructor leaves. -/
def State.init (sha : Text → Digest) : State where
  view := 0
  skippedLeaders := []
  transactions := []
  caprep := .new
  cblocks := ∅
  log := .init
  clients := ∅
  kvExecutor := .init
  repQueue := []
  started := false
  joined := false
  stopped := false
  timer := false
  tq := (EnclaveState.init sha).chcomb
  entered := []
  stores := []
  walks := []
  executed := []
  out := []

abbrev HandlerM := EStateM HandlerError State

section Functions

variable {Key : Type} (cfg : HandlerConfig Key) (cr : Crypto Key)

/-! ### Leaders and messages -/

def getLeaderOf (v : View) : HandlerM PID := do
  let s ← get
  let (leader, skippedLeaders) := cfg.leaderOf s.skippedLeaders v
  set { s with skippedLeaders := skippedLeaders }
  pure leader

def amLeaderOf (v : View) : HandlerM Bool := do
  let leader ← getLeaderOf cfg v
  pure (cfg.myid = leader)

def amCurrentLeader : HandlerM Bool := do
  let s ← get
  amLeaderOf cfg s.view

/-- `sendMsgNewViewChComb` .. `sendMsgPrepareChComb` -/
def sendMsg (msg : Msg) (recipients : List PID) : HandlerM Unit :=
  modify fun s => { s with out := s.out ++ [(msg, recipients)] }

def storeNvChComb (msg : MsgNewViewChComb) : HandlerM ℕ := do
  let s ← get
  let (n, log) := s.log.storeNvChComb msg
  set { s with log := log }
  pure n

def storePrepChComb (msg : MsgPrepareChComb) : HandlerM ℕ := do
  let s ← get
  let (n, log) := s.log.storePrepChComb msg
  set { s with log := log }
  pure n

def storeLdrPrepChComb (msg : MsgLdrPrepareChComb) : HandlerM ℕ := do
  let s ← get
  let (n, log) := s.log.storeLdrPrepChComb msg
  set { s with log := log }
  pure n

/-- The replica enters a view, recorded. -/
def State.enter (s : State) (view : View) : State :=
  { s with view := view, entered := s.entered ++ [⟨view, s.stores.length⟩] }

/-- `this->view++` -/
def incrementView : HandlerM Unit := modify fun s => s.enter (nextView s.view)

def setTimer : HandlerM Unit := modify fun s => { s with timer := true }

/-! ### The trusted component -/

/-- What `initializeSGX` leaves in the enclave, for a replica of any type. -/
def enclaveVars : EnclaveVars Key :=
  initializeVariables cfg.enclavePriv cfg.enclavePub cfg.myid cfg.nodes.keys cfg.qsize cfg.tqsize
    (cfg.nodes.keys.map fun j => ⟨j, cfg.isTEE j⟩)

def callTEE (c : ChCombCall) : HandlerM Reply := do
  let s ← get
  let (reply, tq) := chCombCall cr (enclaveVars cfg) s.tq c
  set { s with tq := tq }
  pure reply

def callTEEsignChComb : HandlerM Just := Reply.toJust <$> callTEE cfg cr .sign

def callTEEprepareChComb (block : CBlock) (hash : Hash) : HandlerM Just :=
  Reply.toJust <$> callTEE cfg cr (.prepare block hash)

def callTEEaccumChComb (justs : Vector Just maxNumSignatures) : HandlerM Accum :=
  Reply.toAccum <$> callTEE cfg cr (.accum (justs.map setOneJust))

def callTEEaccumChCombSp (just : Just) : HandlerM Accum :=
  Reply.toAccum <$> callTEE cfg cr (.accumSp just)

/-- The check of `handleLdrPrepareChComb`: the signature that comes with a block verifies, whoever
signed. -/
def verifyLdrPrepareChComb (msg : MsgLdrPrepareChComb) : Bool :=
  let just := ldrPrepareChComb2just cr.sha256 msg.block msg.sign
  just.signs.verify cr.verifySign cfg.nodes (.rdata just.rdata)

/-! ### Stored and executed blocks -/

/-- `cblocks[view] = block`, recorded. -/
def State.storeBlock (s : State) (view : View) (origin : Origin) (block : CBlock) : State :=
  { s with
    cblocks := s.cblocks.insert view block
    stores := s.stores ++ [⟨view, block, origin, (cfg.leaderOf s.skippedLeaders view).1,
      s.cblocks, s.tq⟩] }

/-- The loop of `tryExecuteChComb` that collects `blocksToExec`: `block0` is the last block that was
collected, at first the parent of the block that is voted for.  It ends when a block is executed, or
missing, or the genesis block; there is no bound on its length. -/
def blocksToExec (cblocks : StdMap View CBlock) :
    ℕ → CBlock → List Execution → Option (List Execution)
  | 0, _, _ => none
  | fuel + 1, block0, toExec =>
    let view2 := ca2view block0.cert
    match cblocks.lookup view2 with
    | none => some []
    | some block2 =>
      if block2.executed then some toExec
      -- the hash of `block2` is compared with the one in the certificate of `block0`, but only to
      -- print a difference
      else if view2 = 0 then some (⟨block2, block0⟩ :: toExec)
      else blocksToExec cblocks fuel block2 (⟨block2, block0⟩ :: toExec)

/-- The state after one more block is executed. -/
def State.execute (s : State) (e : Execution) : State :=
  let replies := replyTransactions (fun cid => (s.clients.lookup cid).isSome) s.kvExecutor
    e.block.trans
  { s with
    cblocks := s.cblocks.insert e.block.view e.block.markExecuted
    executed := s.executed ++ [e]
    kvExecutor := replies.kv
    repQueue := s.repQueue ++ replies.queue }

/-- The state after the blocks that a walk from `block0` has collected are executed. -/
def State.walked (s : State) (block0 : CBlock) (toExec : List Execution) : State :=
  toExec.foldl State.execute { s with walks := s.walks ++ [⟨block0, s.cblocks, s.executed⟩] }

end Functions

end Raftel.Chained
