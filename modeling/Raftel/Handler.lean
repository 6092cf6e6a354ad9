import Raftel.Component
import Raftel.KVApp
import Raftel.Log

/-!
# The state of a replica

The fields of `Handler` that the hybrid protocol uses, its constructor and the small functions:
leaders, peers, the calls to the trusted component, the verification of messages.

A handler is a program over `HandlerState` that may end with an exception.  The component's calls and
the executed blocks are also recorded in the state (`calls`, `executed`), and the messages that are
sent (`out`); no function of the source reads these three.
-/

namespace Raftel

/-! ### Configuration -/

/-- The arguments of the constructor; `enclavePriv` and `enclavePub` are the keys compiled into the
enclave. -/
structure HandlerConfig (Key : Type) where
  myid : PID
  nodeType : Bool
  numFaults : ℕ
  totalTEE : ℕ
  maxViews : ℕ
  nodes : Nodes Key
  priv : Key
  enclavePriv : Key
  enclavePub : Key
  fixedLeaderMode : Bool
  fixedLeader : PID

namespace HandlerConfig

variable {Key : Type} (cfg : HandlerConfig Key)

/-- The number of replicas, for `constFactor` 3. -/
def total : ℕ := 3 * cfg.numFaults + 1

def qsize : ℕ := cfg.total - cfg.numFaults

def tqsize : ℕ := max (cfg.totalTEE / 2 + 1) (cfg.numFaults + 1)

/-- The configured TEE nodes can form a quorum. -/
def fastQC : Bool := cfg.totalTEE ≥ cfg.tqsize

/-- The other replicas that are known, in order. -/
def peers : List PID :=
  (List.range cfg.total).filter fun j => j ≠ cfg.myid && (cfg.nodes.lookup j).isSome

def isTEE (id : PID) : Bool := (cfg.nodes.lookup id).any (·.isTEE)

/-- `initializeSGX` passes the known nodes, the replica itself among them, to the enclave; a replica
without a TEE keeps a `TrustedComb`. -/
def component : Component Key :=
  if cfg.nodeType then
    .enclave (initializeVariables cfg.enclavePriv cfg.enclavePub cfg.myid cfg.nodes.keys
      cfg.qsize cfg.tqsize (cfg.nodes.keys.map fun j => ⟨j, cfg.isTEE j⟩))
  else
    .host ⟨cfg.myid, cfg.priv, cfg.qsize, cfg.tqsize, cfg.nodes⟩

/-- `remove_from_peers`: the TEE replicas first. -/
def removeFromPeers (id : PID) : List PID :=
  cfg.peers.filter (fun j => id ≠ j && cfg.isTEE j)
    ++ cfg.peers.filter (fun j => id ≠ j && !cfg.isTEE j)

/-- `remove_from_peers_pure` -/
def removeFromPeersPure (id : PID) : List PID := cfg.peers.filter fun j => id ≠ j

/-- `keep_from_peers` -/
def keepFromPeers (id : PID) : List PID := cfg.peers.filter fun j => id = j

/-- `getLeaderOf`, with the set of skipped leaders it leaves: the next replica from the nominal one
on that is not skipped.  When all are, the set is cleared. -/
def leaderOf (skippedLeaders : List PID) (v : View) : PID × List PID :=
  if cfg.fixedLeaderMode then (cfg.fixedLeader, skippedLeaders)
  else
    let start := v % cfg.total
    match ((List.range cfg.total).map fun k => (start + k) % cfg.total).find?
        fun cand => cand ∉ skippedLeaders with
    | some cand => (cand, skippedLeaders)
    | none => (start, [])

end HandlerConfig

/-- The cryptography of a replica: which signatures verify may depend on what its own component has
signed so far. -/
structure Oracle (Key : Type) where
  sha256 : Text → Digest
  signBuf : Key → SignedText → Vector UInt8 signLen
  verify : List CallRecord → Sign → Key → SignedText → Bool

def Oracle.crypto {Key : Type} (o : Oracle Key) (calls : List CallRecord) : Crypto Key :=
  ⟨o.sha256, o.signBuf, o.verify calls⟩

/-! ### State -/

/-- The peer messages of the hybrid protocol. -/
inductive Msg
  | newview (msg : MsgNewViewComb)
  | ldrprepare (msg : MsgLdrPrepareComb)
  | prepare (msg : MsgPrepareComb)
  | precommit (msg : MsgPreCommitComb)
  | commit (msg : MsgCommitComb)
  deriving DecidableEq

/-- A block that was executed: the certified data, the block, and the leader that the replica
assumed for its view. -/
structure Execution where
  data : RData
  block : Block
  leader : PID
  deriving DecidableEq

structure HandlerState where
  view : View
  phase : Phase1
  skippedLeaders : List PID
  processedNewViews : List View
  processedCommit : List View
  futurePrepareQCs : VoteLog
  futurePreCommitQCs : VoteLog
  futureCommitQCs : VoteLog
  transactions : List Transaction
  blocks : StdMap View Block
  log : Log
  clients : StdMap CID Bool
  kvExecutor : KVAppExecutor
  repQueue : List (TID × CID × AppReply)
  started : Bool
  joined : Bool
  stopped : Bool
  timer : Bool
  tc : CombState
  calls : List CallRecord
  executed : List Execution
  out : List (Msg × List PID)

/-- The state that the constructor leaves.  View 0 belongs to the genesis block. -/
def HandlerState.init : HandlerState where
  view := 1
  phase := .newview
  skippedLeaders := []
  processedNewViews := []
  processedCommit := []
  futurePrepareQCs := .empty
  futurePreCommitQCs := .empty
  futureCommitQCs := .empty
  transactions := []
  blocks := ∅
  log := .init
  clients := ∅
  kvExecutor := .init
  repQueue := []
  started := false
  joined := false
  stopped := false
  timer := false
  tc := .init
  calls := []
  executed := []
  out := []

/-- How a handler can fail: `std::stoi` raises `std::out_of_range`; to join the thread of the clients once
more raises `std::system_error`; the recursion or the loop goes on beyond the given bound. -/
inductive HandlerError
  | outOfRange
  | systemError
  | outOfFuel
  deriving DecidableEq

/-- Whether the replica does nothing more: a handler that goes on beyond the bound is taken not to end, and
nobody catches the exceptions of the timer.  Those of the handlers of messages are caught by `reg_handler`,
which only ends the connection. -/
def HandlerError.ends (e : HandlerError) (timeout : Bool) : Bool := e == .outOfFuel || timeout

abbrev HandlerM := EStateM HandlerError HandlerState

/-- `std::set<View>::insert` -/
def viewInsert (v : View) (l : List View) : List View := if v ∈ l then l else v :: l

section Functions

variable {Key : Type} (cfg : HandlerConfig Key) (o : Oracle Key)

/-! ### Leaders -/

def getLeaderOf (v : View) : HandlerM PID := do
  let s ← get
  let (leader, skippedLeaders) := cfg.leaderOf s.skippedLeaders v
  set { s with skippedLeaders := skippedLeaders }
  pure leader

def getCurrentLeader : HandlerM PID := do
  let s ← get
  getLeaderOf cfg s.view

def amLeaderOf (v : View) : HandlerM Bool := do
  let leader ← getLeaderOf cfg v
  pure (cfg.myid = leader)

def amCurrentLeader : HandlerM Bool := do
  let leader ← getCurrentLeader cfg
  pure (cfg.myid = leader)

/-! ### Messages -/

/-- `sendMsgNewViewComb` .. `sendMsgCommitComb` -/
def sendMsg (msg : Msg) (recipients : List PID) : HandlerM Unit :=
  modify fun s => { s with out := s.out ++ [(msg, recipients)] }

/-! ### The trusted component -/

/-- The state after a call of the component, and its reply. -/
def HandlerState.called (s : HandlerState) (c : Call) : Reply × HandlerState :=
  let (reply, tc) := cfg.component.call (o.crypto s.calls) s.tc c
  (reply, { s with
    tc := tc
    calls := s.calls ++ [⟨s.tc, c, reply, tc, s.blocks.lookup s.tc.view⟩] })

def callTEE (c : Call) : HandlerM Reply := do
  let s ← get
  let (reply, s') := s.called cfg o c
  set s'
  pure reply

def Reply.toJust : Reply → Just
  | just j => j
  | accum _ => Just.none

def Reply.toAccum : Reply → Accum
  | just _ => Accum.none
  | accum a => a

def callTEEsignComb : HandlerM Just := Reply.toJust <$> callTEE cfg o .sign

def callTEEprepareComb (block : Block) (acc : Accum) (proof : NewViewProofComb) : HandlerM Just :=
  Reply.toJust <$> callTEE cfg o (.prepare block acc (setNewViews proof))

def callTEEstoreComb (just : Just) : HandlerM Just := Reply.toJust <$> callTEE cfg o (.store just)

def callTEEaccumComb (justs : Vector Just maxNumSignatures) : HandlerM Accum :=
  Reply.toAccum <$> callTEE cfg o (.accum justs)

def callTEEaccumCombSp (just : Just) : HandlerM Accum :=
  Reply.toAccum <$> callTEE cfg o (.accumSp just)

/-! ### Verification -/

/-- `verifyCombSigns`: exactly `expectedSize` signatures of different known nodes. -/
def verifyCombSigns (cr : Crypto Key) (data : RData) (signs : Signs) (expectedSize : ℕ)
    (teeOnly : Bool) : Bool :=
  if expectedSize = 0 ∨ expectedSize > maxNumSignatures ∨ signs.size ≠ expectedSize then false
  else
    match hostSignersFrom cfg.nodes signs.entries [] true with
    | none => false
    | some allTEE =>
      if teeOnly && !allTEE then false else signs.verify cr.verifySign cfg.nodes (.rdata data)

/-- `verifyCombQC`: `tqsize` TEE nodes or `qsize` nodes. -/
def verifyCombQC (cr : Crypto Key) (data : RData) (signs : Signs) (expectedPhase : Phase1) : Bool :=
  data.phase = expectedPhase.byte
    && ((signs.size = cfg.tqsize && verifyCombSigns cfg cr data signs cfg.tqsize true)
      || (signs.size = cfg.qsize && verifyCombSigns cfg cr data signs cfg.qsize false))

def verifyCombVote (cr : Crypto Key) (data : RData) (signs : Signs) (expectedPhase : Phase1) :
    Bool :=
  data.phase = expectedPhase.byte && verifyCombSigns cfg cr data signs 1 false

def verifyNewViewComb (cr : Crypto Key) (msg : MsgNewViewComb) : Bool :=
  msg.data.phase = Phase1.newview.byte
    && verifyCombSigns cfg cr msg.data (Signs.one msg.sign) 1 false

/-- `verifyLdrPrepareComb`: the leader of the accumulator's view signed both the accumulator and
`prepare` data for the block. -/
def verifyLdrPrepareComb (msg : MsgLdrPrepareComb) : HandlerM Bool := do
  let acc := msg.acc
  let rdataLdrPrep : RData :=
    ⟨msg.block.hash o.sha256, acc.view, acc.hash, acc.prepv, Phase1.prepare.byte⟩
  let leader ← getLeaderOf cfg acc.view
  let s ← get
  let verifySign := o.verify s.calls
  pure (acc.set && msg.sign.set && msg.sign.signer = leader && acc.sign.signer = leader
    && (Signs.one acc.sign).verify verifySign cfg.nodes (.accum acc.toAccumData)
    && (Signs.one msg.sign).verify verifySign cfg.nodes (.rdata rdataLdrPrep))

end Functions

end Raftel
