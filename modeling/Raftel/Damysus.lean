import Raftel.Enclave.Families
import Raftel.Handler.Comb

/-!
# The state of a Damysus replica

`BASIC_DAMYSUS` compiles the handlers of the hybrid protocol for `n = 2f+1` replicas, every one of them
with the enclave of `EnclaveDamysus.cpp`: views start at 0, and a proposal is sent without the new-views
behind it.  The log, the messages that remain and the verification functions are the hybrid ones.
-/

namespace Raftel.Damysus

/-! ### Configuration -/

section Config

variable {Key : Type} (cfg : HandlerConfig Key)

/-- The number of replicas, for `constFactor` 2. -/
def total : ℕ := 2 * cfg.numFaults + 1

def qsize : ℕ := total cfg - cfg.numFaults

/-- The other replicas that are known, in order. -/
def peers : List PID :=
  (List.range (total cfg)).filter fun j => j ≠ cfg.myid && (cfg.nodes.lookup j).isSome

/-- What `initializeSGX` passes to the enclave, which every replica has. -/
def enclave : EnclaveVars Key :=
  initializeVariables cfg.enclavePriv cfg.enclavePub cfg.myid cfg.nodes.keys (qsize cfg) cfg.tqsize
    (cfg.nodes.keys.map fun j => ⟨j, cfg.isTEE j⟩)

/-- `remove_from_peers`: the TEE replicas first. -/
def removeFromPeers (id : PID) : List PID :=
  (peers cfg).filter (fun j => id ≠ j && cfg.isTEE j)
    ++ (peers cfg).filter (fun j => id ≠ j && !cfg.isTEE j)

/-- `remove_from_peers_pure` -/
def removeFromPeersPure (id : PID) : List PID := (peers cfg).filter fun j => id ≠ j

/-- `keep_from_peers` -/
def keepFromPeers (id : PID) : List PID := (peers cfg).filter fun j => id = j

/-- `getLeaderOf`, with the set of skipped leaders it leaves. -/
def leaderOf (skippedLeaders : List PID) (v : View) : PID × List PID :=
  if cfg.fixedLeaderMode then (cfg.fixedLeader, skippedLeaders)
  else
    let start := v % total cfg
    match ((List.range (total cfg)).map fun k => (start + k) % total cfg).find?
        fun cand => cand ∉ skippedLeaders with
    | some cand => (cand, skippedLeaders)
    | none => (start, [])

end Config

/-! ### The enclave -/

/-- The `DAMYSUS_*` ecalls. -/
inductive Call
  | sign
  | prepare (hash : Hash) (acc : Accum)
  | store (just : Just)
  | accum (js : OneJusts)
  | accumSp (just : Just)

def call {Key : Type} (cr : Crypto Key) (vars : EnclaveVars Key) (st : PrepState) :
    Call → Reply × PrepState
  | .sign => (damysusTEEsign cr vars st).map .just id
  | .prepare hash acc => (damysusTEEprepare cr vars hash acc st).map .just id
  | .store just => (damysusTEEstore cr vars just st).map .just id
  | .accum js => (.accum (damysusTEEaccum cr vars js), st)
  | .accumSp just => (.accum (combTEEaccumSp cr vars just), st)

/-- The ecall of the whole interface. -/
def Call.ecall : Call → Ecall
  | sign => .damysusTEEsign
  | prepare hash acc => .damysusTEEprepare hash acc
  | store just => .damysusTEEstore just
  | accum js => .damysusTEEaccum js
  | accumSp just => .damysusTEEaccumSp just

/-- The calls are those of the interface, on their own variables. -/
theorem ecall_damysus {Key : Type} (cr : Crypto Key) (vars : EnclaveVars Key) (st : EnclaveState)
    (c : Call) :
    ecall cr vars st c.ecall =
      ((call cr vars st.damysus c).1, { st with damysus := (call cr vars st.damysus c).2 }) := by
  cases c <;> rfl

/-- A call to the enclave, with the states before and after it. -/
structure CallRecord where
  pre : PrepState
  call : Call
  reply : Reply
  post : PrepState

/-- What the enclave signed in this call. -/
def CallRecord.signed (r : CallRecord) : List SignedText := r.reply.signed

/-- The data that this call, if it was accepted, made the enclave sign. -/
def CallRecord.rdata? (r : CallRecord) : Option RData := r.reply.rdata?

/-- The cryptography of a replica: which signatures verify may depend on what its own enclave has
signed so far. -/
structure Oracle (Key : Type) where
  sha256 : Text → Digest
  signBuf : Key → SignedText → Vector UInt8 signLen
  verify : List CallRecord → Sign → Key → SignedText → Bool

def Oracle.crypto {Key : Type} (o : Oracle Key) (calls : List CallRecord) : Crypto Key :=
  ⟨o.sha256, o.signBuf, o.verify calls⟩

/-! ### State -/

structure MsgLdrPrepareDamysus where
  acc : Accum
  block : Block
  sign : Sign
  deriving DecidableEq

/-- What `handle_ldrprepare_damysus` passes on: the hybrid message, with an empty proof. -/
def MsgLdrPrepareDamysus.comb (msg : MsgLdrPrepareDamysus) : MsgLdrPrepareComb :=
  ⟨msg.acc, msg.block, .none, msg.sign⟩

/-- The peer messages; all but the proposals have the fields of the hybrid ones. -/
inductive Msg
  | newview (msg : MsgNewViewComb)
  | ldrprepare (msg : MsgLdrPrepareDamysus)
  | prepare (msg : MsgPrepareComb)
  | precommit (msg : MsgPreCommitComb)
  | commit (msg : MsgCommitComb)
  deriving DecidableEq

structure State where
  view : View
  phase : Phase1
  skippedLeaders : List PID
  processedNewViews : List View
  processedCommit : List View
  futurePrepareQCs : VoteLog
  futurePreCommitQCs : VoteLog
  futureCommitQCs : VoteLog
  transactions : List Transaction
  blocks : StdMap View Block
  log : Log
  clients : StdMap CID Bool
  kvExecutor : KVAppExecutor
  repQueue : List (TID × CID × AppReply)
  started : Bool
  joined : Bool
  stopped : Bool
  timer : Bool
  tee : PrepState
  calls : List CallRecord
  executed : List Execution
  out : List (Msg × List PID)

/-- The state that the constructor leaves. -/
def State.init : State where
  view := 0
  phase := .newview
  skippedLeaders := []
  processedNewViews := []
  processedCommit := []
  futurePrepareQCs := .empty
  futurePreCommitQCs := .empty
  futureCommitQCs := .empty
  transactions := []
  blocks := ∅
  log := .init
  clients := ∅
  kvExecutor := .init
  repQueue := []
  started := false
  joined := false
  stopped := false
  timer := false
  tee := ⟨newHash, 0, 0, .newview⟩
  calls := []
  executed := []
  out := []

/-- The enclave starts with the variables of `EnclaveDamysus.cpp`. -/
theorem State.init_tee (sha : Text → Digest) : State.init.tee = (EnclaveState.init sha).damysus := rfl

abbrev HandlerM := EStateM HandlerError State

section Functions

variable {Key : Type} (cfg : HandlerConfig Key) (o : Oracle Key)

/-! ### Leaders -/

def getLeaderOf (v : View) : HandlerM PID := do
  let s ← get
  let (leader, skippedLeaders) := leaderOf cfg s.skippedLeaders v
  set { s with skippedLeaders := skippedLeaders }
  pure leader

def getCurrentLeader : HandlerM PID := do
  let s ← get
  getLeaderOf cfg s.view

def amLeaderOf (v : View) : HandlerM Bool := do
  let leader ← getLeaderOf cfg v
  pure (cfg.myid = leader)

def amCurrentLeader : HandlerM Bool := do
  let leader ← getCurrentLeader cfg
  pure (cfg.myid = leader)

/-- `sendMsgNewViewComb` .. `sendMsgCommitComb`, as this build compiles them. -/
def sendMsg (msg : Msg) (recipients : List PID) : HandlerM Unit :=
  modify fun s => { s with out := s.out ++ [(msg, recipients)] }

/-! ### The trusted component -/

/-- The state after a call of the enclave, and its reply. -/
def State.called (s : State) (c : Call) : Reply × State :=
  let (reply, tee) := call (o.crypto s.calls) (enclave cfg) s.tee c
  (reply, { s with tee := tee, calls := s.calls ++ [⟨s.tee, c, reply, tee⟩] })

def callTEE (c : Call) : HandlerM Reply := do
  let s ← get
  let (reply, s') := s.called cfg o c
  set s'
  pure reply

def callTEEsignComb : HandlerM Just := Reply.toJust <$> callTEE cfg o .sign

/-- The proof is not given to the enclave. -/
def callTEEprepareComb (block : Block) (acc : Accum) (_proof : NewViewProofComb) : HandlerM Just :=
  Reply.toJust <$> callTEE cfg o (.prepare (block.hash o.sha256) acc)

def callTEEstoreComb (just : Just) : HandlerM Just := Reply.toJust <$> callTEE cfg o (.store just)

def callTEEaccumComb (justs : Vector Just maxNumSignatures) : HandlerM Accum :=
  Reply.toAccum <$> callTEE cfg o (.accum (justs.map setOneJust))

def callTEEaccumCombSp (just : Just) : HandlerM Accum :=
  Reply.toAccum <$> callTEE cfg o (.accumSp just)

/-! ### Verification -/

/-- `verifyCombQC`, with the quorum sizes of this build. -/
def verifyCombQC (cr : Crypto Key) (data : RData) (signs : Signs) (expectedPhase : Phase1) : Bool :=
  data.phase = expectedPhase.byte
    && ((signs.size = cfg.tqsize && verifyCombSigns cfg cr data signs cfg.tqsize true)
      || (signs.size = qsize cfg && verifyCombSigns cfg cr data signs (qsize cfg) false))

def verifyLdrPrepareComb (msg : MsgLdrPrepareComb) : HandlerM Bool := do
  let acc := msg.acc
  let rdataLdrPrep : RData :=
    ⟨msg.block.hash o.sha256, acc.view, acc.hash, acc.prepv, Phase1.prepare.byte⟩
  let leader ← getLeaderOf cfg acc.view
  let s ← get
  let verifySign := o.verify s.calls
  pure (acc.set && msg.sign.set && msg.sign.signer = leader && acc.sign.signer = leader
    && (Signs.one acc.sign).verify verifySign cfg.nodes (.accum acc.toAccumData)
    && (Signs.one msg.sign).verify verifySign cfg.nodes (.rdata rdataLdrPrep))

end Functions

end Raftel.Damysus
