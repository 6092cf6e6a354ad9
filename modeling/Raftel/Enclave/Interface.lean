import Raftel.Enclave.Accum
import Raftel.Enclave.Free

/-!
# The whole interface of the enclave

Every public ecall of `Enclave.edl` with everything it can change: the variables of `EnclaveShare.cpp`,
which only `initialize_variables` writes, and the variables of the protocols.  The host may call any of
them at any time, `initialize_variables` again too.
-/

namespace Raftel

/-! ### The configuration -/

/-- The arguments of `initialize_variables`. -/
structure InitArgs where
  me : PID
  others : List PID
  q : ℕ
  tq : ℕ
  nodes : List NodeInfo

/-- `node_is_TEE` after `initialize_variables`. -/
def InitArgs.table (a : InitArgs) : StdMap PID Bool :=
  a.nodes.foldl (fun m nd => m.insert nd.pid nd.isTEE) ∅

variable {Key : Type}

/-- `initialize_variables` on the variables there are: `node_is_TEE` is cleared, `pubs` is not. -/
def EnclaveVars.initializeOver (privKey256 pubKey256 : Key) (vars : EnclaveVars Key) (a : InitArgs) :
    EnclaveVars Key where
  id := a.me
  priv := privKey256
  qsize := a.q
  tqsize := a.tq
  pubs := a.others.foldl (fun m j => m.insert j pubKey256) vars.pubs
  nodeIsTEE := a.table

/-- The variables before the first initialisation. -/
def EnclaveVars.zero (nullKey : Key) : EnclaveVars Key := ⟨0, nullKey, 0, 0, ∅, ∅⟩

/-! ### The calls -/

inductive PublicEcall
  | initializeVariables (a : InitArgs)
  | protocol (c : Ecall)
  | plainTEEaccum (vs : Votes) (uninit : Hash)
  | plainTEEaccumSp (vote : UVote)
  | achillesTEEverify (just : Just)
  | free (c : FreeEcall)
  | op (c : OPEcall)

inductive PublicReply
  | status
  | protocol (r : Reply)
  | bool (b : Bool)
  | free (r : FreeReply)
  | op (r : OPReply)

/-- The signatures that a reply carries. -/
def Reply.signatures : Reply → List Sign
  | just j => j.signs.entries
  | accum a => [a.sign]

/-- The signatures that a reply carries; authenticators are no signatures. -/
def PublicReply.signatures : PublicReply → List Sign
  | protocol r => r.signatures
  | _ => []

/-- A justification that is set was returned. -/
def PublicReply.accepted : PublicReply → Bool
  | protocol r => r.rdata?.isSome
  | _ => false

/-- What the enclave is built with: its keys, its cryptography and its secrets. -/
structure EnclaveImage (Key : Type) where
  privKey256 : Key
  pubKey256 : Key
  nullKey : Key
  crypto : Crypto Key
  verifyRaw : Sign → Key → Text → Bool
  freeSecret : Text
  opSecret : Text

/-- All variables of an enclave. -/
structure Enclave (Key : Type) where
  vars : EnclaveVars Key
  protocols : EnclaveState
  free : FreeState
  op : OPState

variable (image : EnclaveImage Key)

def Enclave.init : Enclave Key where
  vars := EnclaveVars.zero image.nullKey
  protocols := EnclaveState.init image.crypto.sha256
  free := FreeState.init
  op := OPState.init

def Enclave.call (e : Enclave Key) : PublicEcall → PublicReply × Enclave Key
  | .initializeVariables a =>
    (.status, { e with vars := e.vars.initializeOver image.privKey256 image.pubKey256 a })
  | .protocol c =>
    (ecall image.crypto e.vars e.protocols c).map .protocol fun p => { e with protocols := p }
  | .plainTEEaccum vs uninit =>
    (.protocol (.accum (plainTEEaccum image.crypto image.verifyRaw e.vars vs uninit)), e)
  | .plainTEEaccumSp vote =>
    (.protocol (.accum (plainTEEaccumSp image.crypto image.verifyRaw e.vars vote)), e)
  | .achillesTEEverify just => (.bool (e.vars.verifyJust image.crypto just), e)
  | .free c =>
    (e.free.call image.crypto.sha256 image.freeSecret c).map .free fun f => { e with free := f }
  | .op c => (e.op.call image.crypto.sha256 image.opSecret c).map .op fun o => { e with op := o }

/-- The enclave after a sequence of calls. -/
def Enclave.run (e : Enclave Key) (calls : List PublicEcall) : Enclave Key :=
  calls.foldl (fun e c => (e.call image c).2) e

end Raftel
