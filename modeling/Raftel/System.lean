import Raftel.Handler.Comb
import Mathlib.Data.Finset.Card

/-!
# The replicated system

`n = 3f+1` replicas, some of them TEE replicas, at most `f` with a Byzantine host.  A correct replica
reacts to inputs of any content, in any order (`Action.input`); a Byzantine host of a TEE replica can
only call its enclave (`Action.ecall`); a Byzantine host without a TEE owns its key and signs what it
likes (`Action.forge`).  Signatures are ideal: a signature of `p` on `t` verifies if and only if `p`
has signed `t`.

The network is the environment: since a replica may receive anything at any time, every order, delay,
loss and duplication of messages is among the runs.
-/

namespace Raftel

/-- A system, with what stays fixed during a run. -/
structure System where
  f : ℕ
  f_pos : 1 ≤ f
  tee : Finset PID
  tee_sub : tee ⊆ Finset.range (3 * f + 1)
  byz : Finset PID
  byz_sub : byz ⊆ Finset.range (3 * f + 1)
  byz_card : byz.card ≤ f
  sha256 : Text → Digest
  maxViews : ℕ
  fixedLeaderMode : Bool
  fixedLeader : PID

namespace System

variable (sys : System)

/-- The number of replicas. -/
def n : ℕ := 3 * sys.f + 1

/-- The table of nodes that every replica is given. -/
def nodes : Nodes Unit :=
  (List.range sys.n).foldl (fun m j => m.insert j ⟨(), decide (j ∈ sys.tee)⟩) ∅

/-- The configuration of replica `p`. -/
def config (p : PID) : HandlerConfig Unit where
  myid := p
  nodeType := decide (p ∈ sys.tee)
  numFaults := sys.f
  totalTEE := sys.tee.card
  maxViews := sys.maxViews
  nodes := sys.nodes
  priv := ()
  enclavePriv := ()
  enclavePub := ()
  fixedLeaderMode := sys.fixedLeaderMode
  fixedLeader := sys.fixedLeader

/-- The host of `p` follows the protocol. -/
def Correct (p : PID) : Prop := p < sys.n ∧ p ∉ sys.byz

/-- The trusted component of `p` follows the protocol: an enclave always does. -/
def Intact (p : PID) : Prop := p < sys.n ∧ (p ∈ sys.tee ∨ p ∉ sys.byz)

instance (p : PID) : Decidable (sys.Correct p) := inferInstanceAs (Decidable (_ ∧ _))
instance (p : PID) : Decidable (sys.Intact p) := inferInstanceAs (Decidable (_ ∧ _))

end System

/-! ### States -/

/-- A replica, with what its Byzantine host has signed with the replica's own key. -/
structure Replica where
  host : HandlerState
  forged : List SignedText

/-- What has been signed in the name of the replica. -/
def Replica.signed (r : Replica) : List SignedText :=
  r.host.calls.flatMap CallRecord.signed ++ r.forged

structure SystemState where
  replica : PID → Replica

def SystemState.init : SystemState := ⟨fun _ => ⟨.init, []⟩⟩

/-- The state with replica `p` changed. -/
def SystemState.update (st : SystemState) (p : PID) (r : Replica) : SystemState :=
  ⟨Function.update st.replica p r⟩

/-- Ideal signatures as replica `p` sees them: the others have signed what they had signed before
the step, and its own component what is recorded in its history. -/
def idealOracle (sha256 : Text → Digest) (p : PID) (forged : List SignedText)
    (others : PID → List SignedText) : Oracle Unit where
  sha256 := sha256
  signBuf _ _ := idealBytes
  verify calls s _ t :=
    t ∈ if s.signer = p then calls.flatMap CallRecord.signed ++ forged else others s.signer

def System.oracle (sys : System) (st : SystemState) (p : PID) : Oracle Unit :=
  idealOracle sys.sha256 p (st.replica p).forged fun q => (st.replica q).signed

/-! ### Steps -/

inductive Action
  | input (p : PID) (fuel : ℕ) (i : Input)
  | ecall (p : PID) (c : Call)
  | forge (p : PID) (t : SignedText)

/-- One step; an action that its replica cannot take changes nothing. -/
def System.step (sys : System) (st : SystemState) : Action → SystemState
  | .input p fuel i =>
    let r := st.replica p
    if sys.Correct p then
      st.update p { r with host := r.host.react (sys.config p) (sys.oracle st p) fuel i }
    else st
  | .ecall p c =>
    let r := st.replica p
    if p ∈ sys.byz ∧ p ∈ sys.tee then
      st.update p { r with host := (r.host.called (sys.config p) (sys.oracle st p) c).2 }
    else st
  | .forge p t =>
    let r := st.replica p
    if p ∈ sys.byz ∧ p ∉ sys.tee then st.update p { r with forged := r.forged ++ [t] }
    else st

/-- The state after a sequence of actions. -/
def System.run (sys : System) (acts : List Action) : SystemState := acts.foldl sys.step .init

end Raftel
