import Raftel.Handler.Damysus
import Mathlib.Data.Finset.Card

/-!
# The Damysus system

`n = 2f+1` replicas, each with an enclave.  A correct replica reacts to inputs of any content, in any
order, and any number of hosts may be Byzantine.  `tee` is the set of replicas that the table of nodes
lists as TEE nodes; the run script lists all of them.

Two assumptions are made.  Signatures are ideal.  And a Byzantine host calls its enclave by the `DAMYSUS_*`
ecalls only: `Enclave.edl` exports those of all protocols, which sign with one key and the same text of a
vote, so a host that calls `TEEprepare` as well gets a second vote for the same view and phase, and two
blocks can be executed in it.

As in the hybrid system, the network is the environment.
-/

namespace Raftel.Damysus

/-- A system, with what stays fixed during a run. -/
structure System where
  f : ℕ
  f_pos : 1 ≤ f
  tee : Finset PID
  tee_sub : tee ⊆ Finset.range (2 * f + 1)
  byz : Finset PID
  sha256 : Text → Digest
  maxViews : ℕ
  fixedLeaderMode : Bool
  fixedLeader : PID

namespace System

variable (sys : System)

/-- The number of replicas. -/
def n : ℕ := 2 * sys.f + 1

/-- The table of nodes that every replica is given. -/
def nodes : Nodes Unit :=
  (List.range sys.n).foldl (fun m j => m.insert j ⟨(), decide (j ∈ sys.tee)⟩) ∅

/-- The configuration of replica `p`. -/
def config (p : PID) : HandlerConfig Unit where
  myid := p
  nodeType := decide (p ∈ sys.tee)
  numFaults := sys.f
  totalTEE := sys.tee.card
  maxViews := sys.maxViews
  nodes := sys.nodes
  priv := ()
  enclavePriv := ()
  enclavePub := ()
  fixedLeaderMode := sys.fixedLeaderMode
  fixedLeader := sys.fixedLeader

/-- The host of `p` follows the protocol. -/
def Correct (p : PID) : Prop := p < sys.n ∧ p ∉ sys.byz

instance (p : PID) : Decidable (sys.Correct p) := inferInstanceAs (Decidable (_ ∧ _))

end System

structure SystemState where
  replica : PID → State

def SystemState.init : SystemState := ⟨fun _ => .init⟩

/-- The state with replica `p` changed. -/
def SystemState.update (st : SystemState) (p : PID) (s : State) : SystemState :=
  ⟨Function.update st.replica p s⟩

/-- What the enclave of a replica has signed. -/
def State.signed (s : State) : List SignedText := s.calls.flatMap CallRecord.signed

/-- Ideal signatures as replica `p` sees them: the others have signed what they had signed before the
step, and its own enclave what is recorded in its history. -/
def System.oracle (sys : System) (st : SystemState) (p : PID) : Oracle Unit where
  sha256 := sys.sha256
  signBuf _ _ := idealBytes
  verify calls s _ t :=
    t ∈ if s.signer = p then calls.flatMap CallRecord.signed else (st.replica s.signer).signed

/-! ### Steps -/

inductive Action
  | input (p : PID) (fuel : ℕ) (i : Input)
  | ecall (p : PID) (c : Call)

/-- One step; an action that its replica cannot take changes nothing.  The ecalls of a Byzantine host are
those of this protocol. -/
def System.step (sys : System) (st : SystemState) : Action → SystemState
  | .input p fuel i =>
    if sys.Correct p then
      st.update p ((st.replica p).react (sys.config p) (sys.oracle st p) fuel i)
    else st
  | .ecall p c =>
    if p < sys.n ∧ p ∈ sys.byz then
      st.update p ((st.replica p).called (sys.config p) (sys.oracle st p) c).2
    else st

/-- The state after a sequence of actions. -/
def System.run (sys : System) (acts : List Action) : SystemState := acts.foldl sys.step .init

/-- An accepted call does not wrap the view counter. -/
def CallRecord.NoWrap (r : CallRecord) : Prop :=
  r.rdata?.isSome → r.pre.phase = .precommit → r.pre.view + 1 < 2 ^ 32

instance (r : CallRecord) : Decidable r.NoWrap := inferInstanceAs (Decidable (_ → _ → _))

/-- No enclave has wrapped its view counter. -/
def SystemState.NoWrap (sys : System) (st : SystemState) : Prop :=
  ∀ p < sys.n, ∀ r ∈ (st.replica p).calls, r.NoWrap

instance (sys : System) (st : SystemState) : Decidable (st.NoWrap sys) :=
  inferInstanceAs (Decidable (∀ p < sys.n, _))

end Raftel.Damysus
