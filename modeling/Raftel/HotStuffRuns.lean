import Raftel.Handler.HotStuff
import Raftel.Lib.Voting
import Raftel.Protocol

/-!
# Runs of a HotStuff system

A replica's `Event`s are the calls of its trusted functions and its executions.  `Explains` says that a
list of events, the last one first, leads from one state of the replica to another: the calls change the
trusted functions' state and the executions are recorded, in this order.

A `Run` has any number of replicas react to any inputs, in any order, and a history of all their events.
A Byzantine replica has no state: the inputs of the others are what it may have sent, and it signs what
it likes, so that the signature scheme is a parameter.
-/

namespace Raftel.HotStuff

/-! ### Events -/

inductive Event
  | sign
  | prepare (block : Block) (just : Just)
  | store (just : Just)
  /-- an execution on a commit certificate that the replica has verified -/
  | certified (just : Just)
  /-- an execution on commits of the log, which are not verified when they are put together -/
  | collected (rdata : RData)
  deriving DecidableEq

namespace Event

/-- The data that is executed. -/
def executed? : Event → Option RData
  | certified just => some just.rdata
  | collected rdata => some rdata
  | _ => none

/-- The justification whose signatures are verified. -/
def just? : Event → Option Just
  | prepare _ just => some just
  | store just => some just
  | certified just => some just
  | _ => none

/-- The block of a proposal. -/
def block? : Event → Option Block
  | prepare block _ => some block
  | _ => none

section Calls

variable {Key : Type} (cr : Crypto Key)

/-- The reply of the trusted functions and their state afterwards; an execution does not call them. -/
def call (vars : FunVars Key) : Event → CombState → Just × CombState
  | sign, st => funTEEsign cr vars st
  | prepare block just, st => funTEEprepare cr vars (block.hash cr.sha256) just st
  | store just, st => funTEEstore cr vars just st
  | certified _, st => (Just.none, st)
  | collected _, st => (Just.none, st)

/-- What the handlers have checked: a proposed block extends the one of its justification, signatures
that are counted are read in range, and a certificate that is executed is of the commit phase, has `qsize`
signatures and verifies. -/
def Made (cfg : HandlerConfig Key) : Event → Prop
  | prepare block just => block.prevHash.hash = just.rdata.justh.hash
  | store just => just.signs.size = cfg.qsize → (verifyJust cfg cr just).isSome
  | certified just => just.rdata.phase = Phase1.commit.byte ∧ just.signs.size = cfg.qsize ∧
      verifyJust cfg cr just = some true
  | _ => True

instance (cfg : HandlerConfig Key) : (e : Event) → Decidable (e.Made cr cfg)
  | sign => inferInstanceAs (Decidable True)
  | prepare _ _ => inferInstanceAs (Decidable (_ = _))
  | store _ => inferInstanceAs (Decidable (_ → _))
  | certified _ => inferInstanceAs (Decidable (_ ∧ _))
  | collected _ => inferInstanceAs (Decidable True)

end Calls

end Event

section Replica

variable {Key : Type} (cfg : HandlerConfig Key) (cr : Crypto Key)

/-- The state of the trusted functions after the events, the last one first. -/
def advance (st : CombState) (es : List Event) : CombState :=
  es.foldr (fun e st => (e.call cr (funVars cfg) st).2) st

/-- The events lead from `s` to `s'`. -/
structure Explains (s : State) (es : List Event) (s' : State) : Prop where
  tf : s'.tf = advance cfg cr s.tf es
  executed : s'.executed = s.executed ++ (es.filterMap Event.executed?).reverse
  made : ∀ e ∈ es, e.Made cr cfg

instance (s s' : State) (es : List Event) : Decidable (Explains cfg cr s es s') :=
  decidable_of_iff (s'.tf = advance cfg cr s.tf es ∧
      s'.executed = s.executed ++ (es.filterMap Event.executed?).reverse ∧
      ∀ e ∈ es, e.Made cr cfg)
    ⟨fun h => ⟨h.1, h.2.1, h.2.2⟩, fun h => ⟨h.tf, h.executed, h.made⟩⟩

/-- The states that a replica reaches by reacting to inputs, with its events. -/
inductive Reaches : List Event → State → Prop
  | init : Reaches [] .init
  | react {es es' : List Event} {s s' : State} {fuel : ℕ} {input : Input} (h : Reaches es s)
      (hstep : s.react cfg cr fuel input = some s') (hexplains : Explains cfg cr s es' s') :
      Reaches (es' ++ es) s'

end Replica

/-! ### The system -/

/-- The events of all correct replicas, the last one first. -/
abbrev History := List (PID × Event)

/-- The events of replica `p`. -/
def History.eventsOf (history : History) (p : PID) : List Event :=
  history.filterMap fun x => if x.1 = p then some x.2 else none

section System

variable (sys : System) (cr : Crypto Unit)

structure Run where
  history : History
  state : PID → State
  correct : ∀ x ∈ history, sys.Correct x.1
  reaches : ∀ p, sys.Correct p → Reaches (sys.config p) cr (history.eventsOf p) (state p)

/-- The state of the trusted functions of replica `p`. -/
def History.tf (history : History) (p : PID) : CombState :=
  advance (sys.config p) cr funInit (history.eventsOf p)

/-- The reply to an event, after the history. -/
def History.reply (history : History) (x : PID × Event) : Just :=
  (x.2.call cr (funVars (sys.config x.1)) (history.tf sys cr x.1)).1

/-- The data that the correct replicas have signed, each with its signer. -/
def History.signed : History → List (PID × RData)
  | [] => []
  | x :: history =>
    let reply := History.reply sys cr history x
    if reply.set then (x.1, reply.rdata) :: signed history else signed history

/-- The data is signed by a quorum, as far as the correct replicas go. -/
def History.SignedByQuorum (history : History) (rd : RData) : Prop :=
  sys.qsize ≤
    ((Finset.range sys.n).filter fun p => sys.Correct p → (p, rd) ∈ history.signed sys cr).card

instance (history : History) (rd : RData) : Decidable (history.SignedByQuorum sys cr rd) :=
  inferInstanceAs (Decidable (_ ≤ _))

/-- **Ideal signatures.**  A signature of a correct replica verifies only for what it has signed before. -/
def Unforgeable : History → Prop :=
  Lib.AtEach fun history x => ∀ just ∈ x.2.just?, ∀ s ∈ just.signs.entries,
    cr.verifySign s () (.rdata just.rdata) = true → sys.Correct s.signer →
      (s.signer, just.rdata) ∈ History.signed sys cr history

instance (history : History) : Decidable (Unforgeable sys cr history) :=
  inferInstanceAs (Decidable (Lib.AtEach _ history))

/-- The blocks that correct replicas accepted. -/
def History.accepted : History → List Block
  | [] => []
  | x :: history =>
    (if (History.reply sys cr history x).set then x.2.block?.toList else []) ++ accepted history

/-! ### Runs that are given step by step -/

/-- An input of a replica, with the events of the reaction. -/
abbrev Step := PID × Input × List Event

def History.ofSteps (steps : List Step) : History :=
  steps.flatMap fun x => x.2.2.map fun e => (x.1, e)

/-- The state of replica `p` after the steps, the last one first, if the events explain the reactions. -/
def stateAfter (fuel : ℕ) : List Step → PID → Option State
  | [], _ => some .init
  | (q, input, es) :: steps, p =>
    if q = p then do
      let s ← stateAfter fuel steps p
      let s' ← s.react (sys.config p) cr fuel input
      if Explains (sys.config p) cr s es s' then some s' else none
    else stateAfter fuel steps p

end System

end Raftel.HotStuff
