import Raftel.Reply

/-!
# The client

`Client.cpp`: a client sends each of its transactions to all replicas, counts the replies to it and
records it as executed when `replyQuorum` replies have arrived.  The handler gets the connection on which
a reply arrives and does not look at it.

The clocks of the statistics are left out, and the values of `execTrans`, which are latencies.
-/

namespace Raftel

/-- `TransInfo`, without the time at which the transaction was sent. -/
structure TransInfo where
  numReplies : ℕ
  trans : Transaction

/-- The arguments of a client that its handler reads. -/
structure ClientConfig where
  numFaults : ℕ
  numInstances : ℕ

/-- `numFaults + 1`, on an `unsigned int`. -/
def ClientConfig.replyQuorum (cfg : ClientConfig) : ℕ := (cfg.numFaults + 1) % 2 ^ 32

/-- The state of a client: its current transactions, the transactions that it has recorded as executed,
and whether its event loop was told to stop. -/
structure ClientState where
  transactions : TID → Option TransInfo
  execTrans : List TID
  stopped : Bool

namespace ClientState

def init : ClientState := ⟨fun _ => none, [], false⟩

/-- `addNewTransaction` -/
def addNewTransaction (s : ClientState) (trans : Transaction) : ClientState :=
  { s with transactions := Function.update s.transactions trans.transid (some ⟨0, trans⟩) }

/-- `updTransaction`; the number of replies is an `unsigned int`. -/
def updTransaction (s : ClientState) (tid : TID) : ℕ × ClientState :=
  match s.transactions tid with
  | some info =>
    let numReplies := (info.numReplies + 1) % 2 ^ 32
    (numReplies, { s with
      transactions := Function.update s.transactions tid (some ⟨numReplies, info.trans⟩) })
  | none => (0, s)

/-- `executed` -/
def executed (s : ClientState) (tid : TID) : ClientState :=
  match s.transactions tid with
  | some _ => if tid ∈ s.execTrans then s else { s with execTrans := s.execTrans ++ [tid] }
  | none => s

/-- `handle_reply`; what it prints is left out. -/
def handleReply (cfg : ClientConfig) (s : ClientState) (msg : MsgReply) : ClientState :=
  if msg.tid ∈ s.execTrans then s
  else
    let (numReplies, s) := s.updTransaction msg.tid
    if numReplies = cfg.replyQuorum then
      let s := s.executed msg.tid
      { s with stopped := s.stopped || s.execTrans.length == cfg.numInstances }
    else s

end ClientState

/-- What happens at a client: its sending thread adds a transaction, or a reply arrives on the connection
to a replica. -/
inductive ClientEvent
  | send (t : Transaction)
  | reply (replica : PID) (msg : MsgReply)

def ClientState.step (cfg : ClientConfig) (s : ClientState) : ClientEvent → ClientState
  | .send t => s.addNewTransaction t
  | .reply _ msg => s.handleReply cfg msg

/-- The state of a client after a list of events. -/
def ClientState.run (cfg : ClientConfig) (events : List ClientEvent) : ClientState :=
  events.foldl (ClientState.step cfg) .init

end Raftel
