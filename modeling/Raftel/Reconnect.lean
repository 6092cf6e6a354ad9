import Raftel.Salticidae

/-!
# Reconnection

When a connection between two peers has ended, `PeerNetwork` makes a new one.  Each side begins it with a
handshake, `ping` or `pong`, and `finish_handshake` writes a heartbeat and then everything that was left
in the send buffer of the old connection.  The other side reads it with a new receiver, whose queue is the
same: the network has one for all connections.
-/

namespace Raftel.Salticidae

/-! ### The messages of the handshake -/

structure NetAddr where
  ip : ℕ
  port : ℕ

/-- The port is a `uint16_t`. -/
def NetAddr.serialize (addr : NetAddr) : Text :=
  stream.putWord addr.ip ++ [UInt8.ofNat addr.port, UInt8.ofNat (addr.port / 2 ^ 8)]

def opcodePing : UInt8 := 0xf0

def opcodePong : UInt8 := 0xf1

/-- `MsgPing()` -/
def heartbeat : Text := stream.putByte 0

/-- `MsgPing(claimed_addr, nonce)`, and `MsgPong` -/
def handshake (claimedAddr : NetAddr) (nonce : ℕ) : Text :=
  stream.putByte 1 ++ (claimedAddr.serialize ++ stream.putWord nonce)

/-- Which side has made the connection. -/
inductive ConnMode
  | active
  | passive
  deriving DecidableEq

def ConnMode.opcode : ConnMode → UInt8
  | active => opcodePing
  | passive => opcodePong

/-- A message of the network itself, which the handlers of the application do not get. -/
def MsgBase.isPing (msg : MsgBase) : Bool := msg.opcode = opcodePing || msg.opcode = opcodePong

section Functions

variable (cfg : Config)

/-- What is written first: `on_dispatcher_setup` or `ping_handler`, then `send_ping`. -/
def hello (mode : ConnMode) (listenAddr : NetAddr) (nonce : ℕ) : List MsgBase :=
  [.ofPayload cfg mode.opcode (handshake listenAddr nonce), .ofPayload cfg opcodePing heartbeat]

/-! ### The connections between two peers -/

/-- The messages of which something is still in the send buffer. -/
def Sender.unsent (s : Sender) : List MsgBase := s.written.drop (s.written.length - s.sendBuffer.length)

/-- One direction between two peers: the connection in use, and the messages that were handed over on the
earlier ones. -/
structure Link where
  past : List MsgBase
  channel : Channel

def Link.init : Link := ⟨[], .init⟩

/-- `finish_handshake`: the segments of the old buffer are written to the new connection.  The message
that has waited for the queue is lost. -/
def Link.finishHandshake (l : Link) (mode : ConnMode) (listenAddr : NetAddr) (nonce : ℕ) : Link where
  past := l.past ++ (l.channel.receiver.handled ++ l.channel.receiver.incoming)
  channel :=
    { sender :=
        { sendBuffer := (hello cfg mode listenAddr nonce).map MsgBase.serialize ++
            l.channel.sender.sendBuffer
          terminating := false
          terminated := false
          written := hello cfg mode listenAddr nonce ++ l.channel.sender.unsent }
      receiver := .init }

inductive LinkEvent
  | connection (e : Event)
  | reconnect (mode : ConnMode) (listenAddr : NetAddr) (nonce : ℕ)

def Link.step (l : Link) : LinkEvent → Link
  | .connection e => { l with channel := l.channel.step cfg e }
  | .reconnect mode listenAddr nonce => l.finishHandshake cfg mode listenAddr nonce

def Link.run (events : List LinkEvent) : Link := events.foldl (Link.step cfg) .init

end Functions

end Raftel.Salticidae
