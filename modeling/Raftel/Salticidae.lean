import Raftel.Equiv.Wire

/-!
# Connections

The message layer of the vendored `salticidae` library, one direction of a connection: `MsgBase` frames a
payload (`msg.h`), `_send_data` and `_recv_data` move bytes between the buffers and the socket
(`conn.cpp`), and `MsgNetwork::on_read` cuts messages off the receive buffer (`network.h`).  Integers go
over the wire with their lowest byte first.

What the operating system and the other threads decide is given with each event: how many bytes a call of
`send` or `recv` moves, and whether the queue of incoming messages, which all connections share, has
room.
-/

namespace Raftel.Salticidae

/-! ### Messages -/

/-- `MsgBase<uint8_t>` -/
structure MsgBase where
  magic : ℕ
  opcode : UInt8
  length : ℕ
  checksum : ℕ
  payload : Text
  deriving DecidableEq

/-- `MsgBase::header_size` -/
def headerSize : ℕ := 4 + 1 + 4 + 4

/-- What is fixed for a connection: the configuration of the network, and SHA-1. -/
structure Config where
  msgMagic : ℕ
  maxMsgSize : ℕ
  maxRecvBuffSize : ℕ
  recvChunkSize : ℕ
  sha1 : Text → Vector UInt8 20

/-- The stream into which messages are written. -/
abbrev stream : DataStream := .littleEndian

/-- `get_checksum`: the first four bytes of the digest. -/
def Config.getChecksum (cfg : Config) (payload : Text) : ℕ :=
  ((stream.getWord.run (cfg.sha1 payload).toList).map Prod.fst).getD 0

/-- `MsgBase(msg, magic)`: `set_opcode`, `set_payload` and `set_checksum`. -/
def MsgBase.ofPayload (cfg : Config) (opcode : UInt8) (payload : Text) : MsgBase :=
  ⟨cfg.msgMagic % 2 ^ 32, opcode, payload.length % 2 ^ 32, cfg.getChecksum payload, payload⟩

def MsgBase.verifyChecksum (cfg : Config) (msg : MsgBase) : Bool :=
  msg.checksum = cfg.getChecksum msg.payload

/-- The bytes of the header. -/
def MsgBase.header (msg : MsgBase) : Text :=
  stream.putWord msg.magic ++ (stream.putByte msg.opcode ++
    (stream.putWord msg.length ++ stream.putWord msg.checksum))

def MsgBase.serialize (msg : MsgBase) : Text := msg.header ++ msg.payload

/-- `MsgBase(DataStream &&)`: the header is read; there is no payload yet. -/
def MsgBase.ofHeader : ByteReader MsgBase := do
  let magic ← stream.getWord
  let opcode ← stream.getByte
  let length ← stream.getWord
  let checksum ← stream.getWord
  pure ⟨magic, opcode, length, checksum, []⟩

/-- `set_payload` -/
def MsgBase.setPayload (msg : MsgBase) (payload : Text) : MsgBase :=
  { msg with payload := payload, length := payload.length % 2 ^ 32 }

/-! ### Buffers -/

/-- `SegBuffer`: segments, each without the bytes that have been taken off its front, and the number of
bytes. -/
structure SegBuffer where
  buffer : List Text
  size : ℕ
  size_eq : size = buffer.flatten.length

namespace SegBuffer

def empty : SegBuffer := ⟨[], 0, rfl⟩

/-- The bytes in the buffer. -/
def bytes (b : SegBuffer) : Text := b.buffer.flatten

/-- The number of segments. -/
def len (b : SegBuffer) : ℕ := b.buffer.length

def push (b : SegBuffer) (data : Text) : SegBuffer where
  buffer := b.buffer ++ [data]
  size := b.size + data.length
  size_eq := by simp [b.size_eq]

/-- The loop of `pop`: the bytes, and the segments that are left. -/
def popFrom : List Text → ℕ → Text × List Text
  | [], _ => ([], [])
  | seg :: segs, len =>
    if len = 0 then ([], seg :: segs)
    else
      let copyLen := min seg.length len
      if copyLen = seg.length then
        let (res, left) := popFrom segs (len - copyLen)
        (seg ++ res, left)
      else (seg.take copyLen, seg.drop copyLen :: segs)

/-- What is popped and what is left are the front and the rest of the bytes. -/
theorem popFrom_eq (segs : List Text) (len : ℕ) :
    (popFrom segs len).1 = segs.flatten.take len ∧
      (popFrom segs len).2.flatten = segs.flatten.drop len := by
  induction segs generalizing len with
  | nil => simp [popFrom]
  | cons seg segs ih =>
    unfold popFrom
    dsimp only
    by_cases hlen : len = 0
    · simp [hlen]
    · rw [if_neg hlen]
      by_cases hcopy : min seg.length len = seg.length
      · -- the segment is used up
        have hle : seg.length ≤ len := by omega
        rw [if_pos hcopy, hcopy, List.flatten_cons, List.take_append, List.drop_append,
          List.take_of_length_le hle, List.drop_eq_nil_of_le hle]
        exact ⟨congrArg (seg ++ ·) (ih _).1, (ih _).2⟩
      · have hlt : len < seg.length := by omega
        have hmin : min seg.length len = len := by omega
        rw [if_neg hcopy, hmin, List.flatten_cons, List.take_append_of_le_length (Nat.le_of_lt hlt),
          List.flatten_cons, List.drop_append_of_le_length (Nat.le_of_lt hlt)]
        exact ⟨rfl, rfl⟩

def pop (b : SegBuffer) (len : ℕ) : Text × SegBuffer :=
  let res := popFrom b.buffer len
  (res.1, ⟨res.2, b.size - res.1.length, by
    rw [(popFrom_eq b.buffer len).1, (popFrom_eq b.buffer len).2, b.size_eq, List.length_take,
      List.length_drop]
    omega⟩)

end SegBuffer

/-! ### The receiver -/

inductive MsgState
  | header
  | payload
  deriving DecidableEq

/-- The receiving side of a `Conn`, with the socket it reads and the queue it feeds.  `received` and
`handled` are a record, no function reads them: all bytes that came off the socket, and the messages that
the dispatcher has taken from the queue. -/
structure Receiver where
  /-- the bytes that `recv` can still return -/
  socket : Text
  received : Text
  recvBuffer : SegBuffer
  msg : MsgBase
  msgState : MsgState
  /-- the queue was full: `msg` waits, and the poll timer is set -/
  msgSleep : Bool
  /-- the buffer was full: the `READ` event is masked -/
  readyRecv : Bool
  /-- `worker_terminate` was called; what it has queued has yet to run -/
  terminating : Bool
  terminated : Bool
  incoming : List MsgBase
  handled : List MsgBase

def Receiver.init : Receiver where
  socket := []
  received := []
  recvBuffer := .empty
  msg := ⟨0, 255, 0, 0, []⟩
  msgState := .header
  msgSleep := false
  readyRecv := false
  terminating := false
  terminated := false
  incoming := []
  handled := []

section Functions

variable (cfg : Config)

/-- How `on_read` leaves its loop. -/
inductive ReadEnd
  | broke
  | slept
  | threw
  deriving DecidableEq

/-- The first half of the loop of `on_read`: a header, if one is due and has arrived.  One that announces
too long a message is off the buffer when the exception is thrown, and the next one is due. -/
def Receiver.readHeader (r : Receiver) : Option ReadEnd × Receiver :=
  match r.msgState with
  | .payload => (none, r)
  | .header =>
    if r.recvBuffer.size < headerSize then (some .broke, r)
    else
      let (bytes, buffer) := r.recvBuffer.pop headerSize
      match MsgBase.ofHeader.run bytes with
      | none => (some .threw, { r with recvBuffer := buffer })
      | some (msg, _) =>
        let r := { r with recvBuffer := buffer, msg := msg }
        if msg.length > cfg.maxMsgSize then (some .threw, r)
        else (none, { r with msgState := .payload })

/-- The second half: the payload, if it has arrived.  A message with a wrong checksum is dropped and ends
the loop; one for which the queue has no room waits in `msg`. -/
def Receiver.readPayload (accepts : List Bool) (r : Receiver) :
    Option ReadEnd × List Bool × Receiver :=
  if r.recvBuffer.size < r.msg.length then (some .broke, accepts, r)
  else
    let (bytes, buffer) := r.recvBuffer.pop r.msg.length
    let r := { r with recvBuffer := buffer, msg := r.msg.setPayload bytes, msgState := .header }
    if !r.msg.verifyChecksum cfg then (some .broke, accepts, r)
    else
      match accepts with
      | true :: accepts => (none, accepts, { r with incoming := r.incoming ++ [r.msg] })
      | _ => (some .slept, accepts.tail, { r with msgSleep := true })

/-- The loop of `on_read`; every round but the first takes a header off the buffer. -/
def Receiver.readLoop : ℕ → List Bool → Receiver → ReadEnd × List Bool × Receiver
  | 0, accepts, r => (.broke, accepts, r)
  | fuel + 1, accepts, r =>
    match r.readHeader cfg with
    | (some stop, r) => (stop, accepts, r)
    | (none, r) =>
      match r.readPayload cfg accepts with
      | (some stop, accepts, r) => (stop, accepts, r)
      | (none, accepts, r) => readLoop fuel accepts r

/-- `MsgNetwork::on_read`, and whether it throws; at the end it resumes reading from a socket that was
masked. -/
def Receiver.onReadWith (recvData : List Bool → Receiver → Bool × Receiver) (accepts : List Bool)
    (r : Receiver) : Bool × Receiver :=
  if r.msgSleep then (false, r)
  else
    match r.readLoop cfg (r.recvBuffer.size + 2) accepts with
    | (.threw, _, r) => (true, r)
    | (.slept, _, r) => (false, r)
    | (.broke, accepts, r) =>
      if r.readyRecv && r.recvBuffer.len < cfg.maxRecvBuffSize then recvData accepts r else (false, r)

/-- What a call of `recv` returns; the remote end may close, or the call may fail. -/
inductive RecvResult
  | bytes (n : ℕ)
  | wouldBlock
  | closed

inductive RecvEnd
  | full
  | drained
  | closed
  deriving DecidableEq

/-- The loop of `_recv_data`: it goes on as long as whole chunks come. -/
def Receiver.recvLoop : List RecvResult → Receiver → RecvEnd × Receiver
  | results, r =>
    if r.recvBuffer.len ≥ cfg.maxRecvBuffSize then (.full, r)
    else
      match results with
      | [] => (.drained, r)
      | .wouldBlock :: _ => (.drained, r)
      | .closed :: _ => (.closed, r)
      | .bytes n :: results =>
        let seg := r.socket.take (min n cfg.recvChunkSize)
        if seg = [] then (.drained, r)
        else
          let r := { r with
            socket := r.socket.drop seg.length
            received := r.received ++ seg
            recvBuffer := r.recvBuffer.push seg }
          if seg.length = cfg.recvChunkSize then recvLoop results r else (.drained, r)

/-- `_recv_data`, and whether it throws.  When it calls `on_read`, the socket is not masked. -/
def Receiver.recvData (results : List RecvResult) (accepts : List Bool) (r : Receiver) :
    Bool × Receiver :=
  match r.recvLoop cfg results with
  | (.full, r) => (false, { r with readyRecv := true })
  | (.closed, r) => (false, { r with terminating := true })
  | (.drained, r) => onReadWith cfg (fun _ r => (false, r)) accepts { r with readyRecv := false }

def Receiver.onRead (results : List RecvResult) (accepts : List Bool) (r : Receiver) : Bool × Receiver :=
  onReadWith cfg (recvData cfg results) accepts r

/-- The poll timer, which `on_worker_setup` makes: the message that waits is tried again. -/
def Receiver.enqueuePoll (results : List RecvResult) (accepts : List Bool) (r : Receiver) :
    Bool × Receiver :=
  match accepts with
  | true :: accepts => onRead cfg results accepts { r with
      incoming := r.incoming ++ [r.msg]
      msgSleep := false }
  | _ => (false, r)

/-- What can happen to a receiver.  `terminate` is a call of `worker_terminate` from elsewhere, and in
`teardown` what such a call has queued runs. -/
inductive RecvEvent
  | arrive (bytes : Text)
  | readable (results : List RecvResult) (accepts : List Bool)
  | poll (results : List RecvResult) (accepts : List Bool)
  | dispatch
  | terminate
  | teardown

/-- One event.  The socket is polled unless it is masked, the timer runs while a message waits, and after
the teardown there are no events but those of the dispatcher.  The callback of the socket catches what is
thrown and calls `worker_terminate`, so more may be read before the teardown; the callback of the timer
does not catch it, and the process ends. -/
def Receiver.step (r : Receiver) : RecvEvent → Receiver
  | .arrive bytes => { r with socket := r.socket ++ bytes }
  | .readable results accepts =>
    if r.terminated || r.readyRecv then r
    else
      let (threw, r) := r.recvData cfg results accepts
      { r with terminating := r.terminating || threw }
  | .poll results accepts =>
    if r.terminated || !r.msgSleep then r
    else
      let (threw, r) := r.enqueuePoll cfg results accepts
      { r with terminating := r.terminating || threw, terminated := r.terminated || threw }
  | .dispatch =>
    match r.incoming with
    | [] => r
    | msg :: incoming => { r with incoming := incoming, handled := r.handled ++ [msg] }
  | .terminate => { r with terminating := true }
  | .teardown => { r with terminated := r.terminated || r.terminating }

/-! ### The sender -/

/-- The sending side of a `Conn`; `written` is a record of the messages that `_send_msg` has put into the
buffer. -/
structure Sender where
  sendBuffer : List Text
  terminating : Bool
  terminated : Bool
  written : List MsgBase

def Sender.init : Sender := ⟨[], false, false, []⟩

/-- `_send_msg`; the buffer is not bounded, as `max_send_buff_size` is 0. -/
def Sender.sendMsg (s : Sender) (msg : MsgBase) : Sender :=
  { s with sendBuffer := s.sendBuffer ++ [msg.serialize], written := s.written ++ [msg] }

/-- What a call of `send` returns. -/
inductive SendResult
  | bytes (n : ℕ)
  | wouldBlock
  | failed

/-- The loop of `_send_data`: whether it fails, what is left in the buffer and what was sent.  What a call
did not take goes back to the front. -/
def sendLoop : List SendResult → List Text → Bool × List Text × Text
  | _, [] => (false, [], [])
  | results, seg :: segs =>
    if seg.length = 0 then (false, segs, [])
    else
      match results with
      | [] => (false, seg :: segs, [])
      | .wouldBlock :: _ => (false, seg :: segs, [])
      | .failed :: _ => (true, seg :: segs, [])
      | .bytes n :: results =>
        let ret := min n seg.length
        if ret = seg.length then
          let (failed, left, sent) := sendLoop results segs
          (failed, left, seg ++ sent)
        else (false, seg.drop ret :: segs, seg.take ret)

/-! ### A connection -/

structure Channel where
  sender : Sender
  receiver : Receiver

def Channel.init : Channel := ⟨.init, .init⟩

inductive Event
  | write (opcode : UInt8) (payload : Text)
  | sendable (results : List SendResult)
  | terminate
  | teardown
  /-- an event of the receiver; bytes arrive only from the sender -/
  | receive (e : RecvEvent)

/-- One event: what is sent arrives at the socket of the receiver. -/
def Channel.step (c : Channel) : Event → Channel
  | .write opcode payload => { c with sender := c.sender.sendMsg (.ofPayload cfg opcode payload) }
  | .sendable results =>
    if c.sender.terminated then c
    else
      let (failed, left, sent) := sendLoop results c.sender.sendBuffer
      ⟨{ c.sender with sendBuffer := left, terminating := c.sender.terminating || failed },
        c.receiver.step cfg (.arrive sent)⟩
  | .terminate => { c with sender := { c.sender with terminating := true } }
  | .teardown => { c with sender := { c.sender with
      terminated := c.sender.terminated || c.sender.terminating } }
  | .receive (.arrive _) => c
  | .receive e => { c with receiver := c.receiver.step cfg e }

def Receiver.run (events : List RecvEvent) : Receiver := events.foldl (Receiver.step cfg) .init

def Channel.run (events : List Event) : Channel := events.foldl (Channel.step cfg) .init

end Functions

end Raftel.Salticidae
