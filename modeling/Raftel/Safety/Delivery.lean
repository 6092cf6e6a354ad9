import Raftel.Equiv.Salticidae
import Raftel.Equiv.PeerNet
import Mathlib.Data.List.Induction

/-!
# What a connection delivers

A receiver splits the bytes of its peer into messages, and headers of messages that are too long, and hands
over the messages whose checksum is right, whatever the bytes are and however they arrive
(`receiver_hands_over`).  When the bytes come from a sender
of the library, the messages that were handed over are the first ones that were written, in their order,
and once everything has been read, all of them (`connection_delivers`); so the dispatcher gets the messages
of the protocol that were sent (`peer_messages_delivered`).

The receiver does not always get there.  The socket is masked when `max_recv_buff_size` segments are
buffered, and only a full message or the poll timer leads back to it: a message in more pieces is never
read (`long_message_stalls`).
-/

namespace Raftel.Salticidae

open Lib

/-! ### Frames and bytes -/

variable (cfg : Config)

/-- The state after any events: the invariant holds, and every byte is accounted for. -/
theorem inv_run (events : List RecvEvent) : (Receiver.run cfg events).Inv cfg ∧
    (Receiver.run cfg events).stream = events.flatMap RecvEvent.arrived := by
  induction events using List.reverseRecOn with
  | nil => exact ⟨inv_init, rfl⟩
  | append_singleton events e ih =>
    obtain ⟨hinv, hstream⟩ := inv_step ih.1 e
    unfold Receiver.run
    rw [List.foldl_append, List.flatMap_append, List.flatMap_singleton, ← ih.2]
    exact ⟨hinv, hstream⟩

/-- The defaults of the library, with a limit for the messages of `Server`. -/
def defaultConfig (sha1 : Text → Vector UInt8 20) : Config where
  msgMagic := 0
  maxMsgSize := 500000
  maxRecvBuffSize := 4096
  recvChunkSize := 4096
  sha1 := sha1

/-- The SHA-1 digest of `abc`. -/
def abcDigest : Vector UInt8 20 :=
  #v[0xa9, 0x99, 0x3e, 0x36, 0x47, 0x06, 0x81, 0x6a, 0xba, 0x3e, 0x25, 0x71, 0x78, 0x50, 0xc2, 0x6c, 0x9c,
    0xd0, 0xd8, 0x9d]

/-- A header announces a payload of a million bytes, and what follows it before the teardown is read as a
message. -/
example : (Receiver.run (defaultConfig fun _ => abcDigest)
    [.arrive (MsgBase.header ⟨0, 1, 1000000, 0, []⟩ ++
      (MsgBase.ofPayload (defaultConfig fun _ => abcDigest) 1 [97, 98, 99]).serialize),
      .readable [.bytes 13] [], .readable [.bytes 16] [true], .teardown]).handed =
    [.ofPayload (defaultConfig fun _ => abcDigest) 1 [97, 98, 99]] := by
  decide +kernel

/-! ### A sender of the library -/

theorem MsgBase.ofPayload_fits (opcode : UInt8) (payload : Text) :
    (MsgBase.ofPayload cfg opcode payload).Fits where
  magic := Nat.mod_lt _ (by decide)
  length := Nat.mod_lt _ (by decide)
  checksum := by
    -- it is read as a word
    show cfg.getChecksum payload < 2 ^ 32
    unfold Config.getChecksum
    rcases hrun : stream.getWord.run (cfg.sha1 payload).toList with _ | ⟨n, rest⟩
    · decide
    · show n < 2 ^ 32
      rcases hbytes : (cfg.sha1 payload).toList with _ | ⟨b₀, _ | ⟨b₁, _ | ⟨b₂, _ | ⟨b₃, bytes⟩⟩⟩⟩ <;>
        rw [hbytes] at hrun
      case cons.cons.cons.cons =>
        obtain ⟨hword, -⟩ := putWord_of_bytes b₀ b₁ b₂ b₃
        have hn : b₀.toNat + b₁.toNat * 2 ^ 8 + b₂.toNat * 2 ^ 16 + b₃.toNat * 2 ^ 24 = n :=
          congrArg Prod.fst (Option.some.inj hrun)
        rwa [← hn]
      all_goals cases hrun

/-- The messages that an event puts into the send buffer. -/
def Event.written : Event → List MsgBase
  | write opcode payload => [.ofPayload cfg opcode payload]
  | _ => []

/-- A message that the receiver can take. -/
structure MsgBase.Sendable (msg : MsgBase) : Prop where
  fits : msg.Fits
  length : msg.length = msg.payload.length
  small : msg.length ≤ cfg.maxMsgSize
  checksum : msg.verifyChecksum cfg = true

theorem MsgBase.ofPayload_sendable (opcode : UInt8) {payload : Text} (hword : payload.length < 2 ^ 32)
    (hsmall : payload.length ≤ cfg.maxMsgSize) :
    (MsgBase.ofPayload cfg opcode payload).Sendable cfg where
  fits := ofPayload_fits cfg opcode payload
  length := Nat.mod_eq_of_lt hword
  small := by
    show payload.length % 2 ^ 32 ≤ cfg.maxMsgSize
    rwa [Nat.mod_eq_of_lt hword]
  checksum := decide_eq_true rfl

/-- `_send_data` sends the beginning of what is in the buffer and keeps the rest. -/
theorem sendLoop_bytes (results : List SendResult) (segs : List Text) :
    (sendLoop results segs).2.2 ++ (sendLoop results segs).2.1.flatten = segs.flatten := by
  induction segs generalizing results with
  | nil =>
    unfold sendLoop
    rfl
  | cons seg segs ih =>
    unfold sendLoop
    split
    · next hempty =>
      rw [List.flatten_cons, List.eq_nil_of_length_eq_zero hempty]
    · cases results with
      | nil => rfl
      | cons result results =>
        cases result with
        | wouldBlock => rfl
        | failed => rfl
        | bytes n =>
          dsimp only
          split
          · rw [List.flatten_cons, List.append_assoc, ih results]
          · rw [List.flatten_cons, ← List.append_assoc, List.take_append_drop, List.flatten_cons]

/-- The bytes of a connection are on their way, in their order. -/
structure Channel.Inv (c : Channel) (msgs : List MsgBase) : Prop where
  receiver : c.receiver.Inv cfg
  written : c.sender.written = msgs
  stream : c.receiver.stream ++ c.sender.sendBuffer.flatten = msgs.flatMap MsgBase.serialize

variable {cfg} in
theorem Channel.Inv.step {c : Channel} {msgs : List MsgBase} (h : c.Inv cfg msgs) (e : Event) :
    (c.step cfg e).Inv cfg (msgs ++ e.written cfg) := by
  have hnone : msgs ++ [] = msgs := List.append_nil msgs
  cases e with
  | write opcode payload =>
    refine ⟨h.receiver, congrArg (· ++ _) h.written, ?_⟩
    show c.receiver.stream ++ (c.sender.sendBuffer ++ [_]).flatten = _
    rw [List.flatten_append, List.flatten_singleton, ← List.append_assoc, h.stream,
      List.flatMap_append]
    exact congrArg (_ ++ ·) (List.flatMap_singleton ..).symm
  | sendable results =>
    show Channel.Inv cfg _ (msgs ++ [])
    rw [hnone]
    unfold Channel.step
    dsimp only
    split
    · exact h
    · obtain ⟨hinv, hstream⟩ := inv_step h.receiver (.arrive (sendLoop results c.sender.sendBuffer).2.2)
      refine ⟨hinv, h.written, ?_⟩
      rw [hstream, ← h.stream, ← sendLoop_bytes results c.sender.sendBuffer, ← List.append_assoc]
      rfl
  | receive e =>
    show Channel.Inv cfg _ (msgs ++ [])
    rw [hnone]
    have hkeep : ∀ e : RecvEvent, e.arrived = [] →
        Channel.Inv cfg ⟨c.sender, c.receiver.step cfg e⟩ msgs := by
      intro e hnothing
      obtain ⟨hinv, hstream⟩ := inv_step h.receiver e
      rw [hnothing, List.append_nil] at hstream
      refine ⟨hinv, h.written, ?_⟩
      rw [hstream]
      exact h.stream
    cases e with
    | arrive bytes => exact h
    | readable results accepts => exact hkeep _ rfl
    | poll results accepts => exact hkeep _ rfl
    | dispatch => exact hkeep _ rfl
    | terminate => exact hkeep _ rfl
    | teardown => exact hkeep _ rfl
  | terminate =>
    show Channel.Inv cfg _ (msgs ++ [])
    rw [hnone]
    exact ⟨h.receiver, h.written, h.stream⟩
  | teardown =>
    show Channel.Inv cfg _ (msgs ++ [])
    rw [hnone]
    exact ⟨h.receiver, h.written, h.stream⟩

theorem Channel.inv_run (events : List Event) :
    (Channel.run cfg events).Inv cfg (events.flatMap (Event.written cfg)) := by
  induction events using List.reverseRecOn with
  | nil => exact ⟨inv_init, rfl, rfl⟩
  | append_singleton events e ih =>
    have hstep := ih.step e
    unfold Channel.run
    rwa [List.foldl_append, List.flatMap_append, List.flatMap_singleton]

variable {cfg} in
theorem MsgBase.Sendable.nextFrame {msg : MsgBase} (h : msg.Sendable cfg) (rest : Text) :
    (framing cfg).next (msg.serialize ++ rest) = some (msg, rest) :=
  nextFrame_serialize h.fits h.length h.small rest

variable {cfg} in
theorem MsgBase.Sendable.accepted {msg : MsgBase} (h : msg.Sendable cfg) : msg.accepted cfg = true := by
  unfold MsgBase.accepted
  rw [h.checksum, Bool.and_true]
  exact decide_eq_true h.small

variable {cfg} in
/-- No written message is refused. -/
theorem filter_sendable {msgs xs : List MsgBase} (hmsgs : ∀ x ∈ msgs, x.Sendable cfg) (h : xs <+: msgs) :
    xs.filter (MsgBase.accepted cfg) = xs :=
  List.filter_eq_self.mpr fun x hx => (hmsgs x (h.subset hx)).accepted

variable {cfg} in
/-- When the bytes that have arrived are the beginning of what was written, so are the messages handed
over. -/
theorem Receiver.Inv.handed {r : Receiver} (h : r.Inv cfg) {msgs : List MsgBase}
    (hmsgs : ∀ x ∈ msgs, x.Sendable cfg) {rest : Text}
    (hbytes : r.stream ++ rest = msgs.flatMap MsgBase.serialize) : r.handed <+: msgs := by
  obtain ⟨xs, hread, -⟩ := h
  have hfront : xs <+: msgs := hread.parses.prefix_of_written (fun x hx => (hmsgs x hx).nextFrame)
    (by rw [← List.append_assoc]; exact hbytes)
  rw [hread.handed, filter_sendable hmsgs hfront]
  exact hfront

variable {cfg} in
/-- What was handed over is the beginning of what was written. -/
theorem Channel.Inv.handed {c : Channel} {msgs : List MsgBase} (h : c.Inv cfg msgs)
    (hmsgs : ∀ x ∈ msgs, x.Sendable cfg) :
    c.receiver.handed <+: msgs ∧
      (c.sender.sendBuffer = [] → c.receiver.socket = [] → c.receiver.terminating = false →
        c.receiver.msgSleep = false → c.receiver.readyRecv = false →
        c.receiver.handled ++ c.receiver.incoming = msgs) := by
  constructor
  · exact h.receiver.handed hmsgs h.stream
  · intro hsent hsocket hterm hawake hready
    obtain ⟨xs, hread, hquiet⟩ := h.receiver
    have hbytes : c.receiver.received = msgs.flatMap MsgBase.serialize := by
      rw [← h.stream, hsent, Receiver.stream, hsocket]
      simp
    have henc : ∀ x ∈ msgs, ∀ rest, (framing cfg).next (x.serialize ++ rest) = some (x, rest) :=
      fun x hx => (hmsgs x hx).nextFrame
    have hparses := hread.parses
    rw [hbytes] at hparses
    have hfront := hparses.prefix_of_written henc (List.append_nil _)
    have hdone := (hquiet hterm).2 hawake hready fun x hx => (hmsgs x (hfront.subset hx)).checksum
    have hhanded := hread.handed
    rw [filter_sendable hmsgs hfront, (hparses.eq_of_written henc hdone).1,
      Receiver.handed_of_awake hawake] at hhanded
    exact hhanded

/-- **A connection delivers** what was written to it.  In every run, whatever `send` and `recv` do and
whenever the queue is full, the messages handed over are the first ones that were written, each once, in
their order and as they were.  When nothing is left on the way, and the receiver is neither asleep nor
masked, they are all of them. -/
theorem connection_delivers (events : List Event)
    (hsmall : ∀ opcode payload, Event.write opcode payload ∈ events →
      payload.length < 2 ^ 32 ∧ payload.length ≤ cfg.maxMsgSize) :
    let c := Channel.run cfg events
    let written := events.flatMap (Event.written cfg)
    c.receiver.handed <+: written ∧
      (c.sender.sendBuffer = [] → c.receiver.socket = [] → c.receiver.terminating = false →
        c.receiver.msgSleep = false → c.receiver.readyRecv = false →
        c.receiver.handled ++ c.receiver.incoming = written) := by
  refine (Channel.inv_run cfg events).handed fun x hx => ?_
  obtain ⟨e, he, hxe⟩ := List.mem_flatMap.mp hx
  cases e with
  | write opcode payload =>
    obtain ⟨hword, hpayload⟩ := hsmall opcode payload he
    rw [List.mem_singleton.mp hxe]
    exact MsgBase.ofPayload_sendable cfg opcode hword hpayload
  | _ => exact absurd hxe List.not_mem_nil

/-- `abc` is written and sent in two pieces; when it is complete, the queue is full at first. -/
def abcEvents : List Event :=
  [.write 1 [97, 98, 99], .sendable [.bytes 5], .receive (.readable [.bytes 4096] []),
    .sendable [.bytes 100], .receive (.readable [.bytes 4096] [false]), .receive (.poll [] [true]),
    .receive .dispatch]

theorem connection_delivers_abc :
    (Channel.run (defaultConfig fun _ => abcDigest) abcEvents).receiver.handed <+:
      [.ofPayload (defaultConfig fun _ => abcDigest) 1 [97, 98, 99]] ∧
    (Channel.run (defaultConfig fun _ => abcDigest) abcEvents).receiver.handled ++
      (Channel.run (defaultConfig fun _ => abcDigest) abcEvents).receiver.incoming =
        [.ofPayload (defaultConfig fun _ => abcDigest) 1 [97, 98, 99]] := by
  have hsmall : ∀ opcode payload, Event.write opcode payload ∈ abcEvents →
      payload.length < 2 ^ 32 ∧ payload.length ≤ (defaultConfig fun _ => abcDigest).maxMsgSize := by
    intro opcode payload hmem
    simp only [abcEvents, List.mem_cons, Event.write.injEq, reduceCtorEq, List.not_mem_nil, or_false]
      at hmem
    rw [hmem.2]
    decide
  obtain ⟨hfront, hall⟩ := connection_delivers (defaultConfig fun _ => abcDigest) abcEvents hsmall
  exact ⟨hfront, hall (by decide +kernel) (by decide +kernel) (by decide +kernel) (by decide +kernel)
    (by decide +kernel)⟩

/-! ### The messages of the protocols -/

/-- What a connection delivers, as the handlers get it. -/
theorem Kinds.Reads.delivered {Msg : Type} {k : Kinds Msg} {Fits : Msg → Prop} (hk : k.Reads Fits)
    {msgs : List Msg} (hmsgs : ∀ m ∈ msgs, Fits m ∧ (k.serialize m).length < 2 ^ 32 ∧
      (k.serialize m).length ≤ cfg.maxMsgSize)
    {events : List Event} (hsent : events.flatMap (Event.written cfg) = msgs.map (k.pack cfg)) :
    let c := Channel.run cfg events
    c.receiver.handled.map k.unpack <+: msgs.map some ∧
      (c.sender.sendBuffer = [] → c.receiver.socket = [] → c.receiver.terminating = false →
        c.receiver.msgSleep = false → c.receiver.readyRecv = false →
        (c.receiver.handled ++ c.receiver.incoming).map k.unpack = msgs.map some) := by
  intro c
  have hunpack : (msgs.map (k.pack cfg)).map k.unpack = msgs.map some := by
    rw [List.map_map]
    exact List.map_congr_left fun m hm => hk.unpack cfg (hmsgs m hm).1
  obtain ⟨hfront, hall⟩ := (Channel.inv_run cfg events).handed fun x hx => by
    rw [hsent] at hx
    obtain ⟨m, hm, rfl⟩ := List.mem_map.mp hx
    exact MsgBase.ofPayload_sendable cfg _ (hmsgs m hm).2.1 (hmsgs m hm).2.2
  rw [hsent] at hfront hall
  constructor
  · have hhandled : c.receiver.handled <+: c.receiver.handed := by
      unfold Receiver.handed
      rw [List.append_assoc]
      exact List.prefix_append ..
    rw [← hunpack]
    exact (hhandled.trans hfront).map _
  · intro hbuffer hsocket hlive hawake hready
    rw [hall hbuffer hsocket hlive hawake hready, hunpack]

/-- **The messages of a replica arrive**: in each build, the messages that the handlers of `pnet` get over
a connection are the first ones that were sent over it, in their order, none lost, doubled or changed; and
all of them, when everything has been read. -/
theorem peer_messages_delivered (b : Build) {msgs : List b.Msg} (hmsgs : ∀ m ∈ msgs, b.Fits m ∧
      (b.kinds.serialize m).length < 2 ^ 32 ∧ (b.kinds.serialize m).length ≤ cfg.maxMsgSize)
    {events : List Event} (hsent : events.flatMap (Event.written cfg) = msgs.map (b.kinds.pack cfg)) :
    let c := Channel.run cfg events
    c.receiver.handled.map b.kinds.unpack <+: msgs.map some ∧
      (c.sender.sendBuffer = [] → c.receiver.socket = [] → c.receiver.terminating = false →
        c.receiver.msgSleep = false → c.receiver.readyRecv = false →
        (c.receiver.handled ++ c.receiver.incoming).map b.kinds.unpack = msgs.map some) :=
  Kinds.Reads.delivered cfg b.reads hmsgs hsent

/-- A new-view and a pre-commit vote. -/
def sampleMessages : List Msg := [.newview ⟨sampleRData, sampleSign 3⟩, .precommit sampleVote]

/-- The SHA-1 digests of their payloads. -/
def sampleDigest (payload : Text) : Vector UInt8 20 :=
  if payload.length = 152 then
    #v[0x90, 0x2d, 0x48, 0xd6, 0xe2, 0xa0, 0x26, 0xaa, 0xf7, 0xff, 0x96, 0xa9, 0x9c, 0x21, 0x02, 0xc2, 0x8f,
      0xf3, 0x1e, 0xbc]
  else
    #v[0xf9, 0x66, 0x32, 0xf8, 0x87, 0x0a, 0x77, 0xf3, 0xe5, 0x27, 0x89, 0xd6, 0xd4, 0x6f, 0x70, 0xb0, 0xee,
      0x77, 0x9d, 0x47]

/-- The second message arrives in two pieces. -/
def sampleEvents : List Event :=
  (sampleMessages.map fun m => .write (combKinds.opcode m) (combKinds.serialize m)) ++
    [.sendable [.bytes 4096, .bytes 500], .receive (.readable [.bytes 4096] [true]),
      .sendable [.bytes 4096], .receive (.readable [.bytes 4096] [true]), .receive .dispatch]

theorem peer_messages_delivered_sample :
    (Channel.run (defaultConfig sampleDigest) sampleEvents).receiver.handled.map combKinds.unpack <+:
      sampleMessages.map some ∧
    ((Channel.run (defaultConfig sampleDigest) sampleEvents).receiver.handled ++
      (Channel.run (defaultConfig sampleDigest) sampleEvents).receiver.incoming).map combKinds.unpack =
        sampleMessages.map some := by
  have hmsgs : ∀ m ∈ sampleMessages, Msg.Fits m ∧ (combKinds.serialize m).length < 2 ^ 32 ∧
      (combKinds.serialize m).length ≤ (defaultConfig sampleDigest).maxMsgSize := by
    intro m hm
    rcases List.mem_cons.mp hm with rfl | hm
    · exact ⟨⟨sampleVote_fits.data, show 3 < 2 ^ 32 by decide⟩, by decide +kernel, by decide +kernel⟩
    · rw [List.mem_singleton.mp hm]
      exact ⟨sampleVote_fits, by decide +kernel, by decide +kernel⟩
  obtain ⟨hfront, hall⟩ := peer_messages_delivered (defaultConfig sampleDigest) .basicHybridTEE hmsgs
    (show sampleEvents.flatMap _ = _ from rfl)
  exact ⟨hfront, hall (by decide +kernel) (by decide +kernel) (by decide +kernel) (by decide +kernel)
    (by decide +kernel)⟩

/-- The same for what a client sends over `cnet`. -/
theorem client_messages_delivered {msgs : List ClientMsg} (hmsgs : ∀ m ∈ msgs, m.Fits ∧
      (clientKinds.serialize m).length < 2 ^ 32 ∧ (clientKinds.serialize m).length ≤ cfg.maxMsgSize)
    {events : List Event} (hsent : events.flatMap (Event.written cfg) = msgs.map (clientKinds.pack cfg)) :
    (Channel.run cfg events).receiver.handled.map clientKinds.unpack <+: msgs.map some :=
  (Kinds.Reads.delivered cfg clientKinds_reads hmsgs hsent).1

/-! ### Reading what was written -/

section Reading

variable {cfg} {r : Receiver} {msg : MsgBase} {rest : Text}

/-- A written header is at the front of the buffer. -/
theorem readHeader_written (hmsg : msg.Sendable cfg) (hstate : r.msgState = .header)
    (hbytes : r.recvBuffer.bytes = msg.header ++ rest) :
    r.readHeader cfg = (none, { r with
      recvBuffer := (r.recvBuffer.pop headerSize).2
      msg := { msg with payload := [] }
      msgState := .payload }) := by
  have hrun : MsgBase.ofHeader.run msg.header = some ({ msg with payload := [] }, []) := by
    have hundo := MsgBase.ofHeader_header hmsg.fits []
    rwa [List.append_nil] at hundo
  have hsize : ¬ r.recvBuffer.size < headerSize := by
    rw [SegBuffer.size_eq_length, hbytes, List.length_append, msg.length_header]
    omega
  have hpop : (r.recvBuffer.pop headerSize).1 = msg.header := by
    rw [SegBuffer.pop_fst, hbytes, ← msg.length_header, List.take_left]
  have hsmall : ¬ msg.length > cfg.maxMsgSize := Nat.not_lt.mpr hmsg.small
  unfold Receiver.readHeader
  rw [hstate]
  dsimp only
  rw [if_neg hsize, hpop, hrun]
  dsimp only
  rw [if_neg hsmall]

/-- A written payload comes next, and the queue has room. -/
theorem readPayload_written (hmsg : msg.Sendable cfg) (hheader : r.msg = { msg with payload := [] })
    (hbytes : r.recvBuffer.bytes = msg.payload ++ rest) (accepts : List Bool) :
    r.readPayload cfg (true :: accepts) = (none, accepts, { r with
      recvBuffer := (r.recvBuffer.pop msg.length).2
      msg := msg
      msgState := .header
      incoming := r.incoming ++ [msg] }) := by
  have hlength : r.msg.length = msg.length := by rw [hheader]
  have hsize : ¬ r.recvBuffer.size < msg.length := by
    rw [SegBuffer.size_eq_length, hbytes, List.length_append, hmsg.length]
    omega
  have hpop : (r.recvBuffer.pop msg.length).1 = msg.payload := by
    rw [SegBuffer.pop_fst, hbytes, hmsg.length, List.take_left]
  have hmod : msg.payload.length % 2 ^ 32 = msg.length := by
    rw [← hmsg.length]
    exact Nat.mod_eq_of_lt hmsg.fits.length
  have hwhole : r.msg.setPayload msg.payload = msg := by
    rw [hheader, MsgBase.setPayload, hmod]
  unfold Receiver.readPayload
  rw [hlength, if_neg hsize]
  dsimp only
  rw [hpop, hwhole, hmsg.checksum]
  rfl

variable (cfg) in
/-- What the loop leaves behind when it has read all of `msgs`. -/
structure ReadAll (r : Receiver) (msgs : List MsgBase) (r' : Receiver) : Prop where
  same : r.Same r'
  incoming : r'.incoming = r.incoming ++ msgs
  awake : r'.msgSleep = false

/-- The loop reads written messages one after the other. -/
theorem readLoop_written {msgs : List MsgBase} (hmsgs : ∀ x ∈ msgs, x.Sendable cfg)
    (hstate : r.msgState = .header) (hawake : r.msgSleep = false)
    (hbytes : r.recvBuffer.bytes = msgs.flatMap MsgBase.serialize) {fuel : ℕ} (hfuel : msgs.length < fuel) :
    ∃ r', r.readLoop cfg fuel (List.replicate msgs.length true) = (.broke, [], r') ∧
      ReadAll r msgs r' := by
  induction msgs generalizing r fuel with
  | nil =>
    obtain ⟨fuel, rfl⟩ := Nat.exists_eq_add_one_of_ne_zero (Nat.ne_of_gt hfuel)
    have hsize : r.recvBuffer.size < headerSize := by
      rw [SegBuffer.size_eq_length, hbytes]
      decide
    refine ⟨r, ?_, ⟨rfl, rfl, rfl, rfl, rfl, rfl⟩, (List.append_nil _).symm, hawake⟩
    unfold Receiver.readLoop Receiver.readHeader
    rw [hstate]
    dsimp only
    rw [if_pos hsize]
    rfl
  | cons msg msgs ih =>
    obtain ⟨fuel, rfl⟩ := Nat.exists_eq_add_one_of_ne_zero (Nat.ne_of_gt (Nat.zero_lt_of_lt hfuel))
    have hmsg := hmsgs msg List.mem_cons_self
    rw [List.flatMap_cons, MsgBase.serialize, List.append_assoc] at hbytes
    have hpayload : (r.recvBuffer.pop headerSize).2.bytes =
        msg.payload ++ msgs.flatMap MsgBase.serialize := by
      rw [SegBuffer.bytes_pop, hbytes, ← msg.length_header, List.drop_left]
    have hrest : ((r.recvBuffer.pop headerSize).2.pop msg.length).2.bytes =
        msgs.flatMap MsgBase.serialize := by
      rw [SegBuffer.bytes_pop, hpayload, hmsg.length, List.drop_left]
    obtain ⟨r', hloop, hall⟩ := ih (r := { r with
        recvBuffer := ((r.recvBuffer.pop headerSize).2.pop msg.length).2
        msg := msg
        msgState := .header
        incoming := r.incoming ++ [msg] }) (fun x hx => hmsgs x (List.mem_cons_of_mem msg hx)) rfl hawake
      hrest (Nat.lt_of_succ_lt_succ hfuel)
    refine ⟨r', ?_, ⟨hall.same.socket, hall.same.received, hall.same.readyRecv,
      hall.same.terminating, hall.same.terminated, hall.same.handled⟩, ?_, hall.awake⟩
    · unfold Receiver.readLoop
      rw [readHeader_written hmsg hstate hbytes]
      dsimp only
      rw [List.length_cons, List.replicate_succ, readPayload_written hmsg rfl hpayload]
      exact hloop
    · rw [hall.incoming, List.append_assoc]
      rfl

end Reading

/-! ### A message in many pieces -/

/-- The socket is masked, and no message waits for room in the queue. -/
structure Receiver.Stalled (r : Receiver) : Prop where
  masked : r.readyRecv = true
  awake : r.msgSleep = false

/-- Only a readable socket and the poll timer lead to `on_read`. -/
theorem Receiver.Stalled.step {r : Receiver} (h : r.Stalled) (e : RecvEvent) :
    (r.step cfg e).Stalled ∧ (r.step cfg e).handed = r.handed := by
  cases e with
  | arrive bytes => exact ⟨⟨h.masked, h.awake⟩, rfl⟩
  | readable results accepts =>
    unfold Receiver.step
    dsimp only
    rw [h.masked, Bool.or_true, if_pos rfl]
    exact ⟨h, rfl⟩
  | poll results accepts =>
    unfold Receiver.step
    dsimp only
    rw [h.awake, Bool.not_false, Bool.or_true, if_pos rfl]
    exact ⟨h, rfl⟩
  | dispatch =>
    unfold Receiver.step
    dsimp only
    split
    · exact ⟨h, rfl⟩
    · next msg incoming hincoming =>
      refine ⟨⟨h.masked, h.awake⟩, ?_⟩
      unfold Receiver.handed
      rw [hincoming]
      simp
  | terminate => exact ⟨⟨h.masked, h.awake⟩, rfl⟩
  | teardown => exact ⟨⟨h.masked, h.awake⟩, rfl⟩

theorem Channel.step_stalled {c : Channel} (h : c.receiver.Stalled) (e : Event) :
    (c.step cfg e).receiver.Stalled ∧ (c.step cfg e).receiver.handed = c.receiver.handed := by
  cases e with
  | write opcode payload => exact ⟨h, rfl⟩
  | sendable results =>
    unfold Channel.step
    dsimp only
    split
    · exact ⟨h, rfl⟩
    · exact h.step cfg (.arrive _)
  | receive e =>
    cases e with
    | arrive bytes => exact ⟨h, rfl⟩
    | readable results accepts => exact h.step cfg (.readable results accepts)
    | poll results accepts => exact h.step cfg (.poll results accepts)
    | dispatch => exact h.step cfg .dispatch
    | terminate => exact h.step cfg .terminate
    | teardown => exact h.step cfg .teardown
  | terminate => exact ⟨h, rfl⟩
  | teardown => exact ⟨h, rfl⟩

theorem Channel.foldl_stalled (events : List Event) {c : Channel} (h : c.receiver.Stalled) :
    (events.foldl (Channel.step cfg) c).receiver.Stalled ∧
      (events.foldl (Channel.step cfg) c).receiver.handed = c.receiver.handed := by
  induction events generalizing c with
  | nil => exact ⟨h, rfl⟩
  | cons e events ih =>
    obtain ⟨hstalled, hhanded⟩ := Channel.step_stalled cfg h e
    obtain ⟨hlater, hsame⟩ := ih hstalled
    exact ⟨hlater, hsame.trans hhanded⟩

/-- The header has been read, and of the payload `n` bytes, each in a segment of its own. -/
structure Receiver.Waits (r : Receiver) (payload : Text) (n : ℕ) : Prop where
  live : r.terminated = false
  calm : r.terminating = false
  unmasked : r.readyRecv = false
  awake : r.msgSleep = false
  state : r.msgState = .payload
  length : r.msg.length = payload.length
  socket : r.socket = payload.drop n
  size : r.recvBuffer.size = n
  len : r.recvBuffer.len = n
  nothing : r.handled ++ r.incoming = []

variable {cfg}

/-- A piece comes that is not a whole chunk. -/
theorem recvLoop_piece {r : Receiver} {piece rest : Text} (hsocket : r.socket = piece ++ rest)
    (hpiece : piece ≠ []) (hchunk : piece.length < cfg.recvChunkSize)
    (hroom : r.recvBuffer.len < cfg.maxRecvBuffSize) :
    r.recvLoop cfg [.bytes piece.length] = (.drained, { r with
      socket := rest
      received := r.received ++ piece
      recvBuffer := r.recvBuffer.push piece }) := by
  have hmin : min piece.length cfg.recvChunkSize = piece.length := min_eq_left (Nat.le_of_lt hchunk)
  unfold Receiver.recvLoop
  rw [if_neg (Nat.not_le.mpr hroom)]
  dsimp only
  rw [hsocket, hmin, List.take_left, if_neg hpiece, if_neg (Nat.ne_of_lt hchunk), List.drop_left]

/-- The socket gives one more byte of a payload that is still not complete. -/
theorem Receiver.Waits.readable {r : Receiver} {payload : Text} {n : ℕ} (h : r.Waits payload n)
    (hchunk : 1 < cfg.recvChunkSize) (hroom : n < cfg.maxRecvBuffSize) (hmore : n + 1 < payload.length) :
    Receiver.Waits (r.step cfg (.readable [.bytes 1] [])) payload (n + 1) := by
  obtain ⟨b, rest, hdrop⟩ : ∃ b rest, payload.drop n = b :: rest :=
    List.exists_cons_of_ne_nil (List.drop_eq_nil_iff.not.mpr (by omega))
  have hrest : payload.drop (n + 1) = rest := by
    rw [← List.drop_drop, hdrop]
    rfl
  have hlenroom : r.recvBuffer.len < cfg.maxRecvBuffSize := by
    rw [h.len]
    exact hroom
  have hsocket : r.socket = [b] ++ rest := h.socket.trans hdrop
  have hone : [b].length < cfg.recvChunkSize := hchunk
  have hrecv := recvLoop_piece hsocket nofun hone hlenroom
  have hsize : (r.recvBuffer.push [b]).size = n + 1 := congrArg (· + 1) h.size
  have hlen : (r.recvBuffer.push [b]).len = n + 1 := by rw [SegBuffer.len_push, h.len]
  have hshort : (r.recvBuffer.push [b]).size < r.msg.length := by
    rw [hsize, h.length]
    exact hmore
  -- `on_read` stops at once
  have hstep : r.step cfg (.readable [.bytes 1] []) = { r with
      socket := rest
      received := r.received ++ [b]
      recvBuffer := r.recvBuffer.push [b]
      readyRecv := false } := by
    unfold Receiver.step Receiver.recvData
    dsimp only
    rw [h.live, h.unmasked, if_neg (by decide)]
    rw [List.length_singleton] at hrecv
    rw [hrecv]
    unfold Receiver.onReadWith Receiver.readLoop Receiver.readHeader Receiver.readPayload
    simp [h.awake, h.state, h.live, hshort]
  rw [hstep]
  exact ⟨h.live, h.calm, rfl, h.awake, h.state, h.length, hrest.symm, hsize, hlen, h.nothing⟩

/-- A segment that is popped as a whole is gone. -/
theorem SegBuffer.pop_push_empty (data : Text) (hdata : data ≠ []) :
    (SegBuffer.empty.push data).pop data.length = (data, SegBuffer.empty) := by
  have hlength : data.length ≠ 0 := mt List.eq_nil_of_length_eq_zero hdata
  have hfrom : SegBuffer.popFrom [data] data.length = (data, []) := by
    simp [SegBuffer.popFrom, hlength]
  simp [SegBuffer.pop, SegBuffer.push, SegBuffer.empty, hfrom]

theorem MsgBase.header_ne_nil (msg : MsgBase) : msg.header ≠ [] := fun hnil =>
  absurd (congrArg List.length hnil) (by rw [msg.length_header]; decide)

/-- A header is all that has come. -/
theorem readHeader_start {msg : MsgBase} (hmsg : msg.Sendable cfg) {r : Receiver}
    (hstate : r.msgState = .header) (hbuffer : r.recvBuffer = SegBuffer.empty.push msg.header) :
    r.readHeader cfg = (none, { r with
      recvBuffer := .empty
      msg := { msg with payload := [] }
      msgState := .payload }) := by
  have hbytes : r.recvBuffer.bytes = msg.header ++ [] := by
    rw [hbuffer, SegBuffer.bytes_push, List.append_nil]
    rfl
  rw [readHeader_written hmsg hstate hbytes, hbuffer, ← msg.length_header,
    SegBuffer.pop_push_empty _ msg.header_ne_nil]

/-- A message has arrived at the socket, and nothing of it was read. -/
structure Receiver.Fresh (r : Receiver) (msg : MsgBase) : Prop where
  live : r.terminated = false
  calm : r.terminating = false
  unmasked : r.readyRecv = false
  awake : r.msgSleep = false
  state : r.msgState = .header
  socket : r.socket = msg.header ++ msg.payload
  buffer : r.recvBuffer = .empty
  nothing : r.handled ++ r.incoming = []

/-- The header comes in one piece. -/
theorem Receiver.Fresh.readable {r : Receiver} {msg : MsgBase} (h : r.Fresh msg)
    (hmsg : msg.Sendable cfg) (hpos : 0 < msg.payload.length) (hchunk : headerSize < cfg.recvChunkSize)
    (hroom : 0 < cfg.maxRecvBuffSize) :
    Receiver.Waits (r.step cfg (.readable [.bytes headerSize] [])) msg.payload 0 := by
  have hlen : r.recvBuffer.len < cfg.maxRecvBuffSize := by
    rw [h.buffer]
    exact hroom
  have hrecv := recvLoop_piece h.socket msg.header_ne_nil hchunk hlen
  rw [msg.length_header] at hrecv
  have hlong : SegBuffer.empty.size < msg.length := by
    rw [hmsg.length]
    exact hpos
  have hstep : r.step cfg (.readable [.bytes headerSize] []) = { r with
      socket := msg.payload
      received := r.received ++ msg.header
      recvBuffer := .empty
      msg := { msg with payload := [] }
      msgState := .payload
      readyRecv := false } := by
    have hbuffer : r.recvBuffer.push msg.header = SegBuffer.empty.push msg.header := by rw [h.buffer]
    have hloop := readHeader_start hmsg (r := { r with
      socket := msg.payload
      received := r.received ++ msg.header
      recvBuffer := r.recvBuffer.push msg.header
      readyRecv := false }) h.state hbuffer
    unfold Receiver.step Receiver.recvData
    dsimp only
    rw [h.live, h.unmasked, if_neg (by decide), hrecv]
    unfold Receiver.onReadWith Receiver.readLoop
    dsimp only
    rw [h.awake] at hloop ⊢
    rw [if_neg Bool.false_ne_true, hloop]
    unfold Receiver.readPayload
    simp [hlong, h.live]
  rw [hstep]
  exact ⟨h.live, h.calm, rfl, h.awake, rfl, hmsg.length, rfl, rfl, rfl, h.nothing⟩

/-- The bytes of the payload come one by one. -/
theorem Receiver.Waits.foldl {r : Receiver} {payload : Text} (h : r.Waits payload 0)
    (hchunk : 1 < cfg.recvChunkSize) {n : ℕ} (hroom : n ≤ cfg.maxRecvBuffSize) (hmore : n < payload.length) :
    Receiver.Waits ((List.replicate n (RecvEvent.readable [.bytes 1] [])).foldl (Receiver.step cfg) r)
      payload n := by
  induction n with
  | zero => exact h
  | succ n ih =>
    rw [List.replicate_succ', List.foldl_append]
    exact (ih (by omega) (by omega)).readable hchunk hroom hmore

/-- The buffer is full, and the payload is not complete. -/
theorem Receiver.Waits.stalled {r : Receiver} {payload : Text} (h : r.Waits payload cfg.maxRecvBuffSize) :
    Receiver.Stalled (r.step cfg (.readable [] [])) ∧
      (r.step cfg (.readable [] [])).terminating = false ∧
      (r.step cfg (.readable [] [])).terminated = false ∧
      (r.step cfg (.readable [] [])).handed = [] := by
  have hstep : r.step cfg (.readable [] []) = { r with readyRecv := true } := by
    unfold Receiver.step Receiver.recvData Receiver.recvLoop
    simp [h.live, h.unmasked, h.len]
  rw [hstep]
  refine ⟨⟨rfl, h.awake⟩, h.calm, h.live, ?_⟩
  exact (Receiver.handed_of_awake h.awake).trans h.nothing

variable (cfg) in
/-- What `recv` returns: the header, then bytes one by one until the buffer is full. -/
def pieces : List (List RecvResult) :=
  [.bytes headerSize] :: (List.replicate cfg.maxRecvBuffSize [.bytes 1] ++ [[]])

theorem Receiver.Fresh.stalls {r : Receiver} {msg : MsgBase} (h : r.Fresh msg) (hmsg : msg.Sendable cfg)
    (hlong : cfg.maxRecvBuffSize < msg.payload.length) (hroom : 0 < cfg.maxRecvBuffSize)
    (hchunk : headerSize < cfg.recvChunkSize) :
    let r' := ((pieces cfg).map (RecvEvent.readable · [])).foldl (Receiver.step cfg) r
    r'.Stalled ∧ r'.terminating = false ∧ r'.terminated = false ∧ r'.handed = [] := by
  have hone : 1 < cfg.recvChunkSize := Nat.lt_of_le_of_lt (by decide) hchunk
  have hwaits := h.readable hmsg (Nat.lt_of_le_of_lt (Nat.zero_le _) hlong) hchunk hroom
  unfold pieces
  rw [List.map_cons, List.map_append, List.map_replicate, List.foldl_cons, List.foldl_append]
  exact (hwaits.foldl hone le_rfl hlong).stalled

variable (cfg) in
theorem Channel.foldl_readable (calls : List (List RecvResult)) (c : Channel) :
    (calls.map fun results => Event.receive (.readable results [])).foldl (Channel.step cfg) c =
      ⟨c.sender, (calls.map (RecvEvent.readable · [])).foldl (Receiver.step cfg) c.receiver⟩ := by
  induction calls generalizing c with
  | nil => rfl
  | cons results calls ih => exact ih _

variable (cfg) in
/-- A message is written, and a call of `send` takes all of it. -/
theorem Channel.run_sent {opcode : UInt8} {payload : Text} {msg : MsgBase}
    (hmsg : msg = .ofPayload cfg opcode payload) :
    Channel.run cfg [.write opcode payload, .sendable [.bytes msg.serialize.length]] =
      ⟨⟨[], false, false, [msg]⟩, { Receiver.init with socket := msg.serialize }⟩ := by
  have hbytes : msg.serialize.length ≠ 0 := by
    unfold MsgBase.serialize
    rw [List.length_append, msg.length_header]
    exact Nat.ne_of_gt (Nat.add_pos_left (by decide) _)
  have hloop : sendLoop [.bytes msg.serialize.length] [msg.serialize] = (false, [], msg.serialize) := by
    simp [sendLoop, hbytes]
  have hwrite : Channel.step cfg .init (.write opcode payload) =
      ⟨⟨[msg.serialize], false, false, [msg]⟩, .init⟩ := by
    rw [hmsg]
    rfl
  unfold Channel.run
  rw [List.foldl_cons, hwrite, List.foldl_cons, List.foldl_nil]
  unfold Channel.step
  dsimp only
  rw [if_neg Bool.false_ne_true, hloop]
  rfl

variable (cfg) in
/-- **A message that is too long for the buffer stalls its connection.**  If the payload has more bytes
than the buffer takes segments, then there is a run in which the message is written and sent as usual, and
its bytes come in small pieces, after which the socket is masked and nothing is handed over any more,
whatever happens next; the connection is not closed, and nothing asks for that. -/
theorem long_message_stalls (opcode : UInt8) (payload : Text) (hword : payload.length < 2 ^ 32)
    (hsmall : payload.length ≤ cfg.maxMsgSize) (hlong : cfg.maxRecvBuffSize < payload.length)
    (hroom : 0 < cfg.maxRecvBuffSize) (hchunk : headerSize < cfg.recvChunkSize) :
    ∃ events : List Event,
      events.flatMap (Event.written cfg) = [.ofPayload cfg opcode payload] ∧
      (Channel.run cfg events).sender.sendBuffer = [] ∧
      (Channel.run cfg events).receiver.terminating = false ∧
      (Channel.run cfg events).receiver.terminated = false ∧
      ∀ later, (Channel.run cfg (events ++ later)).receiver.readyRecv = true ∧
        (Channel.run cfg (events ++ later)).receiver.handed = [] := by
  let msg := MsgBase.ofPayload cfg opcode payload
  have hmsg : msg.Sendable cfg := MsgBase.ofPayload_sendable cfg opcode hword hsmall
  let send : List Event := [.write opcode payload, .sendable [.bytes msg.serialize.length]]
  have hsend : Channel.run cfg send = ⟨⟨[], false, false, [msg]⟩, { Receiver.init with socket := msg.serialize }⟩ :=
    Channel.run_sent cfg rfl
  have hfresh : Receiver.Fresh (Channel.run cfg send).receiver msg := by
    rw [hsend]
    exact ⟨rfl, rfl, rfl, rfl, rfl, rfl, rfl, rfl⟩
  obtain ⟨hstalled, hcalm, hlive, hhanded⟩ := hfresh.stalls hmsg hlong hroom hchunk
  let reads : List Event := (pieces cfg).map fun results => .receive (.readable results [])
  have hrun : Channel.run cfg (send ++ reads) = ⟨(Channel.run cfg send).sender,
      ((pieces cfg).map (RecvEvent.readable · [])).foldl (Receiver.step cfg)
        (Channel.run cfg send).receiver⟩ := by
    rw [← Channel.foldl_readable]
    exact List.foldl_append
  have hreads : reads.flatMap (Event.written cfg) = [] :=
    List.flatMap_eq_nil_iff.mpr fun e he => by
      obtain ⟨results, -, rfl⟩ := List.mem_map.mp he
      rfl
  refine ⟨send ++ reads, ?_, ?_, ?_, ?_, fun later => ?_⟩
  · rw [List.flatMap_append, hreads]
    rfl
  · rw [hrun, hsend]
  · rw [hrun]
    exact hcalm
  · rw [hrun]
    exact hlive
  · have hlater : Channel.run cfg (send ++ reads ++ later) =
        later.foldl (Channel.step cfg) (Channel.run cfg (send ++ reads)) := List.foldl_append
    have hreached : (Channel.run cfg (send ++ reads)).receiver.Stalled := by
      rw [hrun]
      exact hstalled
    obtain ⟨hmasked, hsame⟩ := Channel.foldl_stalled cfg later hreached
    rw [hlater]
    refine ⟨hmasked.masked, ?_⟩
    rw [hsame, hrun]
    exact hhanded

/-- The SHA-1 digest of 5000 zero bytes. -/
def zerosDigest : Vector UInt8 20 :=
  #v[0x04, 0x4e, 0xf4, 0x8a, 0xf2, 0x64, 0xfd, 0x3e, 0x30, 0x4a, 0xb9, 0xe6, 0x4f, 0x96, 0x56, 0xf3, 0x7a,
    0xf7, 0x63, 0xa6]

theorem long_message_stalls_default :
    ∃ events : List Event,
      events.flatMap (Event.written (defaultConfig fun _ => zerosDigest)) =
        [.ofPayload (defaultConfig fun _ => zerosDigest) 1 (List.replicate 5000 0)] ∧
      (Channel.run (defaultConfig fun _ => zerosDigest) events).sender.sendBuffer = [] ∧
      (Channel.run (defaultConfig fun _ => zerosDigest) events).receiver.terminating = false ∧
      (Channel.run (defaultConfig fun _ => zerosDigest) events).receiver.terminated = false ∧
      ∀ later,
        (Channel.run (defaultConfig fun _ => zerosDigest) (events ++ later)).receiver.readyRecv = true ∧
        (Channel.run (defaultConfig fun _ => zerosDigest) (events ++ later)).receiver.handed = [] := by
  have hlength : (List.replicate 5000 (0 : UInt8)).length = 5000 := List.length_replicate
  exact long_message_stalls (defaultConfig fun _ => zerosDigest) 1 (List.replicate 5000 0)
    (by rw [hlength]; decide) (by rw [hlength]; decide) (by rw [hlength]; decide) (by decide) (by decide)

end Raftel.Salticidae
