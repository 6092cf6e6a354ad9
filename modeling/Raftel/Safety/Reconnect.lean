import Raftel.Safety.Delivery
import Raftel.Reconnect

/-!
# Messages over several connections

What is left in the send buffer goes to the next connection segment by segment.  A segment whose beginning
was sent on the old connection is no message, but the new receiver takes it for one.

* `link_keeps_order` : as long as every connection ends between two messages, the messages that are handed
  over are some of those that were written, each at most once, in their order
* `reconnect_forges` : when it ends within a message, a part of the payload may be handed over as a message
-/

namespace Raftel.Salticidae

variable (cfg : Config)

/-! ### Ends between two messages -/

/-- The segments in the send buffer are whole messages. -/
def Sender.Whole (s : Sender) : Prop := s.sendBuffer = s.unsent.map MsgBase.serialize

instance (s : Sender) : Decidable s.Whole := inferInstanceAs (Decidable (_ = _))

/-- Every connection ends between two messages. -/
def Link.EndsClean (l : Link) : List LinkEvent → Prop
  | [] => True
  | e :: events =>
    (match e with
      | .connection _ => True
      | .reconnect .. => l.channel.sender.Whole) ∧ (l.step cfg e).EndsClean events

/-- The messages that were handed over, on all connections. -/
def Link.handed (l : Link) : List MsgBase := l.past ++ l.channel.receiver.handed

/-- The messages that an event writes. -/
def LinkEvent.written : LinkEvent → List MsgBase
  | connection e => e.written cfg
  | reconnect .. => []

/-- The messages of the application. -/
def appMessages (msgs : List MsgBase) : List MsgBase := msgs.filter fun msg => !msg.isPing

theorem appMessages_append (msgs msgs' : List MsgBase) :
    appMessages (msgs ++ msgs') = appMessages msgs ++ appMessages msgs' := List.filter_append ..

theorem appMessages_hello (mode : ConnMode) (addr : NetAddr) (nonce : ℕ) :
    appMessages (hello cfg mode addr nonce) = [] := by
  cases mode <;> rfl

theorem hello_sendable (mode : ConnMode) (addr : NetAddr) (nonce : ℕ) (hmax : 11 ≤ cfg.maxMsgSize) :
    ∀ x ∈ hello cfg mode addr nonce, x.Sendable cfg := by
  intro x hx
  rcases List.mem_cons.mp hx with rfl | hx
  · exact MsgBase.ofPayload_sendable cfg _ (show 11 < 2 ^ 32 by decide) hmax
  · rw [List.mem_singleton.mp hx]
    exact MsgBase.ofPayload_sendable cfg _ (show 1 < 2 ^ 32 by decide) (Nat.le_trans (by decide) hmax)

/-- Of the messages that were written, those before the ones on the current connection contain what was
handed over on the earlier ones. -/
structure Link.Inv (l : Link) (written : List MsgBase) : Prop where
  channel : l.channel.Inv cfg l.channel.sender.written
  sendable : ∀ x ∈ l.channel.sender.written, x.Sendable cfg
  order : ∃ done, appMessages written = done ++ appMessages l.channel.sender.written ∧
    (appMessages l.past).Sublist done

variable {cfg} {l : Link} {written : List MsgBase}

theorem Link.Inv.connection (h : l.Inv cfg written) {e : Event}
    (hsendable : ∀ x ∈ e.written cfg, x.Sendable cfg) :
    Link.Inv cfg { l with channel := l.channel.step cfg e } (written ++ e.written cfg) := by
  have hstep := h.channel.step e
  have hwritten := hstep.written
  obtain ⟨done, horder, hpast⟩ := h.order
  refine ⟨?_, ?_, done, ?_, hpast⟩
  · show Channel.Inv cfg _ (l.channel.step cfg e).sender.written
    rw [hwritten]
    exact hstep
  · intro x hx
    rw [hwritten] at hx
    exact (List.mem_append.mp hx).elim (h.sendable x) (hsendable x)
  · rw [hwritten, appMessages_append, appMessages_append, horder, List.append_assoc]

/-- What is left goes over to the new connection, and what was handed over comes before it. -/
theorem Link.Inv.finishHandshake (h : l.Inv cfg written) (hwhole : l.channel.sender.Whole)
    (hmax : 11 ≤ cfg.maxMsgSize) (mode : ConnMode) (addr : NetAddr) (nonce : ℕ) :
    (l.finishHandshake cfg mode addr nonce).Inv cfg written := by
  obtain ⟨done, horder, hpast⟩ := h.order
  set s := l.channel.sender
  -- the messages that have left the buffer
  obtain ⟨gone, hgone⟩ : ∃ gone, gone ++ s.unsent = s.written := ⟨_, List.take_append_drop ..⟩
  have hleft : s.sendBuffer.flatten = s.unsent.flatMap MsgBase.serialize := by
    rw [hwhole, List.flatMap_def]
  have hstream : l.channel.receiver.stream = gone.flatMap MsgBase.serialize := by
    have hbytes := h.channel.stream
    rw [← hgone, List.flatMap_append, hleft] at hbytes
    exact List.append_cancel_right hbytes
  have hhanded : l.channel.receiver.handed <+: gone := by
    have hgood : ∀ x ∈ gone, x.Sendable cfg := fun x hx => h.sendable x (by
      rw [← hgone]
      exact List.mem_append_left _ hx)
    exact h.channel.receiver.handed hgood ((List.append_nil _).trans hstream)
  have hsublist : (l.channel.receiver.handled ++ l.channel.receiver.incoming).Sublist gone :=
    (List.prefix_append ..).sublist.trans hhanded.sublist
  refine ⟨⟨inv_init, rfl, ?_⟩, ?_, done ++ appMessages gone, ?_, ?_⟩
  · show [] ++ [] ++ ((hello cfg mode addr nonce).map MsgBase.serialize ++ s.sendBuffer).flatten =
      (hello cfg mode addr nonce ++ s.unsent).flatMap MsgBase.serialize
    rw [List.flatten_append, hleft, List.flatMap_append, List.flatMap_def]
    rfl
  · intro x hx
    rcases List.mem_append.mp hx with hx | hx
    · exact hello_sendable cfg mode addr nonce hmax x hx
    · exact h.sendable x (List.mem_of_mem_drop hx)
  · show appMessages written = done ++ appMessages gone ++
      appMessages (hello cfg mode addr nonce ++ s.unsent)
    rw [horder, appMessages_append, appMessages_hello, ← hgone, appMessages_append, List.append_assoc]
    rfl
  · show (appMessages (l.past ++ _)).Sublist _
    rw [appMessages_append]
    exact hpast.append (hsublist.filter _)

theorem Link.inv_init : Link.Inv cfg .init [] :=
  ⟨Channel.inv_run cfg [], nofun, [], rfl, List.Sublist.refl _⟩

/-- By induction on the events, from any state that the invariant describes. -/
theorem Link.Inv.foldl (hmax : 11 ≤ cfg.maxMsgSize) {events : List LinkEvent} (h : l.Inv cfg written)
    (hsmall : ∀ opcode payload, LinkEvent.connection (.write opcode payload) ∈ events →
      payload.length < 2 ^ 32 ∧ payload.length ≤ cfg.maxMsgSize)
    (hclean : l.EndsClean cfg events) :
    Link.Inv cfg (events.foldl (Link.step cfg) l) (written ++ events.flatMap (LinkEvent.written cfg)) := by
  induction events generalizing l written with
  | nil =>
    rw [List.flatMap_nil, List.append_nil]
    exact h
  | cons e events ih =>
    have hlater := fun opcode payload hmem => hsmall opcode payload (List.mem_cons_of_mem e hmem)
    rw [List.flatMap_cons, ← List.append_assoc]
    refine ih ?_ hlater hclean.2
    cases e with
    | connection e =>
      refine h.connection fun x hx => ?_
      cases e with
      | write opcode payload =>
        obtain ⟨hword, hpayload⟩ := hsmall opcode payload List.mem_cons_self
        rw [List.mem_singleton.mp hx]
        exact MsgBase.ofPayload_sendable cfg opcode hword hpayload
      | _ => exact absurd hx List.not_mem_nil
    | reconnect mode addr nonce =>
      show Link.Inv cfg _ (written ++ [])
      rw [List.append_nil]
      exact h.finishHandshake hclean.1 hmax mode addr nonce

variable (cfg) in
/-- **Nothing is forged or doubled, and the order is kept**, over any number of connections, as long as
each of them ends between two messages: what is handed over is part of what was written. -/
theorem link_keeps_order (events : List LinkEvent) (hmax : 11 ≤ cfg.maxMsgSize)
    (hsmall : ∀ opcode payload, LinkEvent.connection (.write opcode payload) ∈ events →
      payload.length < 2 ^ 32 ∧ payload.length ≤ cfg.maxMsgSize)
    (hclean : Link.EndsClean cfg .init events) :
    (appMessages (Link.run cfg events).handed).Sublist
      (appMessages (events.flatMap (LinkEvent.written cfg))) := by
  have hinv := Link.inv_init.foldl hmax hsmall hclean
  rw [List.nil_append] at hinv
  obtain ⟨done, horder, hpast⟩ := hinv.order
  have hcurrent := (hinv.channel.handed hinv.sendable).1.sublist
  rw [horder, Link.handed, appMessages_append]
  exact hpast.append (hcurrent.filter _)

/-- SHA-1 on `abc`, on the heartbeat, on the handshake and on the message of `abc`. -/
def sha1OfPayload (payload : Text) : Vector UInt8 20 :=
  if payload = [97, 98, 99] then abcDigest
  else if payload = heartbeat then
    #v[0x5b, 0xa9, 0x3c, 0x9d, 0xb0, 0xcf, 0xf9, 0x3f, 0x52, 0xb5, 0x21, 0xd7, 0x42, 0x0e, 0x43, 0xf6, 0xed,
      0xa2, 0x78, 0x4f]
  else if payload = handshake ⟨0, 0⟩ 1 then
    #v[0x8e, 0x3b, 0xbf, 0x1f, 0xe0, 0x63, 0x2a, 0xfa, 0x53, 0xef, 0xc9, 0x42, 0x51, 0x84, 0x09, 0x22, 0x91,
      0x11, 0x83, 0x31]
  else
    #v[0xdd, 0x62, 0x06, 0xcf, 0xa3, 0x55, 0x46, 0x71, 0x3c, 0xa7, 0xd8, 0xf1, 0x17, 0xda, 0xfd, 0xe5, 0x79,
      0x54, 0x13, 0xf6]

/-- `abc` is written while the connection is down, and goes over the next one. -/
def carriedEvents : List LinkEvent :=
  [.connection (.write 1 [97, 98, 99]), .reconnect .passive ⟨0, 0⟩ 1,
    .connection (.sendable [.bytes 100, .bytes 100, .bytes 100]),
    .connection (.receive (.readable [.bytes 100] [true, true, true]))]

theorem link_keeps_order_carried :
    (appMessages (Link.run (defaultConfig sha1OfPayload) carriedEvents).handed).Sublist
      [.ofPayload (defaultConfig sha1OfPayload) 1 [97, 98, 99]] := by
  have hsmall : ∀ opcode payload, LinkEvent.connection (.write opcode payload) ∈ carriedEvents →
      payload.length < 2 ^ 32 ∧ payload.length ≤ (defaultConfig sha1OfPayload).maxMsgSize := by
    intro opcode payload hmem
    simp only [carriedEvents, List.mem_cons, LinkEvent.connection.injEq, Event.write.injEq, reduceCtorEq,
      List.not_mem_nil, or_false] at hmem
    rw [hmem.2]
    decide
  have hclean : Link.EndsClean (defaultConfig sha1OfPayload) .init carriedEvents :=
    ⟨trivial, by decide +kernel, trivial, trivial, trivial⟩
  exact link_keeps_order (defaultConfig sha1OfPayload) carriedEvents (by decide) hsmall hclean

/-! ### An end within a message -/

/-- A call of `send` for each segment takes it as a whole. -/
theorem sendLoop_whole {segs : List Text} (h : ∀ seg ∈ segs, seg ≠ []) :
    sendLoop (segs.map fun seg => .bytes seg.length) segs = (false, [], segs.flatten) := by
  induction segs with
  | nil => rfl
  | cons seg segs ih =>
    have hlength : seg.length ≠ 0 := mt List.eq_nil_of_length_eq_zero (h seg List.mem_cons_self)
    have hloop := ih fun seg' hseg' => h seg' (List.mem_cons_of_mem seg hseg')
    unfold sendLoop
    rw [if_neg hlength, List.map_cons]
    dsimp only
    rw [min_self, if_pos rfl, hloop]
    rfl

/-- A call of `send` takes a part of the first segment. -/
theorem sendLoop_part {seg : Text} {segs : List Text} {n : ℕ} (hpos : seg ≠ []) (hn : n < seg.length) :
    sendLoop [.bytes n] (seg :: segs) = (false, seg.drop n :: segs, seg.take n) := by
  have hlength : seg.length ≠ 0 := mt List.eq_nil_of_length_eq_zero hpos
  have hmin : min n seg.length = n := min_eq_left (Nat.le_of_lt hn)
  unfold sendLoop
  rw [if_neg hlength]
  dsimp only
  rw [hmin, if_neg (Nat.ne_of_lt hn)]

theorem MsgBase.serialize_ne_nil (msg : MsgBase) : msg.serialize ≠ [] := fun hnil =>
  msg.header_ne_nil (List.append_eq_nil_iff.mp hnil).1

variable (cfg) in
theorem sendable_fresh (c : Channel) {msgs : List MsgBase} (hlive : c.sender.terminated = false)
    (hbuffer : c.sender.sendBuffer = msgs.map MsgBase.serialize) (hreceiver : c.receiver = .init) :
    (c.step cfg (.sendable ((msgs.map MsgBase.serialize).map fun seg => .bytes seg.length))).receiver =
      { Receiver.init with socket := msgs.flatMap MsgBase.serialize } := by
  have hsegs : ∀ seg ∈ msgs.map MsgBase.serialize, seg ≠ [] := by
    intro seg hseg
    obtain ⟨msg, -, rfl⟩ := List.mem_map.mp hseg
    exact msg.serialize_ne_nil
  unfold Channel.step
  dsimp only
  rw [hlive, if_neg Bool.false_ne_true, hbuffer, sendLoop_whole hsegs, hreceiver, List.flatMap_def]
  rfl

theorem length_le_flatMap_serialize (msgs : List MsgBase) :
    msgs.length ≤ (msgs.flatMap MsgBase.serialize).length := by
  induction msgs with
  | nil => exact le_rfl
  | cons msg msgs ih =>
    have hpos := List.length_pos_of_ne_nil msg.serialize_ne_nil
    rw [List.flatMap_cons, List.length_append, List.length_cons]
    omega

/-- Messages that have arrived, and fit into one chunk, are read at once. -/
theorem readable_fresh {r : Receiver} {msgs : List MsgBase} (hmsgs : ∀ x ∈ msgs, x.Sendable cfg)
    (hne : msgs ≠ []) (hr : r = { Receiver.init with socket := msgs.flatMap MsgBase.serialize })
    (hroom : 0 < cfg.maxRecvBuffSize)
    (hchunk : (msgs.flatMap MsgBase.serialize).length < cfg.recvChunkSize) :
    (r.step cfg (.readable [.bytes (msgs.flatMap MsgBase.serialize).length]
      (List.replicate msgs.length true))).handed = msgs := by
  set bytes := msgs.flatMap MsgBase.serialize
  have hlength : msgs.length ≤ bytes.length := length_le_flatMap_serialize msgs
  have hpiece : bytes ≠ [] := by
    intro hnil
    rw [hnil] at hlength
    exact hne (List.eq_nil_of_length_eq_zero (Nat.le_zero.mp hlength))
  have hsocket : r.socket = bytes ++ [] := by
    rw [hr, List.append_nil]
  have hempty : r.recvBuffer.len < cfg.maxRecvBuffSize := by
    rw [hr]
    exact hroom
  have hbuffer : (r.recvBuffer.push bytes).bytes = bytes := by
    rw [SegBuffer.bytes_push, hr]
    rfl
  have hsize : msgs.length < (r.recvBuffer.push bytes).size + 2 := by
    rw [SegBuffer.size_eq_length, hbuffer]
    omega
  obtain ⟨hlive, hunmasked, hawake, hstate, hnothing⟩ : r.terminated = false ∧ r.readyRecv = false ∧
      r.msgSleep = false ∧ r.msgState = .header ∧ r.handled ++ r.incoming = [] := by
    rw [hr]
    exact ⟨rfl, rfl, rfl, rfl, rfl⟩
  obtain ⟨r', hloop, hall⟩ := readLoop_written (r := { r with
      socket := []
      received := r.received ++ bytes
      recvBuffer := r.recvBuffer.push bytes
      readyRecv := false }) hmsgs hstate hawake hbuffer hsize
  have hstep : r.step cfg (.readable [.bytes bytes.length] (List.replicate msgs.length true)) = r' := by
    unfold Receiver.step Receiver.recvData
    dsimp only
    rw [hlive, hunmasked, if_neg (by decide), recvLoop_piece hsocket hpiece hchunk hempty]
    unfold Receiver.onReadWith
    dsimp only
    rw [hawake] at hloop ⊢
    rw [if_neg Bool.false_ne_true, hloop]
    dsimp only
    rw [ite_self, Bool.or_false]
  rw [hstep, Receiver.handed_of_awake hall.awake, hall.same.handled, hall.incoming, ← List.append_assoc]
  show r.handled ++ r.incoming ++ msgs = msgs
  rw [hnothing]
  exact List.nil_append _

variable (cfg) in
/-- **A part of a payload may be handed over as a message.**  For every message `inner` that is short
enough there is a run in which a message is written whose payload is `inner` with its header; the connection
ends when just the header of the outer message has been sent; and after the reconnection `inner` is handed
over, although the outer message is all that was written. -/
theorem reconnect_forges (opcode outer : UInt8) (payload : Text) (mode : ConnMode) (addr : NetAddr)
    (nonce : ℕ) (hmax : 11 ≤ cfg.maxMsgSize) (hroom : 0 < cfg.maxRecvBuffSize)
    (hword : payload.length + headerSize < 2 ^ 32) (hsmall : payload.length + headerSize ≤ cfg.maxMsgSize)
    (hchunk : payload.length + 51 < cfg.recvChunkSize) :
    let inner := MsgBase.ofPayload cfg opcode payload
    ∃ events : List LinkEvent,
      events.flatMap (LinkEvent.written cfg) = [.ofPayload cfg outer inner.serialize] ∧
      inner ≠ .ofPayload cfg outer inner.serialize ∧ inner ∈ (Link.run cfg events).handed := by
  intro inner
  have hinner : inner.Sendable cfg :=
    MsgBase.ofPayload_sendable cfg opcode (by omega) (by omega)
  let wrapper := MsgBase.ofPayload cfg outer inner.serialize
  let msgs := hello cfg mode addr nonce ++ [inner]
  have hmsgs : ∀ x ∈ msgs, x.Sendable cfg := by
    intro x hx
    rcases List.mem_append.mp hx with hx | hx
    · exact hello_sendable cfg mode addr nonce hmax x hx
    · rw [List.mem_singleton.mp hx]
      exact hinner
  have hbytes : (msgs.flatMap MsgBase.serialize).length < cfg.recvChunkSize := by
    have hhello : ((hello cfg mode addr nonce).flatMap MsgBase.serialize).length = 38 := by
      cases mode <;> rfl
    have hlast : inner.serialize.length = 13 + payload.length := List.length_append
    rw [List.flatMap_append, List.length_append, hhello, List.flatMap_singleton, hlast]
    omega
  let sends : Event := .sendable ((msgs.map MsgBase.serialize).map fun seg => .bytes seg.length)
  let reads : Event := .receive (.readable [.bytes (msgs.flatMap MsgBase.serialize).length]
    (List.replicate msgs.length true))
  refine ⟨[.connection (.write outer inner.serialize), .connection (.sendable [.bytes headerSize]),
    .reconnect mode addr nonce, .connection sends, .connection reads], rfl, fun heq => ?_, ?_⟩
  · have hlength := congrArg (fun msg => msg.payload.length) heq
    have hlast : inner.serialize.length = 13 + payload.length := List.length_append
    rw [show (MsgBase.ofPayload cfg outer inner.serialize).payload = inner.serialize from rfl, hlast,
      show inner.payload = payload from rfl] at hlength
    omega
  -- the header of the outer message is sent
  have hcut : sendLoop [.bytes headerSize] [wrapper.serialize] =
      (false, [inner.serialize], wrapper.header) := by
    have hlong : headerSize < wrapper.serialize.length := by
      have hpos := List.length_pos_of_ne_nil inner.serialize_ne_nil
      rw [MsgBase.serialize, List.length_append, wrapper.length_header]
      exact Nat.lt_add_of_pos_right hpos
    rw [sendLoop_part wrapper.serialize_ne_nil hlong, MsgBase.serialize, ← wrapper.length_header,
      List.drop_left, List.take_left]
    rfl
  let cut : Link := ⟨[], Channel.step cfg ⟨⟨[wrapper.serialize], false, false, [wrapper]⟩, .init⟩
    (.sendable [.bytes headerSize])⟩
  have hleft : cut.channel.sender.sendBuffer = [inner.serialize] := by
    show (Channel.step cfg ⟨⟨[wrapper.serialize], false, false, [wrapper]⟩, .init⟩ _).sender.sendBuffer = _
    unfold Channel.step
    dsimp only
    rw [if_neg Bool.false_ne_true, hcut]
  -- and the new connection carries the rest of it after the handshake
  let new : Link := cut.finishHandshake cfg mode addr nonce
  have hbuffer : new.channel.sender.sendBuffer = msgs.map MsgBase.serialize := by
    show (hello cfg mode addr nonce).map MsgBase.serialize ++ cut.channel.sender.sendBuffer = _
    rw [hleft, List.map_append]
    rfl
  have hsent := sendable_fresh cfg new.channel rfl hbuffer rfl
  have hread := readable_fresh hmsgs (List.append_ne_nil_of_right_ne_nil _ (List.cons_ne_nil inner []))
    hsent hroom hbytes
  show inner ∈ new.past ++ ((new.channel.step cfg sends).step cfg reads).receiver.handed
  apply List.mem_append_right
  show inner ∈ ((new.channel.step cfg sends).receiver.step cfg _).handed
  rw [hread]
  exact List.mem_append_right _ (List.mem_singleton_self inner)

theorem reconnect_forges_abc :
    let inner := MsgBase.ofPayload (defaultConfig sha1OfPayload) 1 [97, 98, 99]
    ∃ events : List LinkEvent,
      events.flatMap (LinkEvent.written (defaultConfig sha1OfPayload)) =
        [.ofPayload (defaultConfig sha1OfPayload) 0x18 inner.serialize] ∧
      inner ≠ .ofPayload (defaultConfig sha1OfPayload) 0x18 inner.serialize ∧
      inner ∈ (Link.run (defaultConfig sha1OfPayload) events).handed :=
  reconnect_forges (defaultConfig sha1OfPayload) 1 0x18 [97, 98, 99] .active ⟨0, 0⟩ 1 (by decide) (by decide)
    (by decide) (by decide) (by decide)

end Raftel.Salticidae
