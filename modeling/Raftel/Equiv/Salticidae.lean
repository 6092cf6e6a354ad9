import Raftel.Salticidae
import Raftel.Lib.Framing

/-!
# What a connection hands over

`framing` cuts a stream of bytes into frames, whatever the pieces in which it arrives: a message is one,
and the header of a message that is too long is one.  The receiver follows it: at every moment the messages
that were handed over are the frames that `received` begins with, less those headers and less the messages
whose checksum is wrong (`Receiver.Inv`).  Each event keeps this (`inv_step`).
-/

namespace Raftel.Salticidae

open Lib

/-! ### Headers -/

/-- The fields of the header are 32-bit numbers. -/
structure MsgBase.Fits (msg : MsgBase) : Prop where
  magic : msg.magic < 2 ^ 32
  length : msg.length < 2 ^ 32
  checksum : msg.checksum < 2 ^ 32

theorem MsgBase.length_header (msg : MsgBase) : msg.header.length = headerSize := rfl

/-- A header that was written is read back. -/
theorem MsgBase.ofHeader_header {msg : MsgBase} (h : msg.Fits) :
    Undoes MsgBase.ofHeader msg.header { msg with payload := [] } := by
  have hdoc := DataStream.littleEndian_documented
  exact (hdoc.word msg.magic h.magic).bind ((hdoc.byte msg.opcode).bind
    ((hdoc.word msg.length h.length).bind ((hdoc.word msg.checksum h.checksum).map _)))

/-- Four bytes are a number, which is written as these bytes. -/
theorem putWord_of_bytes (b₀ b₁ b₂ b₃ : UInt8) :
    b₀.toNat + b₁.toNat * 2 ^ 8 + b₂.toNat * 2 ^ 16 + b₃.toNat * 2 ^ 24 < 2 ^ 32 ∧
      stream.putWord (b₀.toNat + b₁.toNat * 2 ^ 8 + b₂.toNat * 2 ^ 16 + b₃.toNat * 2 ^ 24) =
        [b₀, b₁, b₂, b₃] := by
  have h₀ := b₀.toNat_lt
  have h₁ := b₁.toNat_lt
  have h₂ := b₂.toNat_lt
  have h₃ := b₃.toNat_lt
  refine ⟨by omega, ?_⟩
  have hbyte : ∀ (n : ℕ) (b : UInt8), n % 2 ^ 8 = b.toNat → UInt8.ofNat n = b := by
    intro n b h
    apply UInt8.toNat_inj.mp
    rw [UInt8.toNat_ofNat', h]
  show [_, _, _, _] = [_, _, _, _]
  rw [hbyte _ b₀ (by omega), hbyte _ b₁ (by omega), hbyte _ b₂ (by omega), hbyte _ b₃ (by omega)]

/-- Bytes of the length of a header are one. -/
theorem MsgBase.exists_ofHeader (bytes : Text) (h : bytes.length = headerSize) :
    ∃ msg, MsgBase.ofHeader.run bytes = some (msg, []) ∧ msg.header = bytes ∧ msg.payload = [] ∧
      msg.Fits := by
  match bytes, h with
  | [m₀, m₁, m₂, m₃, op, l₀, l₁, l₂, l₃, c₀, c₁, c₂, c₃], _ =>
    obtain ⟨hmagic, hputm⟩ := putWord_of_bytes m₀ m₁ m₂ m₃
    obtain ⟨hlength, hputl⟩ := putWord_of_bytes l₀ l₁ l₂ l₃
    obtain ⟨hchecksum, hputc⟩ := putWord_of_bytes c₀ c₁ c₂ c₃
    refine ⟨_, rfl, ?_, rfl, ⟨hmagic, hlength, hchecksum⟩⟩
    unfold header
    rw [hputm, hputl, hputc]
    rfl

/-! ### Frames -/

section Frames

variable (cfg : Config)

/-- The first frame of a stream, and what follows it.  Of a message that is too long only the header is
cut off: the bytes of its payload are read as headers. -/
def nextFrame (b : Text) : Option (MsgBase × Text) :=
  if b.length < headerSize then none
  else
    (MsgBase.ofHeader.run (b.take headerSize)).bind fun header =>
      let rest := b.drop headerSize
      if header.1.length > cfg.maxMsgSize then some (header.1, rest)
      else if rest.length < header.1.length then none
      else some (header.1.setPayload (rest.take header.1.length), rest.drop header.1.length)

/-- The stream begins with a header. -/
theorem nextFrame_header {msg : MsgBase} (h : msg.Fits) (hpayload : msg.payload = []) (b : Text) :
    nextFrame cfg (msg.header ++ b) =
      if msg.length > cfg.maxMsgSize then some (msg, b)
      else if b.length < msg.length then none
      else some (msg.setPayload (b.take msg.length), b.drop msg.length) := by
  have hread : MsgBase.ofHeader.run msg.header = some (msg, []) := by
    have hrun := MsgBase.ofHeader_header h []
    rw [List.append_nil] at hrun
    rw [hrun, ← hpayload]
  unfold nextFrame
  rw [List.length_append, msg.length_header, if_neg (by omega), ← msg.length_header,
    List.take_left, List.drop_left, hread]
  rfl

variable {cfg}

/-- A frame begins with a header. -/
theorem exists_header {b : Text} (hlen : ¬ b.length < headerSize) :
    ∃ header : MsgBase, b = header.header ++ b.drop headerSize ∧ header.payload = [] ∧ header.Fits := by
  obtain ⟨header, -, hheader, hpayload, hfits⟩ := MsgBase.exists_ofHeader
    (b.take headerSize) (by rw [List.length_take]; omega)
  refine ⟨header, ?_, hpayload, hfits⟩
  rw [hheader, List.take_append_drop]

theorem nextFrame_short {b : Text} (hlen : b.length < headerSize) : nextFrame cfg b = none := by
  unfold nextFrame
  rw [if_pos hlen]

variable (cfg) in
/-- Frames are cut off a stream. -/
def framing : Framing UInt8 MsgBase where
  next := nextFrame cfg
  next_append := by
    intro b msg r c h
    by_cases hlen : b.length < headerSize
    · rw [nextFrame_short hlen] at h
      cases h
    · obtain ⟨header, hb, hpayload, hfits⟩ := exists_header hlen
      rw [hb, nextFrame_header cfg hfits hpayload] at h
      rw [hb, List.append_assoc, nextFrame_header cfg hfits hpayload]
      split at h
      · next hlong =>
        rw [Option.some.injEq, Prod.mk.injEq] at h
        rw [if_pos hlong, h.1, h.2]
      · next hshort =>
        rw [if_neg hshort]
        split at h
        · cases h
        · next hrest =>
          rw [Option.some.injEq, Prod.mk.injEq] at h
          rw [if_neg (by rw [List.length_append]; omega), List.take_append_of_le_length (by omega),
            List.drop_append_of_le_length (by omega), h.1, h.2]
  next_nil := rfl

/-- What `_send_msg` writes is a frame. -/
theorem nextFrame_serialize {msg : MsgBase} (h : msg.Fits) (hlen : msg.length = msg.payload.length)
    (hsmall : msg.length ≤ cfg.maxMsgSize) (rest : Text) :
    nextFrame cfg (msg.serialize ++ rest) = some (msg, rest) := by
  -- the header does not depend on the payload
  have hnext := nextFrame_header cfg (show MsgBase.Fits { msg with payload := [] } from
    ⟨h.magic, h.length, h.checksum⟩) rfl (msg.payload ++ rest)
  unfold MsgBase.serialize
  rw [List.append_assoc]
  refine Eq.trans hnext ?_
  dsimp only
  rw [if_neg (by omega), if_neg (by rw [List.length_append]; omega), hlen, List.take_left, List.drop_left,
    Option.some.injEq, Prod.mk.injEq]
  refine ⟨?_, rfl⟩
  have hmod : msg.payload.length % 2 ^ 32 = msg.length := by
    rw [← hlen]
    exact Nat.mod_eq_of_lt h.length
  unfold MsgBase.setPayload
  rw [hmod]

end Frames

/-! ### Buffers -/

namespace SegBuffer

variable (b : SegBuffer) (n : ℕ)

theorem size_eq_length : b.size = b.bytes.length := b.size_eq

theorem pop_fst : (b.pop n).1 = b.bytes.take n := (popFrom_eq b.buffer n).1

theorem bytes_pop : (b.pop n).2.bytes = b.bytes.drop n := (popFrom_eq b.buffer n).2

theorem bytes_push (data : Text) : (b.push data).bytes = b.bytes ++ data := by
  simp [bytes, push]

theorem len_push (data : Text) : (b.push data).len = b.len + 1 := by simp [len, push]

end SegBuffer

/-! ### The loop that reads messages -/

/-- The bytes of the stream from which no message has been taken yet. -/
def Receiver.pending (r : Receiver) : Text :=
  match r.msgState with
  | .header => r.recvBuffer.bytes
  | .payload => r.msg.header ++ r.recvBuffer.bytes

/-- The messages that the dispatcher has got, those in the queue and the one that waits. -/
def Receiver.handed (r : Receiver) : List MsgBase :=
  r.handled ++ r.incoming ++ if r.msgSleep then [r.msg] else []

/-- While the receiver is awake, no message waits. -/
theorem Receiver.handed_of_awake {r : Receiver} (hawake : r.msgSleep = false) :
    r.handed = r.handled ++ r.incoming := by
  rw [Receiver.handed, hawake]
  exact List.append_nil _

/-- The bytes of the stream that have arrived. -/
def Receiver.stream (r : Receiver) : Text := r.received ++ r.socket

/-- The step leaves the socket, the events and what the dispatcher has got. -/
structure Receiver.Same (r r' : Receiver) : Prop where
  socket : r'.socket = r.socket
  received : r'.received = r.received
  readyRecv : r'.readyRecv = r.readyRecv
  terminating : r'.terminating = r.terminating
  terminated : r'.terminated = r.terminated
  handled : r'.handled = r.handled

theorem Receiver.Same.trans {r r' r'' : Receiver} (h : r.Same r') (h' : r'.Same r'') : r.Same r'' :=
  ⟨h'.socket.trans h.socket, h'.received.trans h.received, h'.readyRecv.trans h.readyRecv,
    h'.terminating.trans h.terminating, h'.terminated.trans h.terminated, h'.handled.trans h.handled⟩

section Spec

variable (cfg : Config)

/-- A message that is not too long and whose checksum is right. -/
def MsgBase.accepted (msg : MsgBase) : Bool := msg.length ≤ cfg.maxMsgSize && msg.verifyChecksum cfg

/-- None of the frames is a header without its payload. -/
def Small (xs : List MsgBase) : Prop := ∀ x ∈ xs, x.length ≤ cfg.maxMsgSize

/-- Everything has been read in its place: the frames `xs` have been cut off the stream, and those that are
accepted were handed over. -/
structure Receiver.Read (r : Receiver) (xs : List MsgBase) : Prop where
  parses : Parses (framing cfg) r.received xs r.pending
  handed : r.handed = xs.filter (MsgBase.accepted cfg)
  header : r.msgState = .payload →
    r.msg.Fits ∧ r.msg.payload = [] ∧ r.msg.length ≤ cfg.maxMsgSize

variable {cfg} {r : Receiver} {xs : List MsgBase}

theorem Small.append {ys : List MsgBase} (h : Small cfg xs) (h' : Small cfg ys) : Small cfg (xs ++ ys) :=
  List.forall_mem_append.mpr ⟨h, h'⟩

theorem filter_refused {x : MsgBase} (h : x.accepted cfg = false) :
    (xs ++ [x]).filter (MsgBase.accepted cfg) = xs.filter (MsgBase.accepted cfg) := by
  rw [List.filter_append, List.filter_singleton, h]
  exact List.append_nil _

theorem filter_accepted {x : MsgBase} (h : x.accepted cfg = true) :
    (xs ++ [x]).filter (MsgBase.accepted cfg) = xs.filter (MsgBase.accepted cfg) ++ [x] := by
  rw [List.filter_append, List.filter_singleton, h]
  rfl

/-- What the first half of the loop does. -/
theorem readHeader_spec (h : r.Read cfg xs) (hawake : r.msgSleep = false) :
    match r.readHeader cfg with
    | (none, r') => r'.Read cfg xs ∧ r.Same r' ∧ r'.msgSleep = false ∧ r'.msgState = .payload ∧
        (r.msgState = .header → r'.recvBuffer.size + headerSize = r.recvBuffer.size) ∧
        r'.recvBuffer.size ≤ r.recvBuffer.size
    | (some .broke, r') => r' = r ∧ nextFrame cfg r.pending = none
    | (some .threw, r') => r.Same r' ∧ ∃ x, r'.Read cfg (xs ++ [x])
    | (some .slept, _) => False := by
  unfold Receiver.readHeader
  cases hstate : r.msgState with
  | payload => exact ⟨h, ⟨rfl, rfl, rfl, rfl, rfl, rfl⟩, hawake, hstate, nofun, le_rfl⟩
  | header =>
    have hpending : r.pending = r.recvBuffer.bytes := by
      unfold Receiver.pending
      rw [hstate]
    have hsize := r.recvBuffer.size_eq_length
    dsimp only
    by_cases hlen : r.recvBuffer.size < headerSize
    · rw [if_pos hlen]
      exact ⟨rfl, nextFrame_short (by rw [hpending]; omega)⟩
    · obtain ⟨msg, hrun, hheader, hpayload, hfits⟩ := MsgBase.exists_ofHeader
        (r.recvBuffer.pop headerSize).1 (by
          rw [SegBuffer.pop_fst, List.length_take]
          omega)
      have hhanded : ∀ r' : Receiver, r'.handled = r.handled → r'.incoming = r.incoming →
          r'.msgSleep = false → r'.handed = xs.filter (MsgBase.accepted cfg) := by
        intro r' hhandled hincoming hsleep
        rw [← h.handed, Receiver.handed_of_awake hsleep, Receiver.handed_of_awake hawake, hhandled, hincoming]
      -- the header is at the front of what is pending
      have hsame : msg.header ++ (r.recvBuffer.pop headerSize).2.bytes = r.pending := by
        rw [hheader, SegBuffer.pop_fst, SegBuffer.bytes_pop, List.take_append_drop, hpending]
      rw [if_neg hlen, hrun]
      dsimp only
      by_cases hbig : msg.length > cfg.maxMsgSize
      · rw [if_pos hbig]
        have hnext : nextFrame cfg r.pending = some (msg, (r.recvBuffer.pop headerSize).2.bytes) := by
          rw [← hsame, nextFrame_header cfg hfits hpayload, if_pos hbig]
        have hrefused : msg.accepted cfg = false := by
          unfold MsgBase.accepted
          rw [decide_eq_false (Nat.not_le.mpr hbig), Bool.false_and]
        refine ⟨⟨rfl, rfl, rfl, rfl, rfl, rfl⟩, msg, ?_, ?_, nofun⟩
        · have hparses := h.parses.concat (F := framing cfg) hnext
          exact hparses
        · rw [filter_refused hrefused]
          exact hhanded _ rfl rfl hawake
      · rw [if_neg hbig]
        have hleft : (r.recvBuffer.pop headerSize).2.size + headerSize = r.recvBuffer.size := by
          rw [SegBuffer.size_eq_length, SegBuffer.bytes_pop, List.length_drop]
          omega
        refine ⟨⟨?_, hhanded _ rfl rfl hawake, fun _ => ⟨hfits, hpayload, Nat.le_of_not_lt hbig⟩⟩,
          ⟨rfl, rfl, rfl, rfl, rfl, rfl⟩, hawake, rfl, fun _ => hleft, ?_⟩
        · show Parses (framing cfg) r.received xs (msg.header ++ (r.recvBuffer.pop headerSize).2.bytes)
          rw [hsame]
          exact h.parses
        · show (r.recvBuffer.pop headerSize).2.size ≤ r.recvBuffer.size
          omega

/-- What the second half does. -/
theorem readPayload_spec (h : r.Read cfg xs) (hawake : r.msgSleep = false)
    (hstate : r.msgState = .payload) (accepts : List Bool) :
    match r.readPayload cfg accepts with
    | (none, _, r') => ∃ x, r'.Read cfg (xs ++ [x]) ∧ x.length ≤ cfg.maxMsgSize ∧ r.Same r' ∧
        r'.msgSleep = false ∧ r'.msgState = .header ∧ r'.recvBuffer.size ≤ r.recvBuffer.size
    | (some .broke, _, r') => r.Same r' ∧ r'.msgSleep = false ∧
        ((r'.Read cfg xs ∧ nextFrame cfg r'.pending = none) ∨
          ∃ x, r'.Read cfg (xs ++ [x]) ∧ x.length ≤ cfg.maxMsgSize ∧ x.verifyChecksum cfg = false)
    | (some .slept, _, r') => ∃ x, r'.Read cfg (xs ++ [x]) ∧ x.length ≤ cfg.maxMsgSize ∧ r.Same r' ∧
        r'.msgSleep = true
    | (some .threw, _) => False := by
  obtain ⟨hfits, hpayload, hsmall⟩ := h.header hstate
  have hpending : r.pending = r.msg.header ++ r.recvBuffer.bytes := by
    unfold Receiver.pending
    rw [hstate]
  have hsize := r.recvBuffer.size_eq_length
  have hnext := nextFrame_header cfg hfits hpayload r.recvBuffer.bytes
  rw [← hpending, ← hsize, if_neg (Nat.not_lt.mpr hsmall)] at hnext
  unfold Receiver.readPayload
  by_cases hlen : r.recvBuffer.size < r.msg.length
  · rw [if_pos hlen] at hnext ⊢
    exact ⟨⟨rfl, rfl, rfl, rfl, rfl, rfl⟩, hawake, Or.inl ⟨h, hnext⟩⟩
  · rw [if_neg hlen] at hnext ⊢
    dsimp only
    rw [SegBuffer.pop_fst]
    -- the message is the next frame
    have hparses := h.parses.concat (F := framing cfg) hnext
    have hshort : (r.msg.setPayload (r.recvBuffer.bytes.take r.msg.length)).length ≤ cfg.maxMsgSize := by
      refine Nat.le_trans (Nat.mod_le _ _) (Nat.le_trans ?_ hsmall)
      rw [List.length_take]
      exact min_le_left ..
    have hhanded : r.handled ++ r.incoming = xs.filter (MsgBase.accepted cfg) :=
      (Receiver.handed_of_awake hawake).symm.trans h.handed
    have hleft : (r.recvBuffer.pop r.msg.length).2.size ≤ r.recvBuffer.size := by
      rw [SegBuffer.size_eq_length, SegBuffer.bytes_pop, List.length_drop]
      omega
    have hrest : (r.recvBuffer.pop r.msg.length).2.bytes = r.recvBuffer.bytes.drop r.msg.length :=
      SegBuffer.bytes_pop ..
    rw [← hrest] at hparses
    cases hok : (r.msg.setPayload (r.recvBuffer.bytes.take r.msg.length)).verifyChecksum cfg with
    | false =>
      have hrefused : (r.msg.setPayload (r.recvBuffer.bytes.take r.msg.length)).accepted cfg = false := by
        unfold MsgBase.accepted
        rw [hok, Bool.and_false]
      rw [Bool.not_false, if_pos rfl]
      refine ⟨⟨rfl, rfl, rfl, rfl, rfl, rfl⟩, hawake, Or.inr ⟨_, ⟨hparses, ?_, nofun⟩, hshort, hok⟩⟩
      rw [filter_refused hrefused, ← hhanded]
      exact Receiver.handed_of_awake hawake
    | true =>
      have haccepted : (r.msg.setPayload (r.recvBuffer.bytes.take r.msg.length)).accepted cfg = true := by
        unfold MsgBase.accepted
        rw [hok, Bool.and_true]
        exact decide_eq_true hshort
      rw [Bool.not_true, if_neg Bool.false_ne_true]
      rcases accepts with _ | ⟨_ | _, accepts⟩
      case cons.true =>
        refine ⟨_, ⟨hparses, ?_, nofun⟩, hshort, ⟨rfl, rfl, rfl, rfl, rfl, rfl⟩, hawake, rfl, hleft⟩
        rw [filter_accepted haccepted, ← hhanded, List.append_assoc]
        exact Receiver.handed_of_awake hawake
      -- the queue has no room
      all_goals
        refine ⟨_, ⟨hparses, ?_, nofun⟩, hshort, ⟨rfl, rfl, rfl, rfl, rfl, rfl⟩, rfl⟩
        rw [filter_accepted haccepted, ← hhanded, Receiver.handed]
        rfl

variable (cfg) in
/-- Nothing more can be read: unless a wrong checksum has stopped the loop, no frame is left. -/
def Receiver.Drained (r : Receiver) (xs : List MsgBase) : Prop :=
  (∀ x ∈ xs, x.verifyChecksum cfg = true) → nextFrame cfg r.pending = none

variable (cfg) in
/-- What holds when the loop ends: it stopped for want of bytes or after a wrong checksum, or a message
waits, or a header announced too long a message. -/
def LoopEnd (xs : List MsgBase) (r : Receiver) : ReadEnd → Prop
  | .broke => ∃ ys, r.Read cfg (xs ++ ys) ∧ Small cfg ys ∧ r.msgSleep = false ∧ r.Drained cfg (xs ++ ys)
  | .slept => ∃ ys, r.Read cfg (xs ++ ys) ∧ Small cfg ys ∧ r.msgSleep = true
  | .threw => ∃ ys, r.Read cfg (xs ++ ys)

/-- A round comes before the others. -/
theorem LoopEnd.cons {x : MsgBase} (hx : x.length ≤ cfg.maxMsgSize) {stop : ReadEnd}
    (h : LoopEnd cfg (xs ++ [x]) r stop) : LoopEnd cfg xs r stop := by
  have hone : Small cfg [x] := List.forall_mem_singleton.mpr hx
  cases stop with
  | broke =>
    obtain ⟨ys, hread, hsmall, hrest⟩ := h
    rw [List.append_assoc] at hread hrest
    exact ⟨[x] ++ ys, hread, hone.append hsmall, hrest⟩
  | slept =>
    obtain ⟨ys, hread, hsmall, hrest⟩ := h
    rw [List.append_assoc] at hread
    exact ⟨[x] ++ ys, hread, hone.append hsmall, hrest⟩
  | threw =>
    obtain ⟨ys, hread⟩ := h
    rw [List.append_assoc] at hread
    exact ⟨[x] ++ ys, hread⟩

/-- By induction on the rounds; each one but the first takes a header off the buffer. -/
theorem readLoop_spec (fuel : ℕ) (accepts : List Bool) (h : r.Read cfg xs) (hawake : r.msgSleep = false)
    (hfuel : r.recvBuffer.size + (if r.msgState = .payload then 1 else 0) < fuel) :
    r.Same (r.readLoop cfg fuel accepts).2.2 ∧
      LoopEnd cfg xs (r.readLoop cfg fuel accepts).2.2 (r.readLoop cfg fuel accepts).1 := by
  induction fuel generalizing accepts r xs with
  | zero => omega
  | succ fuel ih =>
    have hheader := readHeader_spec h hawake
    unfold Receiver.readLoop
    rcases heq : r.readHeader cfg with ⟨_ | stop, r₁⟩
    · rw [heq] at hheader
      obtain ⟨hread, hsame, hawake₁, hstate, htaken, hle⟩ := hheader
      have hpayload := readPayload_spec hread hawake₁ hstate accepts
      dsimp only
      rcases heq₂ : r₁.readPayload cfg accepts with ⟨_ | stop, accepts', r₂⟩
      · -- a message was handed over, and the buffer is shorter by its header
        rw [heq₂] at hpayload
        obtain ⟨x, hread₂, hx, hsame₂, hawake₂, hstate₂, hle₂⟩ := hpayload
        have hless : r₂.recvBuffer.size < fuel := by
          cases hr : r.msgState with
          | header =>
            have hhead := htaken hr
            unfold headerSize at hhead
            omega
          | payload =>
            rw [hr, if_pos rfl] at hfuel
            omega
        obtain ⟨hsame₃, hend⟩ := ih accepts' hread₂ hawake₂ (by
          rw [hstate₂, if_neg nofun]
          exact hless)
        exact ⟨(hsame.trans hsame₂).trans hsame₃, hend.cons hx⟩
      · rw [heq₂] at hpayload
        cases stop with
        | broke =>
          obtain ⟨hsame₂, hawake₂, ⟨hread₂, hnext⟩ | ⟨x, hread₂, hx, hbad⟩⟩ := hpayload
          · refine ⟨hsame.trans hsame₂, [], ?_, nofun, hawake₂, fun _ => hnext⟩
            rw [List.append_nil]
            exact hread₂
          · refine ⟨hsame.trans hsame₂, [x], hread₂, List.forall_mem_singleton.mpr hx, hawake₂,
              fun hall => ?_⟩
            have hgood := hall x (List.mem_append_right _ (List.mem_singleton_self x))
            exact absurd (hbad.symm.trans hgood) Bool.false_ne_true
        | slept =>
          obtain ⟨x, hread₂, hx, hsame₂, hsleep⟩ := hpayload
          exact ⟨hsame.trans hsame₂, [x], hread₂, List.forall_mem_singleton.mpr hx, hsleep⟩
        | threw => exact hpayload.elim
    · rw [heq] at hheader
      cases stop with
      | broke =>
        obtain ⟨rfl, hnext⟩ := hheader
        refine ⟨⟨rfl, rfl, rfl, rfl, rfl, rfl⟩, [], ?_, nofun, hawake, fun _ => hnext⟩
        rw [List.append_nil]
        exact h
      | slept => exact hheader.elim
      | threw =>
        obtain ⟨hsame, x, hread⟩ := hheader
        exact ⟨hsame, [x], hread⟩

/-! ### Events -/

variable (cfg) in
/-- Awake and not masked, the receiver has read what there is. -/
def Receiver.Quiet (r : Receiver) (xs : List MsgBase) : Prop :=
  r.msgSleep = false → r.readyRecv = false → r.Drained cfg xs

variable (cfg) in
/-- The invariant of a receiver: everything is read in its place.  Until `worker_terminate` is called no
message was too long, and what there is has been read. -/
def Receiver.Inv (r : Receiver) : Prop :=
  ∃ xs, r.Read cfg xs ∧ (r.terminating = false → Small cfg xs ∧ r.Quiet cfg xs)

variable (cfg) in
/-- What a callback does that reads on: the frames `xs` were read before.  No byte is lost, and if nothing is
thrown and `worker_terminate` not called, the new frames are no headers without their payload. -/
structure Receiver.After (r : Receiver) (xs : List MsgBase) (threw : Bool) (r' : Receiver) : Prop where
  stream : r'.stream = r.stream
  read : ∃ ys, r'.Read cfg (xs ++ ys) ∧ (threw = false → r'.terminating = false →
    r.terminating = false ∧ Small cfg ys ∧ r'.Quiet cfg (xs ++ ys))

theorem Receiver.Same.stream {r r' : Receiver} (h : r.Same r') : r'.stream = r.stream := by
  unfold Receiver.stream
  rw [h.received, h.socket]

/-- Nothing is read that was not read before. -/
theorem Receiver.Read.after {threw : Bool} {r' : Receiver} (h : r'.Read cfg xs)
    (hstream : r'.stream = r.stream) (hquiet : threw = false → r'.terminating = false →
      r.terminating = false ∧ r'.Quiet cfg xs) : r.After cfg xs threw r' := by
  refine ⟨hstream, [], ?_, fun hthrew hterm => ?_⟩
  · rw [List.append_nil]
    exact h
  · rw [List.append_nil]
    obtain ⟨hlive, hquiet⟩ := hquiet hthrew hterm
    exact ⟨hlive, nofun, hquiet⟩

theorem Receiver.quiet_of_asleep (hsleep : r.msgSleep = true) : r.Quiet cfg xs :=
  fun hawake => absurd (hawake.symm.trans hsleep) Bool.false_ne_true

theorem Receiver.quiet_of_masked (hmasked : r.readyRecv = true) : r.Quiet cfg xs :=
  fun _ hready => absurd (hready.symm.trans hmasked) Bool.false_ne_true

/-- The loop comes before what is called to go on. -/
theorem Receiver.After.of_same {r' r'' : Receiver} {ys : List MsgBase} {threw : Bool}
    (h : r'.After cfg (xs ++ ys) threw r'') (hsame : r.Same r') (hsmall : Small cfg ys) :
    r.After cfg xs threw r'' := by
  obtain ⟨zs, hread, hquiet⟩ := h.read
  rw [List.append_assoc] at hread hquiet
  refine ⟨h.stream.trans hsame.stream, ys ++ zs, hread, fun hthrew hterm => ?_⟩
  obtain ⟨hlive, hzs, hrest⟩ := hquiet hthrew hterm
  exact ⟨hsame.terminating.symm.trans hlive, hsmall.append hzs, hrest⟩

/-- `on_read`, with what it calls to go on. -/
theorem after_onReadWith (recvData : List Bool → Receiver → Bool × Receiver) (accepts : List Bool)
    (hresume : r.readyRecv = true → ∀ accepts r' ys, Receiver.Read cfg r' ys →
      r'.After cfg ys (recvData accepts r').1 (recvData accepts r').2) (h : r.Read cfg xs) :
    r.After cfg xs (r.onReadWith cfg recvData accepts).1 (r.onReadWith cfg recvData accepts).2 := by
  unfold Receiver.onReadWith
  cases hsleep : r.msgSleep with
  | true =>
    rw [if_pos rfl]
    exact h.after rfl fun _ hterm => ⟨hterm, Receiver.quiet_of_asleep hsleep⟩
  | false =>
    rw [if_neg Bool.false_ne_true]
    obtain ⟨hsame, hend⟩ := readLoop_spec (r.recvBuffer.size + 2) accepts h hsleep
      (by split <;> omega)
    rcases hloop : r.readLoop cfg (r.recvBuffer.size + 2) accepts with ⟨stop, accepts', r'⟩
    rw [hloop] at hsame hend
    cases stop with
    | broke =>
      obtain ⟨ys, hread, hsmall, -, hdrained⟩ := hend
      dsimp only
      split
      · next hcond =>
        rw [Bool.and_eq_true] at hcond
        exact (hresume (hsame.readyRecv.symm.trans hcond.1) accepts' r' _ hread).of_same hsame hsmall
      · exact ⟨hsame.stream, ys, hread, fun _ hterm =>
          ⟨hsame.terminating.symm.trans hterm, hsmall, fun _ _ => hdrained⟩⟩
    | slept =>
      obtain ⟨ys, hread, hsmall, hasleep⟩ := hend
      exact ⟨hsame.stream, ys, hread, fun _ hterm =>
        ⟨hsame.terminating.symm.trans hterm, hsmall, Receiver.quiet_of_asleep hasleep⟩⟩
    | threw =>
      obtain ⟨ys, hread⟩ := hend
      exact ⟨hsame.stream, ys, hread, nofun⟩

/-- A chunk goes from the socket to the buffer. -/
theorem Receiver.Read.push (h : r.Read cfg xs) (socket seg : Text) :
    Receiver.Read cfg { r with
      socket := socket
      received := r.received ++ seg
      recvBuffer := r.recvBuffer.push seg } xs := by
  have hpending : Receiver.pending { r with
      socket := socket
      received := r.received ++ seg
      recvBuffer := r.recvBuffer.push seg } = r.pending ++ seg := by
    unfold Receiver.pending
    cases r.msgState with
    | header => exact SegBuffer.bytes_push ..
    | payload =>
      dsimp only
      rw [SegBuffer.bytes_push, List.append_assoc]
  refine ⟨?_, h.handed, h.header⟩
  rw [hpending]
  exact h.parses.append seg

theorem recvLoop_spec (results : List RecvResult) (h : r.Read cfg xs) :
    Receiver.Read cfg (r.recvLoop cfg results).2 xs ∧
      (r.recvLoop cfg results).2.terminating = r.terminating ∧
      (r.recvLoop cfg results).2.stream = r.stream := by
  induction results generalizing r with
  | nil =>
    unfold Receiver.recvLoop
    split <;> exact ⟨h, rfl, rfl⟩
  | cons result results ih =>
    unfold Receiver.recvLoop
    split
    · exact ⟨h, rfl, rfl⟩
    · cases result with
      | wouldBlock => exact ⟨h, rfl, rfl⟩
      | closed => exact ⟨h, rfl, rfl⟩
      | bytes n =>
        dsimp only
        split
        · exact ⟨h, rfl, rfl⟩
        · have hstream : ∀ k, r.received ++ r.socket.take k ++ r.socket.drop (r.socket.take k).length =
              r.stream := by
            intro k
            rw [List.append_assoc, List.length_take]
            by_cases hk : k ≤ r.socket.length
            · rw [min_eq_left hk, List.take_append_drop]
              rfl
            · rw [min_eq_right (by omega), List.take_of_length_le (by omega), List.drop_length,
                List.append_nil]
              rfl
          split
          · obtain ⟨hread, hterm, hloop⟩ := ih (h.push _ _)
            exact ⟨hread, hterm, hloop.trans (hstream _)⟩
          · exact ⟨h.push _ _, rfl, hstream _⟩

/-- `_recv_data` calls `on_read` on a socket that is not masked. -/
theorem after_recvData (results : List RecvResult) (accepts : List Bool) (h : r.Read cfg xs) :
    r.After cfg xs (r.recvData cfg results accepts).1 (r.recvData cfg results accepts).2 := by
  obtain ⟨hread, hsame, hstream⟩ := recvLoop_spec results h
  unfold Receiver.recvData
  rcases hloop : r.recvLoop cfg results with ⟨stop, r'⟩
  rw [hloop] at hread hsame hstream
  have hset : ∀ ready, Receiver.Read cfg { r' with readyRecv := ready } xs := fun ready =>
    ⟨hread.parses, hread.handed, hread.header⟩
  cases stop with
  | full =>
    exact (hset true).after hstream fun _ hterm =>
      ⟨hsame.symm.trans hterm, Receiver.quiet_of_masked rfl⟩
  | closed =>
    have hclosed : Receiver.Read cfg { r' with terminating := true } xs :=
      ⟨hread.parses, hread.handed, hread.header⟩
    exact hclosed.after hstream fun _ hterm => nomatch hterm
  | drained =>
    -- so it has no reason to resume
    have hafter := after_onReadWith (fun _ r => (false, r)) accepts
      (fun hmasked => absurd hmasked Bool.false_ne_true) (hset false)
    obtain ⟨ys, hread', hquiet⟩ := hafter.read
    exact ⟨hafter.stream.trans hstream, ys, hread', fun hthrew hterm =>
      ⟨hsame.symm.trans (hquiet hthrew hterm).1, (hquiet hthrew hterm).2⟩⟩

theorem after_onRead (results : List RecvResult) (accepts : List Bool) (h : r.Read cfg xs) :
    r.After cfg xs (r.onRead cfg results accepts).1 (r.onRead cfg results accepts).2 :=
  after_onReadWith _ _ (fun _ accepts _ _ hread => after_recvData results accepts hread) h

/-- The message that has waited comes into the queue first. -/
theorem after_enqueuePoll (results : List RecvResult) (accepts : List Bool) (hsleep : r.msgSleep = true)
    (h : r.Read cfg xs) :
    r.After cfg xs (r.enqueuePoll cfg results accepts).1 (r.enqueuePoll cfg results accepts).2 := by
  unfold Receiver.enqueuePoll
  split
  · next accepts =>
    have hhanded : Receiver.handed { r with
        incoming := r.incoming ++ [r.msg], msgSleep := false } = r.handed := by
      unfold Receiver.handed
      simp [hsleep]
    have hread : Receiver.Read cfg { r with
        incoming := r.incoming ++ [r.msg], msgSleep := false } xs :=
      ⟨h.parses, hhanded.trans h.handed, h.header⟩
    obtain ⟨hstream, hafter⟩ := after_onRead results accepts hread
    exact ⟨hstream, hafter⟩
  · exact h.after rfl fun _ hterm => ⟨hterm, Receiver.quiet_of_asleep hsleep⟩

/-- What was thrown ends in a call of `worker_terminate`, or ends the process. -/
theorem Receiver.After.inv {r' : Receiver} {threw : Bool} (h : r.After cfg xs threw r')
    (hsmall : r.terminating = false → Small cfg xs) (terminated : Bool) :
    Receiver.Inv cfg { r' with terminating := r'.terminating || threw, terminated := terminated } := by
  obtain ⟨ys, hread, hquiet⟩ := h.read
  refine ⟨xs ++ ys, ⟨hread.parses, hread.handed, hread.header⟩, fun hterm => ?_⟩
  obtain ⟨hterm, hthrew⟩ := Bool.or_eq_false_iff.mp hterm
  obtain ⟨hlive, hys, hrest⟩ := hquiet hthrew hterm
  exact ⟨(hsmall hlive).append hys, hrest⟩

/-- The bytes that an event brings. -/
def RecvEvent.arrived : RecvEvent → Text
  | arrive bytes => bytes
  | _ => []

/-- **The invariant is kept** by every event, whatever the peer sends, and no byte is lost. -/
theorem inv_step (h : r.Inv cfg) (e : RecvEvent) :
    (r.step cfg e).Inv cfg ∧ (r.step cfg e).stream = r.stream ++ e.arrived := by
  have hnone : r.stream = r.stream ++ [] := (List.append_nil _).symm
  have hinv := h
  obtain ⟨xs, hread, hquiet⟩ := h
  have hsmall : r.terminating = false → Small cfg xs := fun hterm => (hquiet hterm).1
  cases e with
  | arrive bytes =>
    exact ⟨⟨xs, ⟨hread.parses, hread.handed, hread.header⟩, hquiet⟩, (List.append_assoc _ _ _).symm⟩
  | readable results accepts =>
    unfold Receiver.step
    dsimp only
    split
    · exact ⟨hinv, hnone⟩
    · have hafter := after_recvData results accepts hread
      exact ⟨hafter.inv hsmall _, hafter.stream.trans hnone⟩
  | poll results accepts =>
    unfold Receiver.step
    dsimp only
    split
    · exact ⟨hinv, hnone⟩
    · next hcond =>
      rw [Bool.or_eq_true, not_or, Bool.not_eq_true, Bool.not_eq_true, Bool.not_eq_false'] at hcond
      have hafter := after_enqueuePoll results accepts hcond.2 hread
      exact ⟨hafter.inv hsmall _, hafter.stream.trans hnone⟩
  | dispatch =>
    unfold Receiver.step
    dsimp only
    split
    · exact ⟨hinv, hnone⟩
    · next msg incoming hincoming =>
      have hhanded : Receiver.handed { r with
          incoming := incoming, handled := r.handled ++ [msg] } = r.handed := by
        unfold Receiver.handed
        rw [hincoming]
        simp
      exact ⟨⟨xs, ⟨hread.parses, hhanded.trans hread.handed, hread.header⟩, hquiet⟩, hnone⟩
  | terminate => exact ⟨⟨xs, ⟨hread.parses, hread.handed, hread.header⟩, nofun⟩, hnone⟩
  | teardown => exact ⟨⟨xs, ⟨hread.parses, hread.handed, hread.header⟩, hquiet⟩, hnone⟩

theorem inv_init : Receiver.Inv cfg .init :=
  ⟨[], ⟨.nil [], rfl, nofun⟩, fun _ => ⟨nofun, fun _ _ _ => nextFrame_short (by decide)⟩⟩

end Spec

end Raftel.Salticidae
