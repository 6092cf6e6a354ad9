import Raftel.KVApp
import Raftel.Equiv.Wire

/-!
# The reply to a client

`MsgReply` of `Message.h`: the constructor that the handler of the reply queue calls, the format, and
what the client reads.  A reply holds at most `MAX_VALUE_SIZE` bytes of a value: the constructor and the
decoder both cut the size off there.

The format has two kinds of numbers that the other messages have not, so the stream is extended.
-/

namespace Raftel

/-- `salticidae::DataStream`, on the other numbers that a reply holds. -/
structure ReplyStream extends DataStream where
  /-- `<<` on a `uint16_t` -/
  putShort : ℕ → Text
  /-- `>>` on a `uint16_t` -/
  getShort : ByteReader ℕ
  /-- `<<` on an `int` -/
  putInt : ℤ → Text
  /-- `>>` on an `int` -/
  getInt : ByteReader ℤ

/-- `>>` undoes `<<` on these numbers too. -/
structure ReplyStream.Documented (s : ReplyStream) : Prop extends s.toDataStream.Documented where
  short : ∀ n < 2 ^ 16, Lib.Undoes s.getShort (s.putShort n) n
  int : ∀ v, FitsInt v → Lib.Undoes s.getInt (s.putInt v) v

/-- `MsgReply::MAX_VALUE_SIZE` -/
def maxValueSize : ℕ := 128

structure MsgReply where
  tid : TID
  status : UInt8
  delCount : ℤ
  valueSize : ℕ
  value : Vector UInt8 maxValueSize
  deriving DecidableEq

/-- The value of the enumeration. -/
def ReplyStatus.byte : ReplyStatus → UInt8
  | ok => 0
  | notFound => 1
  | error => 2

namespace MsgReply

/-- The constructor: the array is zero after the bytes that are copied. -/
def make (tid : TID) (status : UInt8) (delCount : ℤ) (valueStr : Text) : MsgReply :=
  let valueSize := min valueStr.length maxValueSize
  let value := Vector.ofFn fun i => if i.val < valueSize then valueStr.getD i.val 0 else 0
  ⟨tid, status, delCount, valueSize, value⟩

/-- The message that the handler of `rep_queue` builds from an entry. -/
def ofReply (tid : TID) (rep : AppReply) : MsgReply :=
  make tid rep.status.byte rep.delCount rep.value

def valueStr (m : MsgReply) : Text := m.value.toList.take m.valueSize

section Serialize

variable (s : ReplyStream)

def serialize (m : MsgReply) : Text :=
  s.putWord m.tid ++ (s.putByte m.status ++ (s.putInt m.delCount ++ (s.putShort m.valueSize ++
    s.putData m.value)))

/-- A size that exceeds the array is cut off. -/
def clamp (m : MsgReply) : MsgReply :=
  if m.valueSize > maxValueSize then { m with valueSize := maxValueSize } else m

def unserialize : ByteReader MsgReply := do
  let tid ← s.getWord
  let status ← s.getByte
  let delCount ← s.getInt
  let valueSize ← s.getShort
  let value ← s.getDataInplace maxValueSize
  pure (clamp ⟨tid, status, delCount, valueSize, value⟩)

end Serialize

theorem length_valueStr_le (m : MsgReply) : m.valueStr.length ≤ maxValueSize := by
  unfold valueStr
  rw [List.length_take, Vector.length_toList]
  exact Nat.min_le_right _ _

/-- The bytes of the value that fit. -/
theorem valueStr_make (tid : TID) (status : UInt8) (delCount : ℤ) (str : Text) :
    (make tid status delCount str).valueStr = str.take maxValueSize := by
  unfold make valueStr
  apply List.ext_getElem
  · simp [Nat.min_comm]
  · intro i h₁ h₂
    rw [List.length_take] at h₂
    have hstr : i < str.length := by omega
    simp [hstr]

variable {s : ReplyStream}

theorem undoes (hs : s.Documented) {m : MsgReply} (htid : m.tid < 2 ^ 32) (hdel : FitsInt m.delCount)
    (hsize : m.valueSize < 2 ^ 16) : Lib.Undoes (unserialize s) (m.serialize s) m.clamp := by
  apply (hs.word m.tid htid).bind
  apply (hs.byte m.status).bind
  apply (hs.int m.delCount hdel).bind
  apply (hs.short m.valueSize hsize).bind
  exact (hs.data m.value).map fun value =>
    clamp ⟨m.tid, m.status, m.delCount, m.valueSize, value⟩

/-- A reply that was constructed is read as it is. -/
theorem undoes_make (hs : s.Documented) {tid : TID} {status : UInt8} {delCount : ℤ} {str : Text}
    (htid : tid < 2 ^ 32) (hdel : FitsInt delCount) :
    Lib.Undoes (unserialize s) ((make tid status delCount str).serialize s)
      (make tid status delCount str) := by
  have hle : (make tid status delCount str).valueSize ≤ maxValueSize := Nat.min_le_right _ _
  have hlt : maxValueSize < 2 ^ 16 := by decide
  have h := undoes hs (m := make tid status delCount str) htid hdel (lt_of_le_of_lt hle hlt)
  rwa [clamp, if_neg (not_lt.mpr hle)] at h

end MsgReply

/-! ### The stream of the library -/

/-- `DataStream` of `stream.h` on these numbers: an `int` in two's complement, the lowest byte first. -/
def ReplyStream.littleEndian : ReplyStream where
  toDataStream := .littleEndian
  putShort n := [UInt8.ofNat n, UInt8.ofNat (n / 2 ^ 8)]
  getShort
    | b₀ :: b₁ :: rest => some (b₀.toNat + b₁.toNat * 2 ^ 8, rest)
    | _ => none
  putInt v := DataStream.littleEndian.putWord (v % 2 ^ 32).toNat
  getInt := do
    let n ← DataStream.littleEndian.getWord
    pure (Int.bmod n (2 ^ 32))

theorem ReplyStream.littleEndian_documented : ReplyStream.littleEndian.Documented where
  toDocumented := DataStream.littleEndian_documented
  short n hn rest := by
    show some (_, rest) = some (n, rest)
    simp only [UInt8.toNat_ofNat']
    congr 2
    omega
  int v hv := by
    have hcast : (((v % 2 ^ 32).toNat : ℕ) : ℤ) = v % 2 ^ 32 := Int.toNat_of_nonneg (by omega)
    have hbmod : Int.bmod (((v % 2 ^ 32).toNat : ℕ) : ℤ) (2 ^ 32) = v := by
      rw [hcast]
      exact hv.bmod_emod
    have h := (DataStream.littleEndian_documented.word (v % 2 ^ 32).toNat (by omega)).map
      fun n : ℕ => Int.bmod n (2 ^ 32)
    rwa [hbmod] at h

end Raftel
