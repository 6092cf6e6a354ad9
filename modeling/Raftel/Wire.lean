import Raftel.Lib.Codec
import Raftel.Message

/-!
# The wire format of the hybrid protocol

`serialize` and `unserialize` of the classes in `App/` and of the messages in `Message.h`.  Encoder and
decoder are written apart in the source, and so they are here: `serialize` gives the bytes that are
appended to a stream, `unserialize` reads from the front of one.

`salticidae::DataStream` is a parameter: how `<<` writes a primitive value and `>>` reads it back, and
`put_data` and `get_data_inplace` for raw bytes.  `Documented` says of it what the code relies on, and
`DataStream.littleEndian` is the stream that `stream.h` defines.
-/

namespace Raftel

/-- Reading from a stream of bytes; `none` when the stream is too short and `>>` throws. -/
abbrev ByteReader := Lib.Reader UInt8

/-- `salticidae::DataStream`, on the primitive values that are written. -/
structure DataStream where
  /-- `<<` on an `unsigned int` -/
  putWord : ℕ → Text
  /-- `>>` on an `unsigned int` -/
  getWord : ByteReader ℕ
  /-- `<<` on a `bool` -/
  putBool : Bool → Text
  /-- `>>` on a `bool` -/
  getBool : ByteReader Bool
  /-- `<<` on a `uint8_t` or an `unsigned char` -/
  putByte : UInt8 → Text
  /-- `>>` on a `uint8_t` or an `unsigned char` -/
  getByte : ByteReader UInt8
  /-- `put_data` on a `std::array` of bytes -/
  putData : {n : ℕ} → Vector UInt8 n → Text
  /-- `get_data_inplace(n)`, copied to an array of `n` bytes -/
  getDataInplace : (n : ℕ) → ByteReader (Vector UInt8 n)

/-- `>>` undoes `<<` on primitive values, and `get_data_inplace` undoes `put_data`. -/
structure DataStream.Documented (s : DataStream) : Prop where
  word : ∀ n < 2 ^ 32, Lib.Undoes s.getWord (s.putWord n) n
  bool : ∀ b, Lib.Undoes s.getBool (s.putBool b) b
  byte : ∀ b, Lib.Undoes s.getByte (s.putByte b) b
  data : ∀ {n : ℕ} (bytes : Vector UInt8 n), Lib.Undoes (s.getDataInplace n) (s.putData bytes) bytes

section Serialize

variable (s : DataStream)

/-! ### Hashes, votes and signatures -/

def Hash.serialize (h : Hash) : Text := s.putData h.hash ++ s.putBool h.set

def Hash.unserialize : ByteReader Hash := do
  let hash ← s.getDataInplace sha256DigestLength
  let set ← s.getBool
  pure ⟨hash, set⟩

def RData.serialize (d : RData) : Text :=
  d.proph.serialize s ++ (s.putWord d.propv ++ (d.justh.serialize s ++ (s.putWord d.justv ++
    s.putByte d.phase)))

def RData.unserialize : ByteReader RData := do
  let proph ← Hash.unserialize s
  let propv ← s.getWord
  let justh ← Hash.unserialize s
  let justv ← s.getWord
  let phase ← s.getByte
  pure ⟨proph, propv, justh, justv, phase⟩

def Sign.serialize (t : Sign) : Text :=
  s.putBool t.set ++ (s.putWord t.signer ++ Lib.writeArray s.putByte t.sign)

def Sign.unserialize : ByteReader Sign := do
  let set ← s.getBool
  let signer ← s.getWord
  let sign ← Lib.readArray s.getByte signLen
  pure ⟨set, signer, sign⟩

/-- All `MAX_NUM_SIGNATURES` slots are written, whatever the size. -/
def Signs.serialize (ss : Signs) : Text :=
  s.putWord ss.size ++ Lib.writeArray (Sign.serialize s) ss.signs

/-- The size is read as it comes. -/
def Signs.unserialize : ByteReader Signs := do
  let size ← s.getWord
  let signs ← Lib.readArray (Sign.unserialize s) maxNumSignatures
  pure ⟨size, signs⟩

def Accum.serialize (a : Accum) : Text :=
  s.putBool a.set ++ (s.putWord a.view ++ (s.putWord a.prepv ++ (a.hash.serialize s ++
    (s.putWord a.size ++ a.sign.serialize s))))

def Accum.unserialize : ByteReader Accum := do
  let set ← s.getBool
  let view ← s.getWord
  let prepv ← s.getWord
  let preph ← Hash.unserialize s
  let size ← s.getWord
  let sign ← Sign.unserialize s
  pure ⟨⟨set, view, prepv, preph, size⟩, sign⟩

/-! ### Blocks -/

def Transaction.serialize (t : Transaction) : Text :=
  s.putWord t.clientid ++ (s.putWord t.transid ++ s.putData t.data)

def Transaction.unserialize : ByteReader Transaction := do
  let clientid ← s.getWord
  let transid ← s.getWord
  let data ← s.getDataInplace payloadSize
  pure ⟨clientid, transid, data⟩

/-- All `MAX_NUM_TRANSACTIONS` slots are written, whatever the size. -/
def Block.serialize (b : Block) : Text :=
  s.putWord b.id ++ (s.putBool b.set ++ (b.prevHash.serialize s ++ (s.putWord b.size ++
    Lib.writeArray (Transaction.serialize s) b.transactions)))

/-- The size is read as it comes. -/
def Block.unserialize : ByteReader Block := do
  let id ← s.getWord
  let set ← s.getBool
  let prevHash ← Hash.unserialize s
  let size ← s.getWord
  let transactions ← Lib.readArray (Transaction.unserialize s) maxNumTransactions
  pure ⟨id, set, prevHash, size, transactions⟩

/-! ### The new-view proof -/

/-- The slot `i` of a proof: its vote, then its signature. -/
def NewViewProofComb.slots (p : NewViewProofComb) : Vector (RData × Sign) maxNumSignatures :=
  p.data.zip p.signs

def NewViewProofComb.serializeSlot (slot : RData × Sign) : Text :=
  slot.1.serialize s ++ slot.2.serialize s

def NewViewProofComb.unserializeSlot : ByteReader (RData × Sign) := do
  let data ← RData.unserialize s
  let sign ← Sign.unserialize s
  pure (data, sign)

def NewViewProofComb.serialize (p : NewViewProofComb) : Text :=
  s.putWord p.size ++ Lib.writeArray (NewViewProofComb.serializeSlot s) p.slots

/-- A size that exceeds the arrays is replaced by `0`. -/
def NewViewProofComb.normalise (p : NewViewProofComb) : NewViewProofComb :=
  if p.size > maxNumSignatures then { p with size := 0 } else p

def NewViewProofComb.unserialize : ByteReader NewViewProofComb := do
  let size ← s.getWord
  let slots ← Lib.readArray (NewViewProofComb.unserializeSlot s) maxNumSignatures
  pure (NewViewProofComb.normalise ⟨size, slots.map Prod.fst, slots.map Prod.snd⟩)

/-! ### The messages -/

def MsgNewViewComb.serialize (m : MsgNewViewComb) : Text := m.data.serialize s ++ m.sign.serialize s

def MsgNewViewComb.unserialize : ByteReader MsgNewViewComb := do
  let data ← RData.unserialize s
  let sign ← Sign.unserialize s
  pure ⟨data, sign⟩

def MsgLdrPrepareComb.serialize (m : MsgLdrPrepareComb) : Text :=
  m.acc.serialize s ++ (m.block.serialize s ++ (m.proof.serialize s ++ m.sign.serialize s))

def MsgLdrPrepareComb.unserialize : ByteReader MsgLdrPrepareComb := do
  let acc ← Accum.unserialize s
  let block ← Block.unserialize s
  let proof ← NewViewProofComb.unserialize s
  let sign ← Sign.unserialize s
  pure ⟨acc, block, proof, sign⟩

/-- The three messages of votes and certificates have the same format. -/
def MsgVoteComb.serialize (m : MsgVoteComb) : Text := m.data.serialize s ++ m.signs.serialize s

def MsgVoteComb.unserialize : ByteReader MsgVoteComb := do
  let data ← RData.unserialize s
  let signs ← Signs.unserialize s
  pure ⟨data, signs⟩

def MsgPrepareComb.serialize : MsgPrepareComb → Text := MsgVoteComb.serialize s
def MsgPrepareComb.unserialize : ByteReader MsgPrepareComb := MsgVoteComb.unserialize s
def MsgPreCommitComb.serialize : MsgPreCommitComb → Text := MsgVoteComb.serialize s
def MsgPreCommitComb.unserialize : ByteReader MsgPreCommitComb := MsgVoteComb.unserialize s
def MsgCommitComb.serialize : MsgCommitComb → Text := MsgVoteComb.serialize s
def MsgCommitComb.unserialize : ByteReader MsgCommitComb := MsgVoteComb.unserialize s

end Serialize

end Raftel
