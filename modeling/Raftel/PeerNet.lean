import Raftel.Salticidae
import Raftel.Chained
import Raftel.HotStuff
import Raftel.Damysus

/-!
# The messages of the builds

The formats of the messages that the chained, the HotStuff and the Damysus builds exchange, and what
`Handler` registers with `pnet` and `cnet`: for each opcode the constructor that reads a message of that
kind from the payload.  Bytes of the payload that the constructor does not read are not noticed.
-/

namespace Raftel

section Serialize

variable (s : DataStream)

/-! ### Certificates and chained blocks -/

def Cert.serialize (c : Cert) : Text := s.putWord c.view ++ (c.hash.serialize s ++ c.signs.serialize s)

def Cert.unserialize : ByteReader Cert := do
  let view ← s.getWord
  let hash ← Hash.unserialize s
  let signs ← Signs.unserialize s
  pure ⟨view, hash, signs⟩

/-- The tag comes first: `CERT` or `ACCUM`. -/
def CA.serialize : CA → Text
  | .cert c => s.putByte 0x0 ++ c.serialize s
  | .accum a => s.putByte 0x1 ++ a.serialize s

/-- A tag that is not `CERT` is taken for `ACCUM`. -/
def CA.unserialize : ByteReader CA := do
  let tag ← s.getByte
  if tag = 0x0 then
    let c ← Cert.unserialize s
    pure (.cert c)
  else
    let a ← Accum.unserialize s
    pure (.accum a)

def CBlock.serialize (b : CBlock) : Text :=
  s.putBool b.set ++ (s.putBool b.executed ++ (s.putWord b.view ++ (b.cert.serialize s ++
    (s.putWord b.size ++ Lib.writeArray (Transaction.serialize s) b.trans))))

def CBlock.unserialize : ByteReader CBlock := do
  let set ← s.getBool
  let executed ← s.getBool
  let view ← s.getWord
  let cert ← CA.unserialize s
  let size ← s.getWord
  let trans ← Lib.readArray (Transaction.unserialize s) maxNumTransactions
  pure ⟨set, executed, view, cert, size, trans⟩

/-! ### Justifications and proposals -/

def Just.serialize (j : Just) : Text := s.putBool j.set ++ (j.rdata.serialize s ++ j.signs.serialize s)

def Just.unserialize : ByteReader Just := do
  let set ← s.getBool
  let rdata ← RData.unserialize s
  let signs ← Signs.unserialize s
  pure ⟨set, rdata, signs⟩

def HotStuff.Proposal.serialize (p : HotStuff.Proposal) : Text := p.just.serialize s ++ p.block.serialize s

def HotStuff.Proposal.unserialize : ByteReader HotStuff.Proposal := do
  let just ← Just.unserialize s
  let block ← Block.unserialize s
  pure ⟨just, block⟩

/-! ### Proposals of leaders and chained votes -/

def MsgPrepareChComb.serialize (m : MsgPrepareChComb) : Text := m.data.serialize s ++ m.sign.serialize s

def MsgPrepareChComb.unserialize : ByteReader MsgPrepareChComb := do
  let data ← RData.unserialize s
  let sign ← Sign.unserialize s
  pure ⟨data, sign⟩

def Chained.MsgLdrPrepareChComb.serialize (m : Chained.MsgLdrPrepareChComb) : Text :=
  m.block.serialize s ++ m.sign.serialize s

def Chained.MsgLdrPrepareChComb.unserialize : ByteReader Chained.MsgLdrPrepareChComb := do
  let block ← CBlock.unserialize s
  let sign ← Sign.unserialize s
  pure ⟨block, sign⟩

def HotStuff.MsgLdrPrepare.serialize (m : HotStuff.MsgLdrPrepare) : Text :=
  m.prop.serialize s ++ m.signs.serialize s

def HotStuff.MsgLdrPrepare.unserialize : ByteReader HotStuff.MsgLdrPrepare := do
  let prop ← HotStuff.Proposal.unserialize s
  let signs ← Signs.unserialize s
  pure ⟨prop, signs⟩

def Damysus.MsgLdrPrepareDamysus.serialize (m : Damysus.MsgLdrPrepareDamysus) : Text :=
  m.acc.serialize s ++ (m.block.serialize s ++ m.sign.serialize s)

def Damysus.MsgLdrPrepareDamysus.unserialize : ByteReader Damysus.MsgLdrPrepareDamysus := do
  let acc ← Accum.unserialize s
  let block ← Block.unserialize s
  let sign ← Sign.unserialize s
  pure ⟨acc, block, sign⟩

/-! ### Messages of clients -/

structure MsgTransaction where
  trans : Transaction
  sign : Sign
  deriving DecidableEq

structure MsgStart where
  cid : CID
  sign : Sign
  deriving DecidableEq

def MsgTransaction.serialize (m : MsgTransaction) : Text := m.trans.serialize s ++ m.sign.serialize s

def MsgTransaction.unserialize : ByteReader MsgTransaction := do
  let trans ← Transaction.unserialize s
  let sign ← Sign.unserialize s
  pure ⟨trans, sign⟩

def MsgStart.serialize (m : MsgStart) : Text := s.putWord m.cid ++ m.sign.serialize s

def MsgStart.unserialize : ByteReader MsgStart := do
  let cid ← s.getWord
  let sign ← Sign.unserialize s
  pure ⟨cid, sign⟩

inductive ClientMsg
  | transaction (msg : MsgTransaction)
  | start (msg : MsgStart)
  deriving DecidableEq

end Serialize

/-! ### Opcodes and handlers -/

open Salticidae

/-- The kinds of messages that are registered with a network. -/
structure Kinds (Msg : Type) where
  opcode : Msg → UInt8
  /-- `serialized` -/
  serialize : Msg → Text
  /-- `handler_map` -/
  handlerMap : List (UInt8 × ByteReader Msg)

/-- `reg_handler`: the payload is read by the constructor of the message. -/
def regHandler {α Msg : Type} (opcode : UInt8) (mk : α → Msg) (read : ByteReader α) :
    UInt8 × ByteReader Msg :=
  (opcode, do
    let msg ← read
    pure (mk msg))

/-- `send_msg`: `Msg(msg, msg_magic)` -/
def Kinds.pack {Msg : Type} (k : Kinds Msg) (cfg : Salticidae.Config) (msg : Msg) : MsgBase :=
  .ofPayload cfg (k.opcode msg) (k.serialize msg)

/-- What the dispatcher makes of a message: nothing when its opcode is unknown or the payload is too
short. -/
def Kinds.unpack {Msg : Type} (k : Kinds Msg) (msg : MsgBase) : Option Msg :=
  (k.handlerMap.lookup msg.opcode).bind fun read => (read.run msg.payload).map Prod.fst

/-- `BASIC_HYBRID_TEE` -/
def combKinds : Kinds Msg where
  opcode
    | .newview _ => 0x9
    | .ldrprepare _ => 0x10
    | .prepare _ => 0x11
    | .precommit _ => 0x12
    | .commit _ => 0x37
  serialize
    | .newview m => m.serialize stream
    | .ldrprepare m => m.serialize stream
    | .prepare m => MsgPrepareComb.serialize stream m
    | .precommit m => MsgPreCommitComb.serialize stream m
    | .commit m => MsgCommitComb.serialize stream m
  handlerMap := [
    regHandler 0x9 .newview (MsgNewViewComb.unserialize stream),
    regHandler 0x10 .ldrprepare (MsgLdrPrepareComb.unserialize stream),
    regHandler 0x11 .prepare (MsgPrepareComb.unserialize stream),
    regHandler 0x12 .precommit (MsgPreCommitComb.unserialize stream),
    regHandler 0x37 .commit (MsgCommitComb.unserialize stream)]

/-- The messages of the two chained builds, which differ in their opcodes. -/
def chKinds (newview ldrprepare prepare : UInt8) : Kinds Chained.Msg where
  opcode
    | .newview _ => newview
    | .ldrprepare _ => ldrprepare
    | .prepare _ => prepare
  serialize
    | .newview m => m.serialize stream
    | .ldrprepare m => m.serialize stream
    | .prepare m => m.serialize stream
  handlerMap := [
    regHandler newview .newview (MsgNewViewComb.unserialize stream),
    regHandler prepare .prepare (MsgPrepareChComb.unserialize stream),
    regHandler ldrprepare .ldrprepare (Chained.MsgLdrPrepareChComb.unserialize stream)]

/-- `CHAINED_HYBRID_TEE` -/
def chCombKinds : Kinds Chained.Msg := chKinds 0x24 0x25 0x26

/-- `CHAINED_ACHILLES` -/
def achillesChKinds : Kinds Chained.Msg := chKinds 0x3D 0x3E 0x3F

/-- `BASIC_HOTSTUFF` -/
def hotstuffKinds : Kinds HotStuff.Msg where
  opcode
    | .newview _ => 0x0
    | .ldrprepare _ => 0x2
    | .prepare _ => 0x1
    | .precommit _ => 0x3
    | .commit _ => 0x4
  serialize
    | .newview m => m.serialize stream
    | .ldrprepare m => m.serialize stream
    | .prepare m => m.serialize stream
    | .precommit m => m.serialize stream
    | .commit m => m.serialize stream
  handlerMap := [
    regHandler 0x0 .newview (MsgVoteComb.unserialize stream),
    regHandler 0x1 .prepare (MsgVoteComb.unserialize stream),
    regHandler 0x2 .ldrprepare (HotStuff.MsgLdrPrepare.unserialize stream),
    regHandler 0x3 .precommit (MsgVoteComb.unserialize stream),
    regHandler 0x4 .commit (MsgVoteComb.unserialize stream)]

/-- `BASIC_DAMYSUS` -/
def damysusKinds : Kinds Damysus.Msg where
  opcode
    | .newview _ => 0x38
    | .ldrprepare _ => 0x39
    | .prepare _ => 0x3A
    | .precommit _ => 0x3B
    | .commit _ => 0x3C
  serialize
    | .newview m => m.serialize stream
    | .ldrprepare m => m.serialize stream
    | .prepare m => m.serialize stream
    | .precommit m => m.serialize stream
    | .commit m => m.serialize stream
  handlerMap := [
    regHandler 0x38 .newview (MsgNewViewComb.unserialize stream),
    regHandler 0x39 .ldrprepare (Damysus.MsgLdrPrepareDamysus.unserialize stream),
    regHandler 0x3A .prepare (MsgVoteComb.unserialize stream),
    regHandler 0x3B .precommit (MsgVoteComb.unserialize stream),
    regHandler 0x3C .commit (MsgVoteComb.unserialize stream)]

/-- `cnet` -/
def clientKinds : Kinds ClientMsg where
  opcode
    | .transaction _ => 0x18
    | .start _ => 0x20
  serialize
    | .transaction m => m.serialize stream
    | .start m => m.serialize stream
  handlerMap := [
    regHandler 0x18 .transaction (MsgTransaction.unserialize stream),
    regHandler 0x20 .start (MsgStart.unserialize stream)]

end Raftel
