import Raftel.Text
import Mathlib.Algebra.Order.Ring.Int

/-!
# The replicated key-value application

`KVApp.cpp`: requests are decoded from the payload of a transaction and executed once per
(client, request) pair; the reply to a repeated request comes from a cache.  The store is the
in-process one (`execMemory`); Redis is a benchmark mode.

`replyTransactions` of `Handler.cpp` runs the executor over a block.  It walks all the slots of the
array, not only the first `size`.
-/

namespace Raftel

/-- A number that `int` can hold. -/
def FitsInt (v : ℤ) : Prop := -2 ^ 31 ≤ v ∧ v < 2 ^ 31

/-- It is determined by its four bytes. -/
theorem FitsInt.bmod_emod {v : ℤ} (hv : FitsInt v) : Int.bmod (v % 2 ^ 32) (2 ^ 32) = v := by
  obtain ⟨hlow, hhigh⟩ := hv
  have hmod : Int.bmod (v % 2 ^ 32) (2 ^ 32) = Int.bmod v (2 ^ 32) := Int.emod_bmod v (2 ^ 32)
  have hcast : ((2 ^ 32 : ℕ) : ℤ) = 2 ^ 32 := rfl
  rw [hmod]
  apply Int.bmod_eq_of_le_mul_two
  · rw [hcast]
    omega
  · rw [hcast]
    omega

/-- `AppRequest`; `op` is the raw byte of the operation. -/
structure AppRequest where
  op : UInt8
  key : Text
  value : Text
  clientId : ℤ
  reqId : ℤ
  deriving DecidableEq

/-- `ReplyStatus` -/
inductive ReplyStatus
  | ok
  | notFound
  | error
  deriving DecidableEq

/-- `AppReply` -/
structure AppReply where
  status : ReplyStatus
  value : Text
  delCount : ℕ
  deriving DecidableEq

/-- `AppReply()` -/
def AppReply.error : AppReply := ⟨.error, [], 0⟩

def opSet : UInt8 := 1
def opGet : UInt8 := 2
def opDel : UInt8 := 3

/-! ### Decoding -/

/-- `op(1) + reserved(1) + klen(2) + vlen(2) + cid(4) + rid(4)` -/
def headerBytes : ℕ := 14

/-- The byte at an offset of the payload. -/
def byteAt (buf : List UInt8) (off : ℕ) : ℕ := (buf.getD off 0).toNat

def getU16 (buf : List UInt8) (off : ℕ) : ℕ := byteAt buf off + byteAt buf (off + 1) * 2 ^ 8

/-- The four bytes as a signed number. -/
def getI32 (buf : List UInt8) (off : ℕ) : ℤ :=
  Int.bmod (byteAt buf off + byteAt buf (off + 1) * 2 ^ 8 + byteAt buf (off + 2) * 2 ^ 16
    + byteAt buf (off + 3) * 2 ^ 24) (2 ^ 32)

/-- `KVAppCodec::decode` -/
def decode (tx : Transaction) : Option AppRequest :=
  let buf := tx.data.toList
  let klen := getU16 buf 2
  let vlen := getU16 buf 4
  if klen + vlen > payloadSize - headerBytes then none
  else some
    { op := buf.getD 0 0
      key := (buf.drop headerBytes).take klen
      value := (buf.drop (headerBytes + klen)).take vlen
      clientId := getI32 buf 6
      reqId := getI32 buf 10 }

/-! ### Encoding -/

/-- A payload that is being filled. -/
abbrev PayloadBuffer := Vector UInt8 payloadSize

/-- The lowest byte of a number. -/
def byteOf (v : ℤ) : UInt8 := UInt8.ofNat (v % 2 ^ 8).toNat

def putU16 (buf : PayloadBuffer) (off : ℕ) (v : ℕ) : PayloadBuffer :=
  let buf := buf.setIfInBounds off (byteOf v)
  buf.setIfInBounds (off + 1) (byteOf (v / 2 ^ 8))

/-- The shift of a negative number rounds down. -/
def putI32 (buf : PayloadBuffer) (off : ℕ) (v : ℤ) : PayloadBuffer :=
  let buf := buf.setIfInBounds off (byteOf v)
  let buf := buf.setIfInBounds (off + 1) (byteOf (v / 2 ^ 8))
  let buf := buf.setIfInBounds (off + 2) (byteOf (v / 2 ^ 16))
  buf.setIfInBounds (off + 3) (byteOf (v / 2 ^ 24))

/-- The loop that copies a string, with the offset after it. -/
def putString (buf : PayloadBuffer) (off : ℕ) (str : Text) : PayloadBuffer × ℕ :=
  str.foldl (fun (buf, off) c => (buf.setIfInBounds off c, off + 1)) (buf, off)

/-- `KVAppCodec::encode`; the lengths are converted to 16 bits. -/
def encode (req : AppRequest) : Option PayloadBuffer :=
  let out : PayloadBuffer := Vector.replicate _ 0
  if req.key.length + req.value.length > payloadSize - headerBytes then none
  else
    let out := out.setIfInBounds 0 req.op
    let out := out.setIfInBounds 1 0
    let out := putU16 out 2 (req.key.length % 2 ^ 16)
    let out := putU16 out 4 (req.value.length % 2 ^ 16)
    let out := putI32 out 6 req.clientId
    let out := putI32 out 10 req.reqId
    let (out, off) := putString out headerBytes req.key
    let (out, _) := putString out off req.value
    some out

/-! ### Execution -/

/-- `std::to_string` on an `int`. -/
def intText (n : ℤ) : Text := if n < 0 then 45 :: natText n.natAbs else natText n.natAbs

/-- `dedupKey` -/
def dedupKey (clientId reqId : ℤ) : Text := intText clientId ++ [58] ++ intText reqId

/-- The state of a `KVAppExecutor`: its two maps. -/
structure KVAppExecutor where
  dedupCache : Text → Option AppReply
  memStore : Text → Option Text

def KVAppExecutor.init : KVAppExecutor := ⟨fun _ => none, fun _ => none⟩

def execMemory (kv : KVAppExecutor) (req : AppRequest) : AppReply × KVAppExecutor :=
  if req.op = opSet then
    (⟨.ok, [], 0⟩, { kv with memStore := Function.update kv.memStore req.key (some req.value) })
  else if req.op = opGet then
    match kv.memStore req.key with
    | none => (⟨.notFound, [], 0⟩, kv)
    | some value => (⟨.ok, value, 0⟩, kv)
  else if req.op = opDel then
    (⟨.ok, [], if (kv.memStore req.key).isSome then 1 else 0⟩,
      { kv with memStore := Function.update kv.memStore req.key none })
  else (AppReply.error, kv)

/-- `KVAppExecutor::execute` -/
def execute (kv : KVAppExecutor) (req : AppRequest) : AppReply × KVAppExecutor :=
  let key := dedupKey req.clientId req.reqId
  match kv.dedupCache key with
  | some rep => (rep, kv)
  | none =>
    let (rep, kv') := execMemory kv req
    (rep, { kv' with dedupCache := Function.update kv'.dedupCache key (some rep) })

/-! ### Replies -/

/-- What `replyTransactions` does: the requests it executes, in order, the replies it enqueues and
the executor it leaves. -/
structure Replies where
  executed : List AppRequest
  queue : List (TID × CID × AppReply)
  kv : KVAppExecutor

/-- The reply to one transaction that is not a dummy. -/
def replyTransaction (clients : CID → Bool) (r : Replies) (trans : Transaction) : Replies :=
  let (executed, appRep, kv) :=
    match decode trans with
    | some req =>
      let (appRep, kv) := execute r.kv req
      (r.executed ++ [req], appRep, kv)
    | none => (r.executed, AppReply.error, r.kv)
  let queue :=
    if clients trans.clientid then r.queue ++ [(trans.transid, trans.clientid, appRep)]
    else r.queue
  ⟨executed, queue, kv⟩

/-- `replyTransactions`: over all slots; transaction identifier 0 is a dummy. -/
def replyTransactions (clients : CID → Bool) (kv : KVAppExecutor)
    (transactions : Vector Transaction maxNumTransactions) : Replies :=
  transactions.toList.foldl
    (fun r trans => if trans.transid ≠ 0 then replyTransaction clients r trans else r) ⟨[], [], kv⟩

/-- `replyHash`: nothing happens unless a block with that hash is stored for the view. -/
def replyHash (sha : Text → Digest) (clients : CID → Bool) (kv : KVAppExecutor)
    (stored : Option Block) (hash : Hash) : Replies :=
  match stored with
  | some block =>
    if eqHashes (block.hash sha) hash then replyTransactions clients kv block.transactions
    else ⟨[], [], kv⟩
  | none => ⟨[], [], kv⟩

end Raftel
