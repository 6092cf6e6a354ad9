import Raftel.Safety.ClientIsolation
import Raftel.Equiv.KVApp
import Raftel.Reply

/-!
# A value on its way to a client

A `SET` is encoded in a payload, decoded and executed by a replica; a later `GET` of the key finds the
value in the store as long as no other write to the key takes effect, and its reply is sent in a
`MsgReply`.  The payload and the store hold values of up to 1086 bytes, the reply cuts them off after
`MAX_VALUE_SIZE`.

* `read_your_write` : the client gets the first bytes of the value, as many as fit into a reply
* `not_read_your_write` : a value that the request path accepts and the client does not get back
-/

namespace Raftel

variable {calls : List ReplyCall}

/-! ### The writes that take effect -/

/-- The transaction at a position is executed for the first time with its pair of identifiers. -/
def EffectiveAt (calls : List ReplyCall) (j : Fin (executedTransactions calls).length)
    (req : AppRequest) : Prop :=
  decode ((executedTransactions calls).get j).trans = some req ∧
    ∀ k < j, ∀ req', decode ((executedTransactions calls).get k).trans = some req' → req'.ids ≠ req.ids

/-- The operation may change the value of the key. -/
def AppRequest.Writes (req : AppRequest) (key : Text) : Prop :=
  (req.op = opSet ∨ req.op = opDel) ∧ req.key = key

/-- A request that takes effect goes to the store, and its result into the queue. -/
theorem EffectiveAt.step {j : Fin (executedTransactions calls).length} {req : AppRequest}
    (h : EffectiveAt calls j req) :
    (repliesBefore calls (j + 1)).kv.memStore =
        (Store.exec (repliesBefore calls j).kv.memStore req).2 ∧
      (repliesBefore calls (j + 1)).queue = (repliesBefore calls j).queue ++
        ((executedTransactions calls).get j).entries
          (Store.exec (repliesBefore calls j).kv.memStore req).1 := by
  obtain ⟨hdecode, hfirst⟩ := h
  have hfresh := (dedupCache_eq_none calls j req).mpr hfirst
  have hstep : repliesBefore calls (j + 1) =
      (repliesBefore calls j).transaction ((executedTransactions calls).get j) :=
    repliesBefore_succ j.isLt
  rw [hstep, transaction_of_some hdecode, execute_of_fresh hfresh]
  exact ⟨rfl, rfl⟩

/-- No other transaction changes the store. -/
theorem memStore_of_not_effective {j : Fin (executedTransactions calls).length}
    (h : ∀ req, ¬ EffectiveAt calls j req) :
    (repliesBefore calls (j + 1)).kv.memStore = (repliesBefore calls j).kv.memStore := by
  have hstep : repliesBefore calls (j + 1) =
      (repliesBefore calls j).transaction ((executedTransactions calls).get j) :=
    repliesBefore_succ j.isLt
  rw [hstep]
  cases hdecode : decode ((executedTransactions calls).get j).trans with
  | none => rw [transaction_of_none hdecode]
  | some req =>
    cases hcache : (repliesBefore calls j).kv.dedupCache req.dedupKey with
    | none => exact absurd ⟨hdecode, (dedupCache_eq_none calls j req).mp hcache⟩ (h req)
    | some rep => rw [transaction_of_some hdecode, execute_of_cached hcache]

/-- The value of a key is kept by an operation that does not write it. -/
theorem exec_of_not_writes {store : Store} {req : AppRequest} {key : Text}
    (h : ¬ req.Writes key) : (store.exec req).2 key = store key := by
  unfold AppRequest.Writes at h
  rcases op_cases req.op with hop | hop | hop | ⟨hset, hget, hdel⟩
  · have hkey : key ≠ req.key := fun heq => h ⟨Or.inl hop, heq.symm⟩
    rw [Store.exec_set hop]
    exact Function.update_of_ne hkey ..
  · cases hkey : store req.key with
    | none => rw [Store.exec_get_of_none hop hkey]
    | some value => rw [Store.exec_get_of_some hop hkey]
  · have hkey : key ≠ req.key := fun heq => h ⟨Or.inr hop, heq.symm⟩
    rw [Store.exec_del hop]
    exact Function.update_of_ne hkey ..
  · rw [Store.exec_other hset hget hdel]

/-- A step without an effective write to the key. -/
theorem memStore_step {j : Fin (executedTransactions calls).length} {key : Text}
    (h : ∀ req, EffectiveAt calls j req → ¬ req.Writes key) :
    (repliesBefore calls (j + 1)).kv.memStore key = (repliesBefore calls j).kv.memStore key := by
  by_cases heff : ∃ req, EffectiveAt calls j req
  · obtain ⟨req, hreq⟩ := heff
    rw [hreq.step.1, exec_of_not_writes (h req hreq)]
  · rw [memStore_of_not_effective (not_exists.mp heff)]

/-- **The last write stays.** -/
theorem memStore_of_last_write {i n : Fin (executedTransactions calls).length} {req : AppRequest}
    (hin : i < n) (hset : EffectiveAt calls i req) (hop : req.op = opSet)
    (hlast : ∀ j, i < j → j < n → ∀ req', EffectiveAt calls j req' → ¬ req'.Writes req.key) :
    (repliesBefore calls n).kv.memStore req.key = some req.value := by
  suffices h : ∀ m : ℕ, (i : ℕ) + 1 ≤ m → m ≤ n →
      (repliesBefore calls m).kv.memStore req.key = some req.value from
    h n hin le_rfl
  intro m hm
  induction m, hm using Nat.le_induction with
  | base =>
    intro _
    rw [hset.step.1, Store.exec_set hop]
    exact Function.update_self ..
  | succ m hm ih =>
    intro hmn
    have hlength : m < (executedTransactions calls).length := (Nat.lt_of_succ_le hmn).trans n.isLt
    have hstep := memStore_step (j := ⟨m, hlength⟩) (hlast ⟨m, hlength⟩ hm hmn)
    exact hstep.trans (ih (Nat.le_of_succ_le hmn))

/-! ### The reply -/

/-- **The reply to the `GET`** that is enqueued. -/
theorem queue_of_get {i n : Fin (executedTransactions calls).length} {set get : AppRequest}
    (hin : i < n) (hset : EffectiveAt calls i set) (hsetop : set.op = opSet)
    (hlast : ∀ j, i < j → j < n → ∀ req', EffectiveAt calls j req' → ¬ req'.Writes set.key)
    (hget : EffectiveAt calls n get) (hgetop : get.op = opGet) (hkey : get.key = set.key) :
    (repliesBefore calls (n + 1)).queue = (repliesBefore calls n).queue ++
      ((executedTransactions calls).get n).entries ⟨.ok, set.value, 0⟩ := by
  have hvalue := memStore_of_last_write hin hset hsetop hlast
  rw [← hkey] at hvalue
  rw [hget.step.2, Store.exec_get_of_some hgetop hvalue]

/-- What the client reads from the stream when the reply is sent to it. -/
def Arrives (s : ReplyStream) (tid : TID) (rep : AppReply) (status : ReplyStatus) (value : Text) :
    Prop :=
  ∀ rest, ∃ m, (MsgReply.unserialize s).run ((MsgReply.ofReply tid rep).serialize s ++ rest) =
    some (m, rest) ∧ m.tid = tid ∧ m.status = status.byte ∧ m.valueStr = value

theorem arrives_ofReply {s : ReplyStream} (hs : s.Documented) {tid : TID} (htid : tid < 2 ^ 32)
    (value : Text) : Arrives s tid ⟨.ok, value, 0⟩ .ok (value.take maxValueSize) := by
  intro rest
  have hdel : FitsInt 0 := ⟨by decide, by decide⟩
  refine ⟨_, MsgReply.undoes_make hs htid hdel rest, rfl, rfl, ?_⟩
  exact MsgReply.valueStr_make ..

/-- Reading a value back: for every history in which a transaction with the encoding of a `SET` takes
effect, the transactions after it that take effect do not write the key, and then a `GET` of the key is
executed, the client gets status `OK` and what is `shown` of the value. -/
def ReadYourWrite (s : ReplyStream) (shown : Text → Text) : Prop :=
  ∀ (calls : List ReplyCall) (i n : Fin (executedTransactions calls).length) (set get : AppRequest),
    set.op = opSet → FitsInt set.clientId → FitsInt set.reqId →
    encode set = some ((executedTransactions calls).get i).trans.data →
    (∀ k < i, ∀ req', decode ((executedTransactions calls).get k).trans = some req' →
      req'.ids ≠ set.ids) →
    i < n →
    (∀ j, i < j → j < n → ∀ req', EffectiveAt calls j req' → ¬ req'.Writes set.key) →
    EffectiveAt calls n get → get.op = opGet → get.key = set.key →
    ((executedTransactions calls).get n).trans.transid < 2 ^ 32 →
    ∃ rep, (repliesBefore calls (n + 1)).queue =
        (repliesBefore calls n).queue ++ ((executedTransactions calls).get n).entries rep ∧
      Arrives s ((executedTransactions calls).get n).trans.transid rep .ok (shown set.value)

/-- A transaction with an encoded request takes effect when its pair is new. -/
theorem effectiveAt_of_encode {i : Fin (executedTransactions calls).length} {req : AppRequest}
    (hclient : FitsInt req.clientId) (hreq : FitsInt req.reqId)
    (hencode : encode req = some ((executedTransactions calls).get i).trans.data)
    (hfirst : ∀ k < i, ∀ req', decode ((executedTransactions calls).get k).trans = some req' →
      req'.ids ≠ req.ids) : EffectiveAt calls i req := by
  refine ⟨?_, hfirst⟩
  have hfits : req.FitsPayload := by
    by_contra hfits
    rw [encode_eq_none hfits] at hencode
    exact absurd hencode (by simp)
  obtain ⟨out, hout, hfilled⟩ := encode_eq_some hfits
  obtain rfl : out = ((executedTransactions calls).get i).trans.data :=
    Option.some.inj (hout.symm.trans hencode)
  exact decode_filled hfits hclient hreq hfilled _ _

/-- **Read your write.**  The client gets status `OK` and the first `MAX_VALUE_SIZE` bytes of the value,
which is the whole value if it is not longer. -/
theorem read_your_write (s : ReplyStream) (hs : s.Documented) :
    ReadYourWrite s (List.take maxValueSize) := by
  intro calls i n set get hsetop hclient hreq hencode hfirst hin hlast hget hgetop hkey htid
  have hset := effectiveAt_of_encode hclient hreq hencode hfirst
  exact ⟨_, queue_of_get hin hset hsetop hlast hget hgetop hkey, arrives_ofReply hs htid set.value⟩

/-! ### A value that is read back -/

section Stored

/-- A `SET` of the key `k`. -/
def setOf (value : Text) : AppRequest := ⟨opSet, [107], value, 1, 1⟩

/-- A `GET` of the key. -/
def getOf : AppRequest := ⟨opGet, [107], [], 1, 2⟩

def payloadOf (req : AppRequest) : PayloadBuffer := (encode req).getD (Vector.replicate _ 0)

/-- A block with the two requests. -/
def storedCalls (value : Text) : List ReplyCall :=
  [⟨fun _ => true, twoSlots ⟨1, 1, payloadOf (setOf value)⟩ ⟨1, 2, payloadOf getOf⟩⟩]

theorem executed_storedCalls (value : Text) :
    executedTransactions (storedCalls value) =
      [⟨fun _ => true, ⟨1, 1, payloadOf (setOf value)⟩⟩, ⟨fun _ => true, ⟨1, 2, payloadOf getOf⟩⟩] :=
  executed_twoSlots Nat.one_ne_zero (Nat.succ_ne_zero 1)

theorem encode_payloadOf {req : AppRequest} (h : req.FitsPayload) :
    encode req = some (payloadOf req) := by
  obtain ⟨out, hout, -⟩ := encode_eq_some h
  rw [payloadOf, hout]
  rfl

/-- What a value that is accepted by `encode` is read as. -/
theorem read_storedCalls {s : ReplyStream} {shown : Text → Text} (h : ReadYourWrite s shown)
    {value : Text} (hvalue : (setOf value).FitsPayload) :
    ∃ rep, (repliesBefore (storedCalls value) 2).queue =
        (repliesBefore (storedCalls value) 1).queue ++ [(2, 1, rep)] ∧
      Arrives s 2 rep .ok (shown value) := by
  have hexec := executed_storedCalls value
  have hlength : (executedTransactions (storedCalls value)).length = 2 := by rw [hexec]; rfl
  have hone : FitsInt 1 := ⟨by decide, by decide⟩
  have htwo : FitsInt 2 := ⟨by decide, by decide⟩
  let first : Fin (executedTransactions (storedCalls value)).length := ⟨0, by omega⟩
  let second : Fin (executedTransactions (storedCalls value)).length := ⟨1, by omega⟩
  have hencode : encode (setOf value) =
      some (executedTransactions (storedCalls value))[first].trans.data := by
    rw [encode_payloadOf hvalue]
    simp [hexec, first]
  have hset : EffectiveAt (storedCalls value) first (setOf value) :=
    effectiveAt_of_encode hone hone hencode fun k hk => absurd hk (Nat.not_lt_zero _)
  have hget : EffectiveAt (storedCalls value) second getOf := by
    apply effectiveAt_of_encode hone htwo
    · have hfits : getOf.FitsPayload := by decide
      rw [encode_payloadOf hfits]
      simp [hexec, second]
    · rintro ⟨k, hk'⟩ hk req' hreq'
      obtain rfl : k = 0 := Nat.lt_one_iff.mp hk
      obtain rfl : setOf value = req' := Option.some.inj (hset.1.symm.trans hreq')
      simp [AppRequest.ids, setOf, getOf]
  have hbetween : ∀ j, first < j → ¬ j < second := fun j hj hj' =>
    absurd (Fin.lt_def.mp hj') (not_lt.mpr (Fin.lt_def.mp hj))
  have hread := h (storedCalls value) first second (setOf value) getOf rfl hone hone hencode hset.2
    (Nat.zero_lt_one) (fun j hj hj' => absurd hj' (hbetween j hj)) hget rfl rfl
    (by simp [hexec, second])
  simpa [hexec, first, second, ExecutedTransaction.entries, setOf] using hread

theorem read_your_write_stored :
    ∃ rep, (repliesBefore (storedCalls [118]) 2).queue =
        (repliesBefore (storedCalls [118]) 1).queue ++ [(2, 1, rep)] ∧
      Arrives .littleEndian 2 rep .ok [118] :=
  read_storedCalls (read_your_write .littleEndian ReplyStream.littleEndian_documented) (by decide)

/-- **A value that is too long for a reply.**  A value of 129 bytes is encoded, stored and found; the
client gets 128 of them. -/
theorem not_read_your_write : ¬ ReadYourWrite .littleEndian id := by
  intro h
  have hfits : (setOf (List.replicate 129 118)).FitsPayload := by
    unfold AppRequest.FitsPayload setOf
    rw [List.length_replicate]
    decide
  obtain ⟨rep, -, harrives⟩ := read_storedCalls h hfits
  obtain ⟨m, -, -, -, hvalue⟩ := harrives []
  have hlength := m.length_valueStr_le
  rw [hvalue, id, List.length_replicate] at hlength
  exact absurd hlength (by decide)

end Stored

end Raftel
