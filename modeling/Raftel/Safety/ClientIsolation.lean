import Mathlib
import Raftel.Safety.ExactlyOnce
import Raftel.Safety.Execution

/-!
# The cache of replies and the clients

`replyTransactions` answers a transaction under the identifiers of its header and looks for an earlier
answer under the identifiers in its payload.  Nothing makes the two agree: a client may commit a
transaction with the identifiers of another client in its payload, and the transaction that the other
client commits later is not executed.

* `ownResult_iff` : a transaction gets the result of its own operation exactly when its pair was not
  used before, or when the operation happens to change nothing and to have the cached result
-/

namespace Raftel

/-! ### The execution of several blocks -/

/-- A call of `replyTransactions`: the clients that are known then and the transactions of a block. -/
structure ReplyCall where
  clients : CID → Bool
  transactions : Vector Transaction maxNumTransactions

/-- A transaction that is executed, and the clients that are known then. -/
structure ExecutedTransaction where
  clients : CID → Bool
  trans : Transaction

/-- What a replica has done after one more call. -/
def Replies.call (r : Replies) (c : ReplyCall) : Replies :=
  let r' := replyTransactions c.clients r.kv c.transactions
  ⟨r.executed ++ r'.executed, r.queue ++ r'.queue, r'.kv⟩

/-- What a replica has done after one more transaction: the body of the loop. -/
def Replies.transaction (r : Replies) (e : ExecutedTransaction) : Replies :=
  replyTransaction e.clients r e.trans

def Replies.init : Replies := ⟨[], [], .init⟩

/-- The transactions of a call: all slots but the dummies. -/
def ReplyCall.executed (c : ReplyCall) : List ExecutedTransaction :=
  (c.transactions.toList.filter fun t => t.transid ≠ 0).map fun t => ⟨c.clients, t⟩

/-- The transactions of a list of calls, in the order in which they are executed. -/
def executedTransactions (calls : List ReplyCall) : List ExecutedTransaction :=
  calls.flatMap ReplyCall.executed

/-- The reply that is enqueued under the identifiers of the header, when the client is known. -/
def ExecutedTransaction.entries (e : ExecutedTransaction) (rep : AppReply) :
    List (TID × CID × AppReply) :=
  if e.clients e.trans.clientid then [(e.trans.transid, e.trans.clientid, rep)] else []

theorem transaction_of_some {r : Replies} {e : ExecutedTransaction} {req : AppRequest}
    (h : decode e.trans = some req) :
    r.transaction e = ⟨r.executed ++ [req], r.queue ++ e.entries (execute r.kv req).1,
      (execute r.kv req).2⟩ := by
  unfold Replies.transaction replyTransaction ExecutedTransaction.entries
  rw [h]
  by_cases hc : e.clients e.trans.clientid <;> simp [hc]

theorem transaction_of_none {r : Replies} {e : ExecutedTransaction} (h : decode e.trans = none) :
    r.transaction e = ⟨r.executed, r.queue ++ e.entries AppReply.error, r.kv⟩ := by
  unfold Replies.transaction replyTransaction ExecutedTransaction.entries
  rw [h]
  by_cases hc : e.clients e.trans.clientid <;> simp [hc]

/-- What comes before is kept. -/
theorem transaction_append (executed executed' : List AppRequest)
    (queue queue' : List (TID × CID × AppReply)) (kv : KVAppExecutor) (e : ExecutedTransaction) :
    Replies.transaction ⟨executed ++ executed', queue ++ queue', kv⟩ e =
      let r := Replies.transaction ⟨executed', queue', kv⟩ e
      ⟨executed ++ r.executed, queue ++ r.queue, r.kv⟩ := by
  cases h : decode e.trans with
  | none => simp [transaction_of_none h]
  | some req => simp [transaction_of_some h]

theorem foldl_transaction_append (executed executed' : List AppRequest)
    (queue queue' : List (TID × CID × AppReply)) (kv : KVAppExecutor)
    (es : List ExecutedTransaction) :
    es.foldl Replies.transaction ⟨executed ++ executed', queue ++ queue', kv⟩ =
      let r := es.foldl Replies.transaction ⟨executed', queue', kv⟩
      ⟨executed ++ r.executed, queue ++ r.queue, r.kv⟩ := by
  induction es generalizing executed' queue' kv with
  | nil => rfl
  | cons e es ih => rw [List.foldl_cons, List.foldl_cons, transaction_append, ih]

/-- A call executes its transactions one after the other. -/
theorem replyTransactions_eq_executed (c : ReplyCall) (kv : KVAppExecutor) :
    replyTransactions c.clients kv c.transactions =
      c.executed.foldl Replies.transaction ⟨[], [], kv⟩ := by
  unfold replyTransactions ReplyCall.executed
  generalize (⟨[], [], kv⟩ : Replies) = r
  induction c.transactions.toList generalizing r with
  | nil => rfl
  | cons t ts ih =>
    rw [List.foldl_cons, ih]
    by_cases ht : t.transid = 0
    · simp [ht]
    · simp only [ne_eq, ht, not_false_eq_true, if_true, decide_true, List.filter_cons_of_pos,
        List.map_cons, List.foldl_cons]
      rfl

theorem call_eq_executed (r : Replies) (c : ReplyCall) :
    r.call c = c.executed.foldl Replies.transaction r := by
  obtain ⟨executed, queue, kv⟩ := r
  have happend := foldl_transaction_append executed [] queue [] kv c.executed
  rw [List.append_nil, List.append_nil] at happend
  rw [happend, ← replyTransactions_eq_executed]
  rfl

/-- **The calls execute all their transactions**, one after the other: what the loops of the calls leave is
what the transactions leave. -/
theorem foldl_call_eq (r : Replies) (calls : List ReplyCall) :
    calls.foldl Replies.call r = (executedTransactions calls).foldl Replies.transaction r := by
  induction calls generalizing r with
  | nil => rfl
  | cons c calls ih =>
    rw [List.foldl_cons, ih, call_eq_executed, ← List.foldl_append]
    rfl

/-- The replica before the transaction at a position. -/
def repliesBefore (calls : List ReplyCall) (i : ℕ) : Replies :=
  ((executedTransactions calls).take i).foldl Replies.transaction .init

theorem repliesBefore_succ {calls : List ReplyCall} {i : ℕ}
    (hi : i < (executedTransactions calls).length) :
    repliesBefore calls (i + 1) =
      (repliesBefore calls i).transaction (executedTransactions calls)[i] := by
  unfold repliesBefore
  rw [List.take_succ_eq_append_getElem hi, List.foldl_append, List.foldl_cons, List.foldl_nil]

/-- The executor runs over the requests that were decoded. -/
theorem kv_foldl_transaction (r : Replies) (es : List ExecutedTransaction) :
    (es.foldl Replies.transaction r).kv =
      Lib.final execute r.kv (es.filterMap fun e => decode e.trans) := by
  induction es generalizing r with
  | nil => rfl
  | cons e es ih =>
    rw [List.foldl_cons, ih, List.filterMap_cons]
    cases h : decode e.trans with
    | none => rw [transaction_of_none h]
    | some req => rw [transaction_of_some h, Lib.final_cons]

/-- A pair is in the cache exactly when a transaction before had it in its payload. -/
theorem dedupCache_eq_none (calls : List ReplyCall)
    (i : Fin (executedTransactions calls).length) (req : AppRequest) :
    (repliesBefore calls i).kv.dedupCache req.dedupKey = none ↔
      ∀ j < i, ∀ req', decode (executedTransactions calls)[j].trans = some req' →
        req'.ids ≠ req.ids := by
  have hcache : (repliesBefore calls i).kv.dedupCache =
      (Lib.final (Lib.Memo.step AppRequest.dedupKey Store.exec) (.init KVAppExecutor.init.memStore)
        (((executedTransactions calls).take i).filterMap fun e => decode e.trans)).cache := by
    unfold repliesBefore
    rw [kv_foldl_transaction]
    exact (congrArg Lib.Memo.cache (final_execute_memo .init _)).symm
  rw [hcache, Lib.Memo.cache_final_eq_none]
  constructor
  · intro h j hj req' hreq' hids
    have hlt : (j : ℕ) < min (i : ℕ) (executedTransactions calls).length := lt_min hj j.isLt
    have hmem : (executedTransactions calls)[j] ∈ (executedTransactions calls).take i :=
      List.mem_take_iff_getElem.mpr ⟨j, hlt, rfl⟩
    exact h (List.mem_map.mpr
      ⟨req', List.mem_filterMap.mpr ⟨_, hmem, hreq'⟩, AppRequest.dedupKey_eq.mpr hids⟩)
  · intro h hmem
    obtain ⟨req', hreq', hkey⟩ := List.mem_map.mp hmem
    obtain ⟨e, he, hdecode⟩ := List.mem_filterMap.mp hreq'
    obtain ⟨j, hj, rfl⟩ := List.mem_take_iff_getElem.mp he
    rw [Nat.lt_min] at hj
    exact h ⟨j, hj.2⟩ hj.1 req' hdecode (AppRequest.dedupKey_eq.mp hkey)

/-! ### Whose result -/

/-- The result of the transaction's own operation. -/
def ownResult (kv : KVAppExecutor) (t : Transaction) : AppReply × KVAppExecutor :=
  match decode t with
  | some req => execMemory kv req
  | none => (AppReply.error, kv)

theorem ownResult_of_some {kv : KVAppExecutor} {t : Transaction} {req : AppRequest}
    (h : decode t = some req) : ownResult kv t = execMemory kv req := by
  unfold ownResult
  rw [h]

theorem ownResult_of_none {kv : KVAppExecutor} {t : Transaction} (h : decode t = none) :
    ownResult kv t = (AppReply.error, kv) := by
  unfold ownResult
  rw [h]

/-- The transaction at a position applies its own operation to the store, and the reply that is
enqueued for it is the result. -/
def OwnResult (calls : List ReplyCall) (i : Fin (executedTransactions calls).length) : Prop :=
  let e := (executedTransactions calls)[i]
  let before := repliesBefore calls i
  let after := repliesBefore calls (i + 1)
  after.kv.memStore = (ownResult before.kv e.trans).2.memStore ∧
    after.queue = before.queue ++ e.entries (ownResult before.kv e.trans).1

/-- The operation would leave the store as it is. -/
def NoEffect (store : Store) (req : AppRequest) : Prop :=
  (req.op = opSet → store req.key = some req.value) ∧ (req.op = opDel → store req.key = none)

/-- The reply is the one that the operation would get. -/
def SameAnswer (store : Store) (req : AppRequest) (rep : AppReply) : Prop :=
  (req.op = opSet → rep = ⟨.ok, [], 0⟩) ∧
    (req.op = opGet → rep = (store req.key).elim ⟨.notFound, [], 0⟩ fun value => ⟨.ok, value, 0⟩) ∧
    (req.op = opDel → rep = ⟨.ok, [], if (store req.key).isSome then 1 else 0⟩) ∧
    (req.op ≠ opSet → req.op ≠ opGet → req.op ≠ opDel → rep = AppReply.error)

/-- The four cases of an operation byte. -/
theorem op_cases (op : UInt8) :
    op = opSet ∨ op = opGet ∨ op = opDel ∨ op ≠ opSet ∧ op ≠ opGet ∧ op ≠ opDel := by
  tauto

theorem opSet_ne_opGet : opSet ≠ opGet := by decide
theorem opSet_ne_opDel : opSet ≠ opDel := by decide
theorem opGet_ne_opDel : opGet ≠ opDel := by decide

theorem noEffect_iff (store : Store) (req : AppRequest) :
    store = (store.exec req).2 ↔ NoEffect store req := by
  unfold NoEffect
  rcases op_cases req.op with h | h | h | ⟨hset, hget, hdel⟩
  · rw [Store.exec_set h, eq_comm, Function.update_eq_self_iff]
    constructor
    · intro heq
      exact ⟨fun _ => heq.symm, fun hdel => absurd (h.symm.trans hdel) opSet_ne_opDel⟩
    · intro heq
      exact (heq.1 h).symm
  · have hstore : (store.exec req).2 = store := by
      cases hkey : store req.key with
      | none => rw [Store.exec_get_of_none h hkey]
      | some value => rw [Store.exec_get_of_some h hkey]
    simp [hstore, h, opSet_ne_opGet.symm, opGet_ne_opDel]
  · rw [Store.exec_del h, eq_comm, Function.update_eq_self_iff]
    simp [h, opSet_ne_opDel.symm, eq_comm]
  · rw [Store.exec_other hset hget hdel]
    simp [hset, hdel]

theorem sameAnswer_iff (store : Store) (req : AppRequest) (rep : AppReply) :
    rep = (store.exec req).1 ↔ SameAnswer store req rep := by
  unfold SameAnswer
  rcases op_cases req.op with h | h | h | ⟨hset, hget, hdel⟩
  · rw [Store.exec_set h]
    simp [h, opSet_ne_opGet, opSet_ne_opDel]
  · cases hkey : store req.key with
    | none =>
      rw [Store.exec_get_of_none h hkey]
      simp [h, opSet_ne_opGet.symm, opGet_ne_opDel]
    | some value =>
      rw [Store.exec_get_of_some h hkey]
      simp [h, opSet_ne_opGet.symm, opGet_ne_opDel]
  · rw [Store.exec_del h]
    simp [h, opSet_ne_opDel.symm, opGet_ne_opDel.symm]
  · rw [Store.exec_other hset hget hdel]
    simp [hset, hget, hdel]

/-- **Exactly when a transaction gets its own result.**  For every list of calls and every transaction
in them, the one at a first execution in particular: its operation is applied and its result is
enqueued if and only if no transaction before it had the pair of identifiers that is in its payload,
or its operation would leave the store as it is and the reply in the cache for the pair, when it is
enqueued, is the one that the operation would get. -/
theorem ownResult_iff (calls : List ReplyCall) (i : Fin (executedTransactions calls).length) :
    OwnResult calls i ↔
      ∀ req, decode (executedTransactions calls)[i].trans = some req →
        (∀ j < i, ∀ req', decode (executedTransactions calls)[j].trans = some req' →
            req'.ids ≠ req.ids) ∨
          (NoEffect (repliesBefore calls i).kv.memStore req ∧
            ∃ rep, (repliesBefore calls i).kv.dedupCache req.dedupKey = some rep ∧
              ((executedTransactions calls)[i].clients (executedTransactions calls)[i].trans.clientid →
                SameAnswer (repliesBefore calls i).kv.memStore req rep)) := by
  have hafter : repliesBefore calls (i + 1) =
      (repliesBefore calls i).transaction (executedTransactions calls)[i] :=
    repliesBefore_succ i.isLt
  have hentries : ∀ (e : ExecutedTransaction) (rep rep' : AppReply),
      e.entries rep = e.entries rep' ↔ (e.clients e.trans.clientid → rep = rep') := by
    intro e rep rep'
    unfold ExecutedTransaction.entries
    by_cases hc : e.clients e.trans.clientid <;> simp [hc]
  unfold OwnResult
  cases hdecode : decode (executedTransactions calls)[i].trans with
  | none =>
    simp only [hafter, transaction_of_none hdecode, ownResult_of_none hdecode, reduceCtorEq,
      false_implies, implies_true, and_self]
  | some req =>
    simp only [hafter, transaction_of_some hdecode, ownResult_of_some hdecode, Option.some.injEq,
      forall_eq', ← dedupCache_eq_none, execMemory_eq, List.append_cancel_left_eq, hentries]
    cases hcache : (repliesBefore calls i).kv.dedupCache req.dedupKey with
    | none =>
      rw [execute_of_fresh hcache]
      simp
    | some rep =>
      rw [execute_of_cached hcache]
      simp only [noEffect_iff, sameAnswer_iff, reduceCtorEq, false_or, Option.some.injEq,
        exists_eq_left']

/-! ### The identifiers of another client -/

section Aliased

/-- A block with two transactions. -/
def twoSlots (t t' : Transaction) : Vector Transaction maxNumTransactions :=
  ⟨(t :: t' :: List.replicate (maxNumTransactions - 2) .dummy).toArray, by
    rw [List.size_toArray, List.length_cons, List.length_cons, List.length_replicate]
    rfl⟩

theorem filter_twoSlots {t t' : Transaction} (ht : t.transid ≠ 0) (ht' : t'.transid ≠ 0) :
    ((twoSlots t t').toList.filter fun t => t.transid ≠ 0) = [t, t'] := by
  have hlist : (twoSlots t t').toList =
      t :: t' :: List.replicate (maxNumTransactions - 2) Transaction.dummy := rfl
  rw [hlist]
  simp [ht, ht', Transaction.dummy]

theorem executed_twoSlots {clients : CID → Bool} {t t' : Transaction} (ht : t.transid ≠ 0)
    (ht' : t'.transid ≠ 0) :
    executedTransactions [⟨clients, twoSlots t t'⟩] = [⟨clients, t⟩, ⟨clients, t'⟩] := by
  simp only [executedTransactions, List.flatMap_singleton, ReplyCall.executed]
  rw [filter_twoSlots ht ht']
  rfl

/-- The payload of a `SET` of the key `k` with the pair `(1, 1)`. -/
def setPayload (value : UInt8) : Vector UInt8 payloadSize :=
  ⟨([opSet, 0, 1, 0, 1, 0, 1, 0, 0, 0, 1, 0, 0, 0, 107, value] ++
    List.replicate (payloadSize - 16) 0).toArray, by
      rw [List.size_toArray, List.length_append, List.length_replicate]
      rfl⟩

/-- Client 2 commits a transaction with the pair of client 1 in its payload. -/
def aliasTransaction : Transaction := ⟨2, 1, setPayload 120⟩

/-- The transaction of client 1 with that pair. -/
def ownTransaction : Transaction := ⟨1, 1, setPayload 118⟩

def aliasedCalls : List ReplyCall :=
  [⟨fun _ => true, twoSlots aliasTransaction ownTransaction⟩]

theorem executed_aliasedCalls :
    executedTransactions aliasedCalls =
      [⟨fun _ => true, aliasTransaction⟩, ⟨fun _ => true, ownTransaction⟩] :=
  executed_twoSlots (by decide) (by decide)

/-- **A client suppresses the transaction of another one.**  Only client 2 has committed a transaction
before; the `SET` of client 1 is answered with success and does not write its value. -/
theorem not_ownResult_aliased :
    ¬ ∀ (calls : List ReplyCall) (i : Fin (executedTransactions calls).length),
      (∀ j < i, (executedTransactions calls)[j].trans.clientid ≠
        (executedTransactions calls)[i].trans.clientid) → OwnResult calls i := by
  intro h
  have hlength : 1 < (executedTransactions aliasedCalls).length := by
    rw [executed_aliasedCalls]
    decide
  obtain ⟨hstore, -⟩ := h aliasedCalls ⟨1, hlength⟩ (by
    rintro ⟨j, hj⟩ hlt
    obtain rfl : j = 0 := Nat.lt_one_iff.mp hlt
    simp [executed_aliasedCalls, aliasTransaction, ownTransaction])
  have hkey := congrFun hstore [107]
  simp only [repliesBefore, Fin.getElem_fin, executed_aliasedCalls, List.getElem_cons_succ,
    List.getElem_cons_zero] at hkey
  exact absurd hkey (by decide +kernel)

end Aliased

end Raftel
