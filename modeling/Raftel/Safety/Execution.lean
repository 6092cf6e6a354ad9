import Raftel.KVApp

/-!
# The same certified hash and the same execution

The hash of a block covers its first `size` transactions, in a text without separators; the
execution reads all the slots of the array.  Two blocks with one hash may therefore be executed
differently.

* `sameExecution_iff` : two replicas that hold blocks with the certified hash execute alike exactly
  when the blocks hold the same sequence of requests, over all slots
* `not_sameExecution_past_size` : two blocks with the same text and different executions
-/

namespace Raftel

/-- Two replicas that have stored `b₁` and `b₂` for the view make the same calls to the executor and
enqueue the same replies when they execute the hash, whatever the common state of their executors
and their clients are. -/
def SameExecution (sha : Text → Digest) (hash : Hash) (b₁ b₂ : Block) : Prop :=
  ∀ (kv : KVAppExecutor) (clients : CID → Bool),
    (replyHash sha clients kv (some b₁) hash).executed =
        (replyHash sha clients kv (some b₂) hash).executed ∧
      (replyHash sha clients kv (some b₁) hash).queue =
        (replyHash sha clients kv (some b₂) hash).queue

/-- What the execution reads of a transaction. -/
structure Request where
  tid : TID
  cid : CID
  req : Option AppRequest
  deriving DecidableEq

def Transaction.request (t : Transaction) : Request := ⟨t.transid, t.clientid, decode t⟩

/-- The requests of a block: those of all its slots but the dummies. -/
def Block.requests (b : Block) : List Request :=
  (b.transactions.toList.filter fun t => t.transid ≠ 0).map Transaction.request

/-! ### The execution reads the requests only -/

/-- The reply to one request. -/
def replyRequest (clients : CID → Bool) (r : Replies) (q : Request) : Replies :=
  let (executed, appRep, kv) :=
    match q.req with
    | some req =>
      let (appRep, kv) := execute r.kv req
      (r.executed ++ [req], appRep, kv)
    | none => (r.executed, AppReply.error, r.kv)
  let queue := if clients q.cid then r.queue ++ [(q.tid, q.cid, appRep)] else r.queue
  ⟨executed, queue, kv⟩

theorem replyTransactions_eq_requests (clients : CID → Bool) (kv : KVAppExecutor) (b : Block) :
    replyTransactions clients kv b.transactions =
      b.requests.foldl (replyRequest clients) ⟨[], [], kv⟩ := by
  unfold replyTransactions Block.requests
  generalize (⟨[], [], kv⟩ : Replies) = r
  induction b.transactions.toList generalizing r with
  | nil => rfl
  | cons t ts ih =>
    rw [List.foldl_cons, ih]
    by_cases ht : t.transid = 0
    · simp [ht]
    · simp only [ne_eq, ht, not_false_eq_true, if_true, decide_true, List.filter_cons_of_pos,
        List.map_cons, List.foldl_cons]
      rfl

/-- An executor that has answered everything before, always with the same reply. -/
def answered : KVAppExecutor := ⟨fun _ => some ⟨.ok, [], 0⟩, fun _ => none⟩

/-- With that executor and all clients known, the replies show which transactions were decoded and
the calls show how. -/
theorem foldl_answered (qs : List Request) (executed : List AppRequest)
    (queue : List (TID × CID × AppReply)) :
    qs.foldl (replyRequest fun _ => true) ⟨executed, queue, answered⟩ =
      ⟨executed ++ qs.filterMap Request.req,
        queue ++ qs.map fun q =>
          (q.tid, q.cid, if q.req.isSome then ⟨.ok, [], 0⟩ else AppReply.error), answered⟩ := by
  induction qs generalizing executed queue with
  | nil => simp
  | cons q qs ih =>
    obtain ⟨tid, cid, req⟩ := q
    rw [List.foldl_cons]
    cases req with
    | none =>
      have hstep : replyRequest (fun _ => true) ⟨executed, queue, answered⟩ ⟨tid, cid, none⟩ =
          ⟨executed, queue ++ [(tid, cid, AppReply.error)], answered⟩ := rfl
      rw [hstep, ih]
      simp
    | some req =>
      have hstep : replyRequest (fun _ => true) ⟨executed, queue, answered⟩ ⟨tid, cid, some req⟩ =
          ⟨executed ++ [req], queue ++ [(tid, cid, ⟨.ok, [], 0⟩)], answered⟩ := rfl
      rw [hstep, ih]
      simp

/-- The calls and such replies determine the requests. -/
theorem requests_eq_of_replies {qs qs' : List Request}
    (hreq : qs.filterMap Request.req = qs'.filterMap Request.req)
    (hqueue : (qs.map fun q =>
        (q.tid, q.cid, if q.req.isSome then (⟨.ok, [], 0⟩ : AppReply) else AppReply.error)) =
      qs'.map fun q => (q.tid, q.cid, if q.req.isSome then ⟨.ok, [], 0⟩ else AppReply.error)) :
    qs = qs' := by
  induction qs generalizing qs' with
  | nil =>
    cases qs' with
    | nil => rfl
    | cons q' qs' => simp at hqueue
  | cons q qs ih =>
    cases qs' with
    | nil => simp at hqueue
    | cons q' qs' =>
      obtain ⟨tid, cid, req⟩ := q
      obtain ⟨tid', cid', req'⟩ := q'
      rw [List.map_cons, List.map_cons, List.cons_eq_cons] at hqueue
      obtain ⟨hhead, htail⟩ := hqueue
      simp only [Prod.mk.injEq] at hhead
      obtain ⟨rfl, rfl, hstatus⟩ := hhead
      cases req with
      | none =>
        cases req' with
        | none =>
          rw [ih (by simpa using hreq) htail]
        | some req' => simp [AppReply.error] at hstatus
      | some req =>
        cases req' with
        | none => simp [AppReply.error] at hstatus
        | some req' =>
          simp only [List.filterMap_cons, List.cons.injEq] at hreq
          rw [hreq.1, ih hreq.2 htail]

/-- **Exactly when one hash means one execution.**  For every certified hash and every two blocks
stored under it: the replicas execute alike if and only if the slots of the two blocks that are not
dummies, in order and whether the hash covers them or not, have the same clients, transaction
identifiers and decoded requests. -/
theorem sameExecution_iff (sha : Text → Digest) (hash : Hash) (b₁ b₂ : Block)
    (h₁ : eqHashes (b₁.hash sha) hash = true) (h₂ : eqHashes (b₂.hash sha) hash = true) :
    SameExecution sha hash b₁ b₂ ↔ b₁.requests = b₂.requests := by
  unfold SameExecution replyHash
  simp only [h₁, h₂, if_true, replyTransactions_eq_requests]
  constructor
  · intro h
    obtain ⟨hexec, hqueue⟩ := h answered fun _ => true
    rw [foldl_answered, foldl_answered, List.nil_append, List.nil_append] at hexec hqueue
    exact requests_eq_of_replies hexec hqueue
  · intro h kv clients
    rw [h]
    exact ⟨rfl, rfl⟩

/-! ### A transaction past the size -/

section PastSize

/-- A transaction of client 1 that deletes the key `k`. -/
def deleteTransaction : Transaction :=
  ⟨1, 1, (Vector.replicate _ 0).set 0 3 |>.set 2 1 |>.set 14 107⟩

/-- A block whose size field says that it has no transactions. -/
def sizeZeroBlock (slots : Vector Transaction maxNumTransactions) : Block :=
  ⟨11, true, newHash, 0, slots⟩

/-- The same block with dummies in all its slots, and with a transaction in the first one. -/
def emptySlots : Vector Transaction maxNumTransactions := Vector.replicate _ Transaction.dummy

def filledSlots : Vector Transaction maxNumTransactions := emptySlots.set 0 deleteTransaction

/-- **One text, two executions.**  The two blocks have the same text, hence the same hash for every
hash function; one replica executes nothing and the other deletes a key. -/
theorem not_sameExecution_past_size :
    (sizeZeroBlock emptySlots).toText = (sizeZeroBlock filledSlots).toText ∧
      ∀ sha, ¬ SameExecution sha ((sizeZeroBlock emptySlots).hash sha)
        (sizeZeroBlock emptySlots) (sizeZeroBlock filledSlots) := by
  have htext : (sizeZeroBlock emptySlots).toText = (sizeZeroBlock filledSlots).toText := rfl
  refine ⟨htext, fun sha h => ?_⟩
  obtain ⟨hexec, -⟩ := h .init fun _ => true
  have hhash : (sizeZeroBlock filledSlots).hash sha = (sizeZeroBlock emptySlots).hash sha := by
    rw [Block.hash, Block.hash, htext]
  simp only [replyHash, hhash, eqHashes_eq_true, if_true] at hexec
  exact absurd (congrArg List.length hexec) (by decide +kernel)

/-- The transaction in the second slot. -/
def laterSlots : Vector Transaction maxNumTransactions := emptySlots.set 1 deleteTransaction

/-- Wherever the transaction is, it is the only request. -/
theorem requests_set {i : ℕ} (hi : i < maxNumTransactions) :
    (sizeZeroBlock (emptySlots.set i deleteTransaction)).requests = [deleteTransaction.request] := by
  have hlength : i < (List.replicate maxNumTransactions Transaction.dummy).length := by
    rwa [List.length_replicate]
  unfold Block.requests sizeZeroBlock emptySlots
  rw [Vector.toList_set, Vector.toList_replicate, List.set_eq_take_append_cons_drop, if_pos hlength,
    List.take_replicate, List.drop_replicate, List.filter_append, List.filter_cons_of_pos (by decide),
    List.filter_replicate_of_neg (by decide), List.filter_replicate_of_neg (by decide)]
  rfl

/-- Two blocks with the transaction in different slots, both past the size, execute alike. -/
theorem sameExecution_iff_later_slot :
    sizeZeroBlock filledSlots ≠ sizeZeroBlock laterSlots ∧
      (∀ sha, eqHashes ((sizeZeroBlock laterSlots).hash sha)
        ((sizeZeroBlock filledSlots).hash sha) = true) ∧
      ∀ sha, SameExecution sha ((sizeZeroBlock filledSlots).hash sha) (sizeZeroBlock filledSlots)
        (sizeZeroBlock laterSlots) := by
  have htext : (sizeZeroBlock laterSlots).toText = (sizeZeroBlock filledSlots).toText := rfl
  have hhash : ∀ sha, eqHashes ((sizeZeroBlock laterSlots).hash sha)
      ((sizeZeroBlock filledSlots).hash sha) = true := by
    intro sha
    rw [Block.hash, Block.hash, htext]
    exact eqHashes_eq_true.mpr rfl
  have hsame : (sizeZeroBlock filledSlots).requests = (sizeZeroBlock laterSlots).requests :=
    (requests_set (by decide)).trans (requests_set (by decide)).symm
  refine ⟨fun heq => ?_, hhash, fun sha => (sameExecution_iff sha _ _ _ (by simp) (hhash sha)).mpr hsame⟩
  have hslot : filledSlots[0] = laterSlots[0] := congrArg (·[0]) (congrArg Block.transactions heq)
  unfold filledSlots laterSlots at hslot
  rw [Vector.getElem_set_self, Vector.getElem_set_ne _ _ (by decide)] at hslot
  exact absurd (congrArg Transaction.transid hslot) (by decide)

end PastSize

end Raftel
