import Raftel.KVApp
import Raftel.Lib.Memo
import Raftel.Equiv.Text

/-!
# Every request is executed once

A transaction is proposed by several leaders and is committed in several blocks, so that the executor
is given the same request again and again.  `dedupKey` tells the pairs of identifiers apart, hence
`execute` is `execMemory` behind a cache with one entry for each pair (`Lib.Memo`).

* `executed_exactly_once` : one reply for each pair, and the store of the first requests
-/

namespace Raftel

/-! ### The keys of the cache -/

theorem mem_natText {n : ℕ} {b : UInt8} (h : b ∈ natText n) : 48 ≤ b.toNat ∧ b.toNat ≤ 57 := by
  obtain ⟨c, hc, rfl⟩ := List.mem_map.mp h
  have hdigit : c.isDigit = true := Nat.isDigit_of_mem_toDigits (by decide) (by decide) hc
  simp only [Char.isDigit, Bool.and_eq_true, decide_eq_true_eq] at hdigit
  obtain ⟨hle, hge⟩ := hdigit
  have hle' : 48 ≤ c.val.toNat := hle
  have hge' : c.val.toNat ≤ 57 := hge
  have hval : c.toUInt8.toNat = c.val.toNat := Nat.mod_eq_of_lt (by omega)
  omega

/-- The sign is not a digit. -/
theorem minus_notMem_natText (n : ℕ) : (45 : UInt8) ∉ natText n := by
  intro h
  exact absurd (mem_natText h).1 (by decide)

theorem intText_injective : Function.Injective intText := by
  intro n m h
  unfold intText at h
  have hsign : ∀ a b : ℕ, natText a ≠ 45 :: natText b := by
    intro a b heq
    exact minus_notMem_natText a (heq ▸ List.mem_cons_self)
  by_cases hn : n < 0
  · by_cases hm : m < 0
    · rw [if_pos hn, if_pos hm, List.cons.injEq, natText_inj] at h
      omega
    · rw [if_pos hn, if_neg hm] at h
      exact absurd h.symm (hsign _ _)
  · by_cases hm : m < 0
    · rw [if_neg hn, if_pos hm] at h
      exact absurd h (hsign _ _)
    · rw [if_neg hn, if_neg hm, natText_inj] at h
      omega

theorem colon_notMem_intText (n : ℤ) : (58 : UInt8) ∉ intText n := by
  have hdigits : ∀ m : ℕ, (58 : UInt8) ∉ natText m := by
    intro m h
    exact absurd (mem_natText h).2 (by decide)
  unfold intText
  split
  · rw [List.mem_cons, not_or]
    exact ⟨by decide, hdigits _⟩
  · exact hdigits _

/-- The colon ends the first number, so that the key determines both. -/
theorem dedupKey_inj {c r c' r' : ℤ} : dedupKey c r = dedupKey c' r' ↔ c = c' ∧ r = r' := by
  unfold dedupKey
  rw [List.append_assoc, List.append_assoc, List.singleton_append, List.singleton_append,
    List.append_cons_inj_of_notMem (colon_notMem_intText c) (colon_notMem_intText r)]
  simp only [true_and, intText_injective.eq_iff]

/-- What a request is told apart by. -/
def AppRequest.ids (req : AppRequest) : ℤ × ℤ := (req.clientId, req.reqId)

/-- The key of a request in the cache. -/
def AppRequest.dedupKey (req : AppRequest) : Text := Raftel.dedupKey req.clientId req.reqId

theorem AppRequest.dedupKey_eq {req req' : AppRequest} :
    req.dedupKey = req'.dedupKey ↔ req.ids = req'.ids := by
  unfold AppRequest.dedupKey ids
  rw [dedupKey_inj, Prod.mk.injEq]

/-! ### The executor is a machine behind a cache -/

/-- The store of an executor. -/
abbrev Store := Text → Option Text

/-- `execMemory` on the store alone. -/
def Store.exec (store : Store) (req : AppRequest) : AppReply × Store :=
  let (rep, kv) := execMemory ⟨fun _ => none, store⟩ req
  (rep, kv.memStore)

section Operations

variable {store : Store} {req : AppRequest}

theorem Store.exec_set (h : req.op = opSet) :
    store.exec req = (⟨.ok, [], 0⟩, Function.update store req.key (some req.value)) := by
  unfold Store.exec execMemory
  rw [if_pos h]

theorem Store.exec_get_of_none (h : req.op = opGet) (hkey : store req.key = none) :
    store.exec req = (⟨.notFound, [], 0⟩, store) := by
  have hset : req.op ≠ opSet := by rw [h]; decide
  simp only [Store.exec, execMemory, if_neg hset, if_pos h, hkey]

theorem Store.exec_get_of_some {value : Text} (h : req.op = opGet)
    (hkey : store req.key = some value) : store.exec req = (⟨.ok, value, 0⟩, store) := by
  have hset : req.op ≠ opSet := by rw [h]; decide
  simp only [Store.exec, execMemory, if_neg hset, if_pos h, hkey]

theorem Store.exec_del (h : req.op = opDel) :
    store.exec req = (⟨.ok, [], if (store req.key).isSome then 1 else 0⟩,
      Function.update store req.key none) := by
  have hset : req.op ≠ opSet := by rw [h]; decide
  have hget : req.op ≠ opGet := by rw [h]; decide
  unfold Store.exec execMemory
  rw [if_neg hset, if_neg hget, if_pos h]

theorem Store.exec_other (hset : req.op ≠ opSet) (hget : req.op ≠ opGet) (hdel : req.op ≠ opDel) :
    store.exec req = (AppReply.error, store) := by
  unfold Store.exec execMemory
  rw [if_neg hset, if_neg hget, if_neg hdel]

end Operations

/-- `execMemory` neither reads nor writes the cache. -/
theorem execMemory_eq (kv : KVAppExecutor) (req : AppRequest) :
    execMemory kv req = ((Store.exec kv.memStore req).1,
      { kv with memStore := (Store.exec kv.memStore req).2 }) := by
  unfold Store.exec execMemory
  by_cases hset : req.op = opSet
  · simp only [if_pos hset]
  · by_cases hget : req.op = opGet
    · simp only [if_neg hset, if_pos hget]
      cases kv.memStore req.key <;> rfl
    · by_cases hdel : req.op = opDel
      · simp only [if_neg hset, if_neg hget, if_pos hdel]
      · simp only [if_neg hset, if_neg hget, if_neg hdel]

/-- The executor as a store behind the cache of replies. -/
def KVAppExecutor.memo (kv : KVAppExecutor) : Lib.Memo Text AppReply Store :=
  ⟨kv.dedupCache, kv.memStore⟩

theorem execute_of_cached {kv : KVAppExecutor} {req : AppRequest} {rep : AppReply}
    (h : kv.dedupCache req.dedupKey = some rep) : execute kv req = (rep, kv) := by
  unfold AppRequest.dedupKey at h
  simp only [execute, h]

theorem execute_of_fresh {kv : KVAppExecutor} {req : AppRequest}
    (h : kv.dedupCache req.dedupKey = none) :
    execute kv req = ((Store.exec kv.memStore req).1,
      ⟨Function.update kv.dedupCache req.dedupKey (some (Store.exec kv.memStore req).1),
        (Store.exec kv.memStore req).2⟩) := by
  unfold AppRequest.dedupKey at h ⊢
  simp only [execute, h, execMemory_eq]

theorem execute_memo (kv : KVAppExecutor) (req : AppRequest) :
    kv.memo.step AppRequest.dedupKey Store.exec req =
      ((execute kv req).1, (execute kv req).2.memo) := by
  cases h : kv.dedupCache req.dedupKey with
  | some rep =>
    rw [execute_of_cached h]
    exact Lib.Memo.step_of_cached h
  | none =>
    rw [execute_of_fresh h]
    exact Lib.Memo.step_of_fresh h

theorem final_execute_memo (kv : KVAppExecutor) (reqs : List AppRequest) :
    Lib.final (Lib.Memo.step AppRequest.dedupKey Store.exec) kv.memo reqs =
      (Lib.final execute kv reqs).memo :=
  Lib.final_hom KVAppExecutor.memo execute_memo kv reqs

theorem final_execMemory (kv : KVAppExecutor) (reqs : List AppRequest) :
    Lib.final Store.exec kv.memStore reqs = (Lib.final execMemory kv reqs).memStore := by
  refine Lib.final_hom KVAppExecutor.memStore (fun kv req => ?_) kv reqs
  rw [execMemory_eq]

/-- The requests with a pair of identifiers that did not occur before. -/
def firstRequests (reqs : List AppRequest) : List AppRequest := Lib.firsts AppRequest.ids reqs

theorem firsts_dedupKey (reqs : List AppRequest) :
    Lib.firsts AppRequest.dedupKey reqs = firstRequests reqs := by
  have hinj : Function.Injective fun ids : ℤ × ℤ => Raftel.dedupKey ids.1 ids.2 := by
    rintro ⟨c, r⟩ ⟨c', r'⟩ h
    rw [Prod.mk.injEq]
    exact dedupKey_inj.mp h
  exact Lib.firsts_comp AppRequest.ids hinj reqs

/-- **Exactly once.**  For every sequence of requests to a fresh executor: the replies to two requests
with the same identifiers are the same, in particular to any request and to the first one with its
identifiers; the store is the one that `execMemory` builds from the first requests, in order; and
different pairs of identifiers have different keys. -/
theorem executed_exactly_once (reqs : List AppRequest) :
    (∀ i j (hi : i < reqs.length) (hj : j < reqs.length),
        reqs[j].ids = reqs[i].ids → (∀ k (_ : k < j), reqs[k].ids ≠ reqs[i].ids) →
          (Lib.replies execute .init reqs)[i]? = (Lib.replies execute .init reqs)[j]?) ∧
      (Lib.final execute .init reqs).memStore =
        (Lib.final execMemory .init (firstRequests reqs)).memStore ∧
      ∀ c r c' r', (c, r) ≠ (c', r') → dedupKey c r ≠ dedupKey c' r' := by
  refine ⟨?_, ?_, ?_⟩
  · intro i j hi hj hids _
    rw [← Lib.replies_hom KVAppExecutor.memo execute_memo]
    exact Lib.Memo.replies_eq _ _ hi hj (AppRequest.dedupKey_eq.mpr hids)
  · rw [← final_execMemory, ← firsts_dedupKey, ← Lib.Memo.state_final]
    exact (congrArg Lib.Memo.state (final_execute_memo .init reqs)).symm
  · intro c r c' r' hne h
    exact hne (Prod.mk.injEq .. ▸ dedupKey_inj.mp h)

/-- A `SET` that is committed again after a `DEL` of its key: it is answered as before and does not
write again. -/
theorem executed_exactly_once_repeated :
    let reqs : List AppRequest :=
      [⟨opSet, [107], [118], -1, 1⟩, ⟨opDel, [107], [], -1, 2⟩, ⟨opSet, [107], [118], -1, 1⟩]
    (Lib.replies execute .init reqs)[2]? = (Lib.replies execute .init reqs)[0]? ∧
      (Lib.final execute .init reqs).memStore [107] = none := by
  intro reqs
  obtain ⟨hreplies, hstore, -⟩ := executed_exactly_once reqs
  refine ⟨hreplies 2 0 (by decide) (by decide) rfl ?_, ?_⟩
  · intro k hk
    exact absurd hk (Nat.not_lt_zero k)
  · rw [hstore]
    decide

end Raftel
