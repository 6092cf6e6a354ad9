import Raftel.Lib.Firsts
import Raftel.Lib.Trace

/-!
# Machines that answer each request once

A machine takes one request after the other and replies to each.  `Memo.step` puts a cache in front of
one: a request whose key was answered before gets the same answer again, and the machine behind the
cache does not see it.

* `Memo.replies_eq` : requests with one key have one reply
* `Memo.state_final` : behind the cache, the machine has run over the first requests with their keys
* `Memo.cache_final_eq_none` : a key is not in the cache exactly when no request had it
-/

namespace Lib

variable {σ τ ρ α κ : Type*}

/-! ### Runs -/

/-- The replies of a machine to a list of requests. -/
def replies (step : σ → ρ → α × σ) (s : σ) (qs : List ρ) : List α :=
  (outputs step s qs).map Prod.fst

/-- The state in which a list of requests leaves a machine. -/
def final (step : σ → ρ → α × σ) (s : σ) (qs : List ρ) : σ :=
  qs.foldl (fun s q => (step s q).2) s

section Runs

variable (step : σ → ρ → α × σ) (s : σ)

@[simp]
theorem replies_nil : replies step s [] = [] := rfl

@[simp]
theorem replies_cons (q : ρ) (qs : List ρ) :
    replies step s (q :: qs) = (step s q).1 :: replies step (step s q).2 qs := rfl

@[simp]
theorem final_nil : final step s [] = s := rfl

@[simp]
theorem final_cons (q : ρ) (qs : List ρ) :
    final step s (q :: qs) = final step (step s q).2 qs := rfl

theorem final_append (qs qs' : List ρ) :
    final step s (qs ++ qs') = final step (final step s qs) qs' := by
  unfold final
  exact List.foldl_append

@[simp]
theorem final_concat (qs : List ρ) (q : ρ) :
    final step s (qs ++ [q]) = (step (final step s qs) q).2 := by
  rw [final_append, final_cons, final_nil]

@[simp]
theorem length_replies (qs : List ρ) : (replies step s qs).length = qs.length := by
  induction qs generalizing s with
  | nil => rfl
  | cons q qs ih => rw [replies_cons, List.length_cons, List.length_cons, ih]

/-- The reply to a request is given in the state that the requests before it have left. -/
theorem replies_getElem (qs : List ρ) (i : ℕ) (hi : i < qs.length) :
    (replies step s qs)[i]? = some (step (final step s (qs.take i)) qs[i]).1 := by
  induction qs generalizing s i with
  | nil => exact absurd hi (Nat.not_lt_zero i)
  | cons q qs ih =>
    cases i with
    | zero => rfl
    | succ i =>
      rw [replies_cons, List.getElem?_cons_succ, ih _ i (Nat.lt_of_succ_lt_succ hi),
        List.take_succ_cons, final_cons, List.getElem_cons_succ]

end Runs

/-- **Simulation.**  What commutes with every step commutes with the run, and the replies agree. -/
theorem final_hom {step : σ → ρ → α × σ} {step' : τ → ρ → α × τ} (f : σ → τ)
    (hstep : ∀ s q, step' (f s) q = ((step s q).1, f (step s q).2)) (s : σ) (qs : List ρ) :
    final step' (f s) qs = f (final step s qs) := by
  unfold final
  apply List.foldl_hom
  intro s q
  rw [hstep]

theorem replies_hom {step : σ → ρ → α × σ} {step' : τ → ρ → α × τ} (f : σ → τ)
    (hstep : ∀ s q, step' (f s) q = ((step s q).1, f (step s q).2)) (s : σ) (qs : List ρ) :
    replies step' (f s) qs = replies step s qs := by
  induction qs generalizing s with
  | nil => rfl
  | cons q qs ih => rw [replies_cons, replies_cons, hstep, ih]

/-! ### The cache -/

/-- A machine behind a cache of its replies. -/
structure Memo (κ α σ : Type*) where
  cache : κ → Option α
  state : σ

namespace Memo

/-- Nothing was answered yet. -/
def init (s : σ) : Memo κ α σ := ⟨fun _ => none, s⟩

variable [DecidableEq κ] (key : ρ → κ) (exec : σ → ρ → α × σ)

def step (m : Memo κ α σ) (q : ρ) : α × Memo κ α σ :=
  match m.cache (key q) with
  | some a => (a, m)
  | none =>
    let (a, s) := exec m.state q
    (a, ⟨Function.update m.cache (key q) (some a), s⟩)

variable {key exec} {m : Memo κ α σ} {q : ρ} {a : α} {k : κ}

theorem step_of_cached (h : m.cache (key q) = some a) : m.step key exec q = (a, m) := by
  unfold step
  rw [h]

theorem step_of_fresh (h : m.cache (key q) = none) :
    m.step key exec q = ((exec m.state q).1,
      ⟨Function.update m.cache (key q) (some (exec m.state q).1), (exec m.state q).2⟩) := by
  unfold step
  rw [h]

/-- The reply to a request is in the cache afterwards. -/
theorem cache_step (m : Memo κ α σ) (q : ρ) :
    (m.step key exec q).2.cache (key q) = some (m.step key exec q).1 := by
  cases h : m.cache (key q) with
  | some a => rw [step_of_cached h]; exact h
  | none => rw [step_of_fresh h]; exact Function.update_self ..

/-- What is in the cache stays there. -/
theorem cache_step_of_cached (h : m.cache k = some a) :
    (m.step key exec q).2.cache k = some a := by
  cases hq : m.cache (key q) with
  | some b => rw [step_of_cached hq]; exact h
  | none =>
    have hne : k ≠ key q := by
      rintro rfl
      rw [hq] at h
      exact absurd h (by simp)
    rw [step_of_fresh hq]
    exact (Function.update_of_ne hne ..).trans h

theorem cache_final_of_cached (h : m.cache k = some a) (qs : List ρ) :
    (final (step key exec) m qs).cache k = some a := by
  induction qs generalizing m with
  | nil => exact h
  | cons q qs ih => exact ih (cache_step_of_cached h)

/-- The later of two requests with one key gets the reply of the earlier one. -/
theorem replies_eq_of_lt (m : Memo κ α σ) (qs : List ρ) {i j : ℕ} (hi : i < qs.length)
    (hj : j < i) (hkey : key qs[j] = key qs[i]) :
    (replies (step key exec) m qs)[i]? = (replies (step key exec) m qs)[j]? := by
  rw [replies_getElem _ _ _ i hi, replies_getElem _ _ _ j (hj.trans hi)]
  -- the requests before the later one begin with those up to the earlier one
  have htake : qs.take i = qs.take (j + 1) ++ (qs.take i).drop (j + 1) := by
    conv_lhs => rw [← List.take_append_drop (j + 1) (qs.take i)]
    rw [List.take_take, Nat.min_eq_left hj]
  have hcache : (final (step key exec) m (qs.take (j + 1))).cache (key qs[i]) =
      some ((final (step key exec) m (qs.take j)).step key exec qs[j]).1 := by
    rw [List.take_succ_eq_append_getElem (hj.trans hi), final_concat, ← hkey]
    exact cache_step _ _
  rw [htake, final_append, step_of_cached (cache_final_of_cached hcache _)]

/-- **One reply for a key.** -/
theorem replies_eq (m : Memo κ α σ) (qs : List ρ) {i j : ℕ} (hi : i < qs.length)
    (hj : j < qs.length) (hkey : key qs[j] = key qs[i]) :
    (replies (step key exec) m qs)[i]? = (replies (step key exec) m qs)[j]? := by
  rcases lt_trichotomy i j with hlt | rfl | hlt
  · exact (replies_eq_of_lt m qs hj hlt hkey.symm).symm
  · rfl
  · exact replies_eq_of_lt m qs hi hlt hkey

/-- A key is answered once a request had it. -/
theorem cache_final_eq_none (s : σ) (qs : List ρ) :
    (final (step key exec) (init s) qs).cache k = none ↔ k ∉ qs.map key := by
  induction qs using List.reverseRecOn with
  | nil => simp [init]
  | append_singleton qs q ih =>
    rw [final_concat, List.map_append, List.mem_append, not_or, ← ih, List.map_singleton,
      List.mem_singleton]
    cases hq : (final (step key exec) (init s) qs).cache (key q) with
    | some a =>
      rw [step_of_cached hq]
      refine ⟨fun h => ⟨h, ?_⟩, And.left⟩
      rintro rfl
      rw [hq] at h
      exact absurd h (by simp)
    | none =>
      rw [step_of_fresh hq]
      by_cases hk : k = key q
      · simp [hk]
      · simp [hk]

/-- **Each key reaches the machine once.**  The state behind the cache is the one in which the first
requests with their keys leave the machine. -/
theorem state_final (s : σ) (qs : List ρ) :
    (final (step key exec) (init s) qs).state = final exec s (firsts key qs) := by
  induction qs using List.reverseRecOn with
  | nil => rfl
  | append_singleton qs q ih =>
    have hseen : key q ∈ (firsts key qs).map key ↔
        (final (step key exec) (init s) qs).cache (key q) ≠ none := by
      rw [mem_map_firsts, ne_eq, cache_final_eq_none, not_not]
    rw [firsts_concat, final_concat]
    cases hq : (final (step key exec) (init s) qs).cache (key q) with
    | some a =>
      rw [if_pos (hseen.mpr (by simp [hq])), step_of_cached hq]
      exact ih
    | none =>
      rw [if_neg (fun h => hseen.mp h hq), step_of_fresh hq, final_concat, ← ih]

end Memo

end Lib
