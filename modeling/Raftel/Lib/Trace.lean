import Mathlib.Order.Lattice
import Mathlib.Data.List.Basic

/-!
# Traces of a sequential machine

A machine is given by its events: each event has a state before it and a state after it.  A `Trace`
is a list of valid events in the order they happened, each starting where the one before it ended.

The rules used on a trace are an invariant rule (`Trace.invariant`), and, for a machine whose states
have a rank that never decreases along the events, what the ranks of two events of one trace say
about their order (`Trace.later`, `Trace.eq_of_rank_eq`).  For a machine given by a step function,
`outputs_eq_iff` compares two of them on the same inputs.
-/

namespace Lib

variable {σ ε : Type*} {pre post : ε → σ} {ok ok' : ε → Prop}

/-- The lists of events that lead from `s₀` to a state. -/
inductive Trace (pre post : ε → σ) (ok : ε → Prop) (s₀ : σ) : List ε → σ → Prop
  | nil : Trace pre post ok s₀ [] s₀
  | snoc {l : List ε} {s : σ} {e : ε} (h : Trace pre post ok s₀ l s) (hpre : pre e = s)
      (hok : ok e) : Trace pre post ok s₀ (l ++ [e]) (post e)

namespace Trace

variable {s₀ s : σ} {l : List ε}

theorem ok_of_mem (h : Trace pre post ok s₀ l s) {e : ε} (he : e ∈ l) : ok e := by
  induction h with
  | nil => exact absurd he List.not_mem_nil
  | snoc _ _ hok ih =>
    rcases List.mem_append.mp he with he | he
    · exact ih he
    · rw [List.mem_singleton.mp he]
      exact hok

theorem mono (h : Trace pre post ok s₀ l s) (hmono : ∀ e ∈ l, ok e → ok' e) :
    Trace pre post ok' s₀ l s := by
  induction h with
  | nil => exact .nil
  | snoc _ hpre hok ih =>
    refine .snoc (ih fun e he => hmono e (List.mem_append_left _ he)) hpre (hmono _ ?_ hok)
    exact List.mem_append_right _ (List.mem_singleton_self _)

/-- **The invariant rule.**  What holds at first and is kept by every event of the trace holds at
the end and before and after every event. -/
theorem invariant (h : Trace pre post ok s₀ l s) {I : σ → Prop} (h₀ : I s₀)
    (hstep : ∀ e ∈ l, ok e → I (pre e) → I (post e)) :
    I s ∧ ∀ e ∈ l, I (pre e) ∧ I (post e) := by
  induction h with
  | nil => exact ⟨h₀, fun e he => absurd he List.not_mem_nil⟩
  | @snoc l s e _ hpre hok ih =>
    obtain ⟨hs, hall⟩ := ih fun e he => hstep e (List.mem_append_left _ he)
    have hIpre : I (pre e) := hpre ▸ hs
    have hIpost : I (post e) :=
      hstep e (List.mem_append_right _ (List.mem_singleton_self e)) hok hIpre
    refine ⟨hIpost, fun e' he' => ?_⟩
    rcases List.mem_append.mp he' with he' | he'
    · exact hall e' he'
    · rw [List.mem_singleton.mp he']
      exact ⟨hIpre, hIpost⟩

section Rank

variable {ρ : Type*} [LinearOrder ρ] (rank : σ → ρ)

/-- Every event of the trace ends at or below the rank of the last state. -/
theorem rank_post_le (h : Trace pre post ok s₀ l s)
    (hrank : ∀ e ∈ l, rank (pre e) ≤ rank (post e)) {e : ε} (he : e ∈ l) :
    rank (post e) ≤ rank s := by
  induction h with
  | nil => exact absurd he List.not_mem_nil
  | @snoc l s e' _ hpre _ ih =>
    rcases List.mem_append.mp he with he | he
    · calc rank (post e) ≤ rank s := ih (fun e he => hrank e (List.mem_append_left _ he)) he
        _ = rank (pre e') := by rw [hpre]
        _ ≤ rank (post e') := hrank e' (List.mem_append_right _ (List.mem_singleton_self e'))
    · rw [List.mem_singleton.mp he]

/-- **Facts propagate along a trace.**  Of two events, the one with the lower rank came first, and
what every event keeps and held after it still held before the other one. -/
theorem later (h : Trace pre post ok s₀ l s)
    (hrank : ∀ e ∈ l, rank (pre e) ≤ rank (post e)) {P : σ → Prop}
    (hstep : ∀ e ∈ l, ok e → P (pre e) → P (post e)) {e e' : ε} (he : e ∈ l) (he' : e' ∈ l)
    (hlt : rank (pre e) < rank (pre e')) (hP : P (post e)) : P (pre e') := by
  -- what held after an event of the trace holds at its end
  have hend : ∀ {l : List ε} {s : σ}, Trace pre post ok s₀ l s →
      (∀ e ∈ l, ok e → P (pre e) → P (post e)) → e ∈ l → P s := by
    intro l s h hstep he
    induction h with
    | nil => exact absurd he List.not_mem_nil
    | @snoc l s d _ hpre hok ih =>
      rcases List.mem_append.mp he with he | he
      · have hs : P s := ih (fun e he => hstep e (List.mem_append_left _ he)) he
        exact hstep d (List.mem_append_right _ (List.mem_singleton_self d)) hok (hpre ▸ hs)
      · rw [← List.mem_singleton.mp he]
        exact hP
  induction h with
  | nil => exact absurd he List.not_mem_nil
  | @snoc l s d ht hpre hok ih =>
    have hrank' : ∀ e ∈ l, rank (pre e) ≤ rank (post e) :=
      fun e he => hrank e (List.mem_append_left _ he)
    have hstep' : ∀ e ∈ l, ok e → P (pre e) → P (post e) :=
      fun e he => hstep e (List.mem_append_left _ he)
    rcases List.mem_append.mp he' with hl' | hl'
    · rcases List.mem_append.mp he with hl | hl
      · exact ih hrank' hstep' hl hl'
      · -- `e` is the last event: it cannot have the lower rank
        have hle : rank (pre e') ≤ rank (pre e) := by
          rw [List.mem_singleton.mp hl, hpre]
          exact (hrank' e' hl').trans (ht.rank_post_le rank hrank' hl')
        exact absurd hlt (not_lt.mpr hle)
    · rcases List.mem_append.mp he with hl | hl
      · rw [List.mem_singleton.mp hl', hpre]
        exact hend ht hstep' hl
      · rw [List.mem_singleton.mp hl, List.mem_singleton.mp hl'] at hlt
        exact absurd hlt (lt_irrefl _)

/-- **Events are determined by their rank.**  Two events of a trace that raise the rank and start at
the same rank are the same event. -/
theorem eq_of_rank_eq (h : Trace pre post ok s₀ l s)
    (hrank : ∀ e ∈ l, rank (pre e) ≤ rank (post e)) {e e' : ε} (he : e ∈ l) (he' : e' ∈ l)
    (hlt : rank (pre e) < rank (post e)) (hlt' : rank (pre e') < rank (post e'))
    (heq : rank (pre e) = rank (pre e')) : e = e' := by
  induction h with
  | nil => exact absurd he List.not_mem_nil
  | @snoc l s d ht hpre hok ih =>
    have hrank' : ∀ e ∈ l, rank (pre e) ≤ rank (post e) :=
      fun e he => hrank e (List.mem_append_left _ he)
    -- an event before the last one ends at or below the rank the last one starts with
    have hlast : ∀ e ∈ l, rank (post e) ≤ rank (pre d) :=
      fun e he => hpre ▸ ht.rank_post_le rank hrank' he
    rcases List.mem_append.mp he with hl | hl <;> rcases List.mem_append.mp he' with hl' | hl'
    · exact ih hrank' hl hl'
    · rw [List.mem_singleton.mp hl'] at heq
      exact absurd (hlast e hl) (not_le.mpr (heq ▸ hlt))
    · rw [List.mem_singleton.mp hl] at heq
      exact absurd (hlast e' hl') (not_le.mpr (heq ▸ hlt'))
    · rw [List.mem_singleton.mp hl, List.mem_singleton.mp hl']

end Rank

end Trace

/-! ### Two machines on the same inputs -/

section Lockstep

variable {ι ο : Type*}

/-- What a machine replies to one input after the other, with its state after each of them. -/
def outputs (step : σ → ι → ο × σ) : σ → List ι → List (ο × σ)
  | _, [] => []
  | s, i :: is => step s i :: outputs step (step s i).2 is

/-- The inputs with the states in which the machine is given them. -/
def inputsAt (step : σ → ι → ο × σ) : σ → List ι → List (σ × ι)
  | _, [] => []
  | s, i :: is => (s, i) :: inputsAt step (step s i).2 is

/-- **Lockstep.**  Two machines give the same outputs exactly when they agree on every input in the state
that one of them is in. -/
theorem outputs_eq_iff {step step' : σ → ι → ο × σ} (s : σ) (is : List ι) :
    outputs step s is = outputs step' s is ↔
      ∀ p ∈ inputsAt step' s is, step p.1 p.2 = step' p.1 p.2 := by
  induction is generalizing s with
  | nil => simp [outputs, inputsAt]
  | cons i is ih =>
    simp only [outputs, inputsAt, List.cons.injEq, List.forall_mem_cons]
    refine and_congr_right fun hstep => ?_
    rw [hstep]
    exact ih _

end Lockstep

end Lib
