import Mathlib.Logic.Basic

/-!
# Triples for programs with state and exceptions

`Triple P m Q E` : from a state in `P`, the program `m` either returns a value and a state in `Q`, or
raises an exception that ends in a state in `E`.  The rules follow the structure of a program; `Triple.bind`
chains two programs, `Triple.endState` is the case of an invariant.  `bind_of_ok` and `bind_of_error` follow
one run.
-/

namespace Lib

variable {ε σ α β : Type}

/-- Total over the outcomes: a value or an exception. -/
def Triple (P : σ → Prop) (m : EStateM ε σ α) (Q : α → σ → Prop) (E : ε → σ → Prop) : Prop :=
  ∀ s, P s →
    match m s with
    | .ok a s' => Q a s'
    | .error e s' => E e s'

namespace Triple

variable {P P' : σ → Prop} {Q : α → σ → Prop} {R : β → σ → Prop} {E : ε → σ → Prop}

theorem conseq {m : EStateM ε σ α} {Q' : α → σ → Prop} (h : Triple P m Q E)
    (hP : ∀ s, P' s → P s) (hQ : ∀ a s, Q a s → Q' a s) : Triple P' m Q' E := by
  intro s hs
  have h := h s (hP s hs)
  cases hm : m s with
  | ok a s' =>
    rw [hm] at h
    exact hQ a s' h
  | error e s' =>
    rw [hm] at h
    exact h

theorem pre {m : EStateM ε σ α} (h : Triple P m Q E) (hP : ∀ s, P' s → P s) : Triple P' m Q E :=
  h.conseq hP fun _ _ hq => hq

theorem errors {m : EStateM ε σ α} {E' : ε → σ → Prop} (h : Triple P m Q E)
    (hE : ∀ e s, E e s → E' e s) : Triple P m Q E' := by
  intro s hs
  have h := h s hs
  cases hm : m s with
  | ok a s' =>
    rw [hm] at h
    exact h
  | error e s' =>
    rw [hm] at h
    exact hE e s' h

/-- A fact of the precondition that is not about the state. -/
theorem given {φ : Prop} {m : EStateM ε σ α} (h : φ → Triple P m Q E) :
    Triple (fun s => P s ∧ φ) m Q E :=
  fun s hs => h hs.2 s hs.1

theorem ret {a : α} (h : ∀ s, P s → Q a s) : Triple P (pure a : EStateM ε σ α) Q E :=
  fun s hs => h s hs

theorem bind {m : EStateM ε σ α} {f : α → EStateM ε σ β} (hm : Triple P m Q E)
    (hf : ∀ a, Triple (Q a) (f a) R E) : Triple P (m >>= f) R E := by
  intro s hs
  have h := hm s hs
  show match EStateM.bind m f s with
    | .ok a s' => R a s'
    | .error e s' => E e s'
  unfold EStateM.bind
  cases hms : m s with
  | ok a s' =>
    rw [hms] at h
    exact hf a s' h
  | error e s' =>
    rw [hms] at h
    exact h

theorem cond {c : Prop} [Decidable c] {m m' : EStateM ε σ α}
    (hm : c → Triple P m Q E) (hm' : ¬ c → Triple P m' Q E) :
    Triple P (if c then m else m') Q E := by
  split
  · next h => exact hm h
  · next h => exact hm' h

theorem read {Q : σ → σ → Prop} (h : ∀ s, P s → Q s s) :
    Triple P (get : EStateM ε σ σ) Q E :=
  fun s hs => h s hs

/-- To read the state is to give it a name. -/
theorem read_bind {f : σ → EStateM ε σ β}
    (h : ∀ s₀, P s₀ → Triple (fun s => s = s₀) (f s₀) R E) : Triple P (get >>= f) R E :=
  fun s hs => h s hs s rfl

theorem update {f : σ → σ} {Q : PUnit → σ → Prop} (h : ∀ s, P s → Q ⟨⟩ (f s)) :
    Triple P (modify f : EStateM ε σ PUnit) Q E :=
  fun s hs => h s hs

theorem assign {s' : σ} {Q : PUnit → σ → Prop} (h : ∀ s, P s → Q ⟨⟩ s') :
    Triple P (set s' : EStateM ε σ PUnit) Q E :=
  fun s hs => h s hs

theorem raise {e : ε} (h : ∀ s, P s → E e s) : Triple P (throw e : EStateM ε σ α) Q E :=
  fun s hs => h s hs

end Triple

/-! ### One run -/

/-- The state in which a program ends. -/
def endState : EStateM.Result ε σ α → σ
  | .ok _ s => s
  | .error _ s => s

/-- What holds after a value and after an exception holds at the end. -/
theorem Triple.endState {P Q : σ → Prop} {m : EStateM ε σ α} (h : Triple P m (fun _ => Q) fun _ => Q)
    {s : σ} (hs : P s) : Q (endState (m s)) := by
  have h := h s hs
  unfold Lib.endState
  cases hm : m s with
  | ok a s' =>
    rw [hm] at h
    exact h
  | error e s' =>
    rw [hm] at h
    exact h

/-- After a program that returns, the rest runs. -/
theorem bind_of_ok {m : EStateM ε σ α} {f : α → EStateM ε σ β} {s s' : σ} {a : α}
    (h : m s = .ok a s') : (m >>= f) s = f a s' := by
  show EStateM.bind m f s = f a s'
  unfold EStateM.bind
  rw [h]

/-- After an exception, nothing runs. -/
theorem bind_of_error {m : EStateM ε σ α} {f : α → EStateM ε σ β} {s s' : σ} {e : ε}
    (h : m s = .error e s') : (m >>= f) s = .error e s' := by
  show EStateM.bind m f s = _
  unfold EStateM.bind
  rw [h]

end Lib
