import Raftel.Lib.Hoare

/-!
# Two runs of one program

`Lockstep P m Q E` : from two states that are related by `P`, the program `m` does the same.  It
returns one value and states related by `Q`, or raises one exception and leaves states related by `E`.
With a relation that leaves a part of the state open, this says that `m` does not see this part.
-/

namespace Lib

variable {ε σ α β : Type}

/-- The results of two runs: the same value or the same exception. -/
inductive SameResult (Q E : σ → σ → Prop) : EStateM.Result ε σ α → EStateM.Result ε σ α → Prop
  | ok {a : α} {s s' : σ} (h : Q s s') : SameResult Q E (.ok a s) (.ok a s')
  | error {e : ε} {s s' : σ} (h : E s s') : SameResult Q E (.error e s) (.error e s')

/-- The program does the same from related states. -/
def Lockstep (P : σ → σ → Prop) (m : EStateM ε σ α) (Q E : σ → σ → Prop) : Prop :=
  ∀ s s', P s s' → SameResult Q E (m s) (m s')

namespace Lockstep

variable {P P' Q Q' R E : σ → σ → Prop}

theorem conseq {m : EStateM ε σ α} (h : Lockstep P m Q E) (hP : ∀ s s', P' s s' → P s s')
    (hQ : ∀ s s', Q s s' → Q' s s') : Lockstep P' m Q' E := by
  intro s s' hs
  have hsame := h s s' (hP s s' hs)
  generalize m s = r at hsame ⊢
  generalize m s' = r' at hsame ⊢
  cases hsame with
  | ok h => exact .ok (hQ _ _ h)
  | error h => exact .error h

theorem ret {a : α} (h : ∀ s s', P s s' → Q s s') : Lockstep P (pure a : EStateM ε σ α) Q E :=
  fun s s' hs => .ok (h s s' hs)

theorem raise {e : ε} (h : ∀ s s', P s s' → E s s') : Lockstep P (throw e : EStateM ε σ α) Q E :=
  fun s s' hs => .error (h s s' hs)

theorem bind {m : EStateM ε σ α} {f : α → EStateM ε σ β} (hm : Lockstep P m Q E)
    (hf : ∀ a, Lockstep Q (f a) R E) : Lockstep P (m >>= f) R E := by
  intro s s' hs
  have hsame := hm s s' hs
  cases hms : m s with
  | ok a t =>
    cases hms' : m s' with
    | ok a' t' =>
      rw [bind_of_ok hms, bind_of_ok hms']
      rw [hms, hms'] at hsame
      cases hsame with
      | ok h => exact hf a t t' h
    | error e t' =>
      rw [hms, hms'] at hsame
      cases hsame
  | error e t =>
    cases hms' : m s' with
    | ok a' t' =>
      rw [hms, hms'] at hsame
      cases hsame
    | error e' t' =>
      rw [bind_of_error hms, bind_of_error hms']
      rw [hms, hms'] at hsame
      cases hsame with
      | error h => exact .error h

theorem map {m : EStateM ε σ α} (f : α → β) (hm : Lockstep P m Q E) : Lockstep P (f <$> m) Q E := by
  rw [map_eq_pure_bind]
  exact hm.bind fun _ => ret fun _ _ h => h

theorem cond {c : Prop} [Decidable c] {m m' : EStateM ε σ α} (hm : c → Lockstep P m Q E)
    (hm' : ¬ c → Lockstep P m' Q E) : Lockstep P (if c then m else m') Q E := by
  split
  · next h => exact hm h
  · next h => exact hm' h

/-- What is read decides nothing when both states give the same rest. -/
theorem read_bind {f : σ → EStateM ε σ β} (hf : ∀ s s', P s s' → f s' = f s)
    (h : ∀ s s', P s s' → Lockstep P (f s) Q E) : Lockstep P (get >>= f) Q E := by
  intro s s' hs
  show SameResult Q E (f s s) (f s' s')
  rw [hf s s' hs]
  exact h s s' hs s s' hs

/-- A program that always returns, its value and the new state given. -/
theorem step {m : EStateM ε σ α} {a : σ → α} {f : σ → σ} (hm : ∀ s, m s = .ok (a s) (f s))
    (h : ∀ s s', P s s' → a s' = a s ∧ Q (f s) (f s')) : Lockstep P m Q E := by
  intro s s' hs
  obtain ⟨ha, hf⟩ := h s s' hs
  rw [hm, hm, ha]
  exact .ok hf

theorem update {f : σ → σ} (h : ∀ s s', P s s' → Q (f s) (f s')) :
    Lockstep P (modify f : EStateM ε σ PUnit) Q E :=
  step (fun _ => rfl) fun s s' hs => ⟨rfl, h s s' hs⟩

end Lockstep

end Lib
