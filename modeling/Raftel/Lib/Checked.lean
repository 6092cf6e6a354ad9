import Raftel.Lib.Hoare
import Mathlib.Data.Nat.Notation

/-!
# Programs that may read beyond an array

A read at an index that is not below the length of the array has no result.  `slots` are the reads of
a loop over an array, and `Checked` programs are those with state and exceptions that make such reads.

* `readAll_eq_some` : a loop reads in range exactly when its bound is at most the length
* `Safe P c Q E` : from a state in `P`, the program reads in range and ends as a triple says
* `Ensures P c Q E` : it ends as a triple says, if it reads in range
* `Follows P c m Q E` : moreover it does what the program `m`, which makes no reads, does
* `isSome_of_meets`, `meets_of_isSome` : the runs of a system whose steps may have no result
-/

namespace Lib

/-! ### Loops over an array -/

section Slots

variable {α : Type} {n : ℕ} {a : Vector α n} {size : ℕ}

/-- The reads at the indices below `size`, in order. -/
def slots (a : Vector α n) (size : ℕ) : List (Option α) := (List.range size).map fun i => a[i]?

/-- The loop that reads them all. -/
def readAll (a : Vector α n) (size : ℕ) : Option (List α) := (slots a size).mapM fun read => read

theorem slots_eq (h : size ≤ n) : slots a size = (a.toList.take size).map some := by
  apply List.ext_getElem
  · simp [slots, h]
  · intro i hi hi'
    have hin : i < n := by
      simp only [slots, List.length_map, List.length_range] at hi
      omega
    simp [slots, hin]

/-- Beyond the end of the array every read fails. -/
theorem slots_eq_append (h : n ≤ size) :
    slots a size = a.toList.map some ++ List.replicate (size - n) none := by
  apply List.ext_getElem
  · simp only [slots, List.length_map, List.length_range, List.length_append, Vector.length_toList,
      List.length_replicate]
    omega
  · intro i hi hi'
    by_cases hin : i < n
    · rw [List.getElem_append_left (by simpa using hin)]
      simp [slots, hin]
    · rw [List.getElem_append_right (by simpa using hin)]
      simp [slots, hin]

theorem mapM_map_some (l : List α) : (l.map some).mapM (fun read => read) = some l := by
  induction l with
  | nil => rfl
  | cons x xs ih => simp [List.mapM_cons, ih]

theorem readAll_eq (h : size ≤ n) : readAll a size = some (a.toList.take size) := by
  rw [readAll, slots_eq h, mapM_map_some]

theorem readAll_eq_none (h : n < size) : readAll a size = none := by
  have hfail : ∀ l : List α, ((l.map some) ++ List.replicate (size - n) none).mapM
      (fun read => read) = none := by
    intro l
    induction l with
    | nil =>
      obtain ⟨k, hk⟩ := Nat.exists_eq_succ_of_ne_zero (Nat.sub_ne_zero_of_lt h)
      rw [hk, List.replicate_succ]
      rfl
    | cons x xs ih =>
      rw [List.map_cons, List.cons_append, List.mapM_cons, ih]
      rfl
  rw [readAll, slots_eq_append (Nat.le_of_lt h), hfail]

/-- A loop reads in range exactly when its bound is at most the length. -/
theorem isSome_readAll : (readAll a size).isSome ↔ size ≤ n := by
  by_cases h : size ≤ n
  · simp [readAll_eq h, h]
  · simp [readAll_eq_none (Nat.lt_of_not_le h), h]

end Slots

/-! ### Programs -/

/-- Programs with state and exceptions that have no result when a read is out of range. -/
abbrev Checked (ε σ : Type) := ExceptT ε (StateT σ Option)

variable {ε σ α β : Type}

/-- A program that makes no reads. -/
def Checked.lift (m : EStateM ε σ α) : Checked ε σ α := fun s =>
  match m s with
  | .ok a s' => some (.ok a, s')
  | .error e s' => some (.error e, s')

instance : MonadLift (EStateM ε σ) (Checked ε σ) := ⟨Checked.lift⟩

/-- A value and a state in `Q`, or an exception in a state in `E`. -/
def Ends (Q : α → σ → Prop) (E : σ → Prop) : Except ε α × σ → Prop
  | (.ok a, s) => Q a s
  | (.error _, s) => E s

/-- From a state in `P`, every read is in range, and the outcome is as in a triple. -/
def Safe (P : σ → Prop) (c : Checked ε σ α) (Q : α → σ → Prop) (E : σ → Prop) : Prop :=
  ∀ s, P s → ∃ r, c s = some r ∧ Ends Q E r

/-- From a state in `P`, the outcome is as in a triple if every read is in range. -/
def Ensures (P : σ → Prop) (c : Checked ε σ α) (Q : α → σ → Prop) (E : σ → Prop) : Prop :=
  ∀ s r, P s → c s = some r → Ends Q E r

/-- From a state in `P`, the program reads in range and does what `m` does. -/
structure Follows (P : σ → Prop) (c : Checked ε σ α) (m : EStateM ε σ α) (Q : α → σ → Prop)
    (E : σ → Prop) : Prop where
  eq : ∀ s, P s → c s = Checked.lift m s
  safe : Safe P c Q E

/-! ### Rules -/

theorem Checked.bind_apply (c : Checked ε σ α) (f : α → Checked ε σ β) (s : σ) :
    (c >>= f) s = (c s).bind fun r =>
      match r with
      | (.ok a, s') => f a s'
      | (.error e, s') => some (.error e, s') := by
  show (c s).bind _ = _
  congr 1
  funext r
  obtain ⟨x, s'⟩ := r
  cases x <;> rfl

theorem Checked.lift_bind (m : EStateM ε σ α) (f : α → EStateM ε σ β) (s : σ) :
    Checked.lift (m >>= f) s = (Checked.lift m s).bind fun r =>
      match r with
      | (.ok a, s') => Checked.lift (f a) s'
      | (.error e, s') => some (.error e, s') := by
  show Checked.lift (EStateM.bind m f) s = _
  unfold Checked.lift EStateM.bind
  cases m s <;> rfl

/-- A read in range is the value. -/
@[simp]
theorem Checked.read_some (a : α) : (liftM (some a) : Checked ε σ α) = pure a := rfl

namespace Safe

variable {P P' : σ → Prop} {Q Q' : α → σ → Prop} {R : β → σ → Prop} {E : σ → Prop}

theorem conseq {c : Checked ε σ α} (h : Safe P c Q E) (hP : ∀ s, P' s → P s)
    (hQ : ∀ a s, Q a s → Q' a s) : Safe P' c Q' E := by
  intro s hs
  obtain ⟨⟨x, s'⟩, hrun, hends⟩ := h s (hP s hs)
  refine ⟨(x, s'), hrun, ?_⟩
  cases x with
  | ok a => exact hQ a s' hends
  | error e => exact hends

theorem pre {c : Checked ε σ α} (h : Safe P c Q E) (hP : ∀ s, P' s → P s) : Safe P' c Q E :=
  h.conseq hP fun _ _ hq => hq

theorem ret {a : α} (h : ∀ s, P s → Q a s) : Safe P (pure a : Checked ε σ α) Q E :=
  fun s hs => ⟨(.ok a, s), rfl, h s hs⟩

theorem bind {c : Checked ε σ α} {f : α → Checked ε σ β} (hc : Safe P c Q E)
    (hf : ∀ a, Safe (Q a) (f a) R E) : Safe P (c >>= f) R E := by
  intro s hs
  obtain ⟨⟨x, s'⟩, hrun, hends⟩ := hc s hs
  rw [Checked.bind_apply, hrun]
  cases x with
  | ok a => exact hf a s' hends
  | error e => exact ⟨_, rfl, hends⟩

theorem cond {p : Prop} [Decidable p] {c c' : Checked ε σ α} (hc : p → Safe P c Q E)
    (hc' : ¬ p → Safe P c' Q E) : Safe P (if p then c else c') Q E := by
  split
  · next h => exact hc h
  · next h => exact hc' h

/-- To read the state is to give it a name. -/
theorem get {f : σ → Checked ε σ α} (h : ∀ s₀, P s₀ → Safe (fun s => s = s₀) (f s₀) Q E) :
    Safe P (MonadState.get >>= f) Q E :=
  fun s hs => h s hs s rfl

theorem update {f : σ → σ} {Q : PUnit → σ → Prop} (h : ∀ s, P s → Q ⟨⟩ (f s)) :
    Safe P (modify f : Checked ε σ PUnit) Q E :=
  fun s hs => ⟨(.ok ⟨⟩, f s), rfl, h s hs⟩

theorem assign {s' : σ} {Q : PUnit → σ → Prop} (h : ∀ s, P s → Q ⟨⟩ s') :
    Safe P (MonadStateOf.set s' : Checked ε σ PUnit) Q E :=
  fun s hs => ⟨(.ok ⟨⟩, s'), rfl, h s hs⟩

theorem raise {e : ε} (h : ∀ s, P s → E s) : Safe P (throw e : Checked ε σ α) Q E :=
  fun s hs => ⟨(.error e, s), rfl, h s hs⟩

/-- A read that is in range. -/
theorem read {x : Option α} {f : α → Checked ε σ β} {a : α} (hx : x = some a)
    (h : Safe P (f a) R E) : Safe P (liftM x >>= f) R E := by
  subst hx
  exact h

/-- A program that makes no reads is safe. -/
theorem lift {m : EStateM ε σ α} (h : Triple P m Q fun _ => E) : Safe P (liftM m : Checked ε σ α) Q E := by
  intro s hs
  have hpost := h s hs
  show ∃ r, Checked.lift m s = some r ∧ _
  unfold Checked.lift
  cases hm : m s with
  | ok a s' =>
    rw [hm] at hpost
    exact ⟨_, rfl, hpost⟩
  | error e s' =>
    rw [hm] at hpost
    exact ⟨_, rfl, hpost⟩

end Safe

namespace Ensures

variable {P P' : σ → Prop} {Q Q' : α → σ → Prop} {R : β → σ → Prop} {E : σ → Prop}

theorem pre {c : Checked ε σ α} (h : Ensures P c Q E) (hP : ∀ s, P' s → P s) :
    Ensures P' c Q E :=
  fun s r hs hrun => h s r (hP s hs) hrun

theorem ret {a : α} (h : ∀ s, P s → Q a s) : Ensures P (pure a : Checked ε σ α) Q E := by
  intro s r hs hrun
  cases hrun
  exact h s hs

theorem bind {c : Checked ε σ α} {f : α → Checked ε σ β} (hc : Ensures P c Q E)
    (hf : ∀ a, Ensures (Q a) (f a) R E) : Ensures P (c >>= f) R E := by
  intro s r hs hrun
  rw [Checked.bind_apply] at hrun
  obtain ⟨⟨x, s'⟩, hc', hrun⟩ := Option.bind_eq_some_iff.mp hrun
  have hends := hc s _ hs hc'
  cases x with
  | ok a => exact hf a s' r hends hrun
  | error e =>
    cases hrun
    exact hends

theorem cond {p : Prop} [Decidable p] {c c' : Checked ε σ α} (hc : p → Ensures P c Q E)
    (hc' : ¬ p → Ensures P c' Q E) : Ensures P (if p then c else c') Q E := by
  split
  · next h => exact hc h
  · next h => exact hc' h

/-- To read the state is to give it a name. -/
theorem get {f : σ → Checked ε σ α} (h : ∀ s₀, P s₀ → Ensures (fun s => s = s₀) (f s₀) Q E) :
    Ensures P (MonadState.get >>= f) Q E :=
  fun s r hs hrun => h s hs s r rfl hrun

theorem raise {e : ε} (h : ∀ s, P s → E s) : Ensures P (throw e : Checked ε σ α) Q E := by
  intro s r hs hrun
  cases hrun
  exact h s hs

/-- What is read in range has a value. -/
theorem read {x : Option α} {f : α → Checked ε σ β} (h : ∀ a, x = some a → Ensures P (f a) R E) :
    Ensures P (liftM x >>= f) R E := by
  intro s r hs hrun
  cases x with
  | none => exact nomatch hrun
  | some a => exact h a rfl s r hs hrun

/-- A program with one outcome in each state. -/
theorem of_run {c : Checked ε σ α} (h : ∀ s, P s → ∃ a s', c s = some (.ok a, s') ∧ Q a s') :
    Ensures P c Q E := by
  intro s r hs hrun
  obtain ⟨a, s', hc, hQ⟩ := h s hs
  cases hc.symm.trans hrun
  exact hQ

end Ensures

namespace Follows

variable {P P' : σ → Prop} {Q Q' : α → σ → Prop} {R : β → σ → Prop} {E : σ → Prop}

theorem conseq {c : Checked ε σ α} {m : EStateM ε σ α} (h : Follows P c m Q E)
    (hP : ∀ s, P' s → P s) (hQ : ∀ a s, Q a s → Q' a s) : Follows P' c m Q' E :=
  ⟨fun s hs => h.eq s (hP s hs), h.safe.conseq hP hQ⟩

theorem pre {c : Checked ε σ α} {m : EStateM ε σ α} (h : Follows P c m Q E)
    (hP : ∀ s, P' s → P s) : Follows P' c m Q E :=
  h.conseq hP fun _ _ hq => hq

theorem ret {a : α} (h : ∀ s, P s → Q a s) :
    Follows P (pure a : Checked ε σ α) (pure a) Q E :=
  ⟨fun _ _ => rfl, Safe.ret h⟩

theorem bind {c : Checked ε σ α} {m : EStateM ε σ α} {f : α → Checked ε σ β}
    {g : α → EStateM ε σ β} (hc : Follows P c m Q E) (hf : ∀ a, Follows (Q a) (f a) (g a) R E) :
    Follows P (c >>= f) (m >>= g) R E := by
  refine ⟨fun s hs => ?_, hc.safe.bind fun a => (hf a).safe⟩
  obtain ⟨⟨x, s'⟩, hrun, hends⟩ := hc.safe s hs
  rw [Checked.bind_apply, Checked.lift_bind, ← hc.eq s hs, hrun]
  cases x with
  | ok a => exact (hf a).eq s' hends
  | error e => rfl

theorem cond {p : Prop} [Decidable p] {c c' : Checked ε σ α} {m m' : EStateM ε σ α}
    (hc : p → Follows P c m Q E) (hc' : ¬ p → Follows P c' m' Q E) :
    Follows P (if p then c else c') (if p then m else m') Q E := by
  split
  · next h => exact hc h
  · next h => exact hc' h

/-- To read the state is to give it a name. -/
theorem get {f : σ → Checked ε σ α} {g : σ → EStateM ε σ α}
    (h : ∀ s₀, P s₀ → Follows (fun s => s = s₀) (f s₀) (g s₀) Q E) :
    Follows P (MonadState.get >>= f) (MonadState.get >>= g) Q E :=
  ⟨fun s hs => (h s hs).eq s rfl, Safe.get fun s hs => (h s hs).safe⟩

/-- Two updates that agree. -/
theorem update_of_eq {f g : σ → σ} {Q : PUnit → σ → Prop} (heq : ∀ s, P s → f s = g s)
    (h : ∀ s, P s → Q ⟨⟩ (g s)) : Follows P (modify f : Checked ε σ PUnit) (modify g) Q E := by
  refine ⟨fun s hs => ?_, Safe.update fun s hs => heq s hs ▸ h s hs⟩
  show some (Except.ok PUnit.unit, f s) = some (Except.ok PUnit.unit, g s)
  rw [heq s hs]

theorem update {f : σ → σ} {Q : PUnit → σ → Prop} (h : ∀ s, P s → Q ⟨⟩ (f s)) :
    Follows P (modify f : Checked ε σ PUnit) (modify f) Q E :=
  update_of_eq (fun _ _ => rfl) h

theorem assign {s' : σ} {Q : PUnit → σ → Prop} (h : ∀ s, P s → Q ⟨⟩ s') :
    Follows P (MonadStateOf.set s' : Checked ε σ PUnit) (MonadStateOf.set s') Q E :=
  ⟨fun _ _ => rfl, Safe.assign h⟩

theorem raise {e : ε} (h : ∀ s, P s → E s) :
    Follows P (throw e : Checked ε σ α) (throw e) Q E :=
  ⟨fun _ _ => rfl, Safe.raise h⟩

/-- A read that is in range, where the other program has its value. -/
theorem read {x : Option α} {f : α → Checked ε σ β} {m : EStateM ε σ β} {a : α} (hx : x = some a)
    (h : Follows P (f a) m R E) : Follows P (liftM x >>= f) m R E := by
  subst hx
  exact h

/-- A program that makes no reads follows itself. -/
theorem lift {m : EStateM ε σ α} (h : Triple P m Q fun _ => E) :
    Follows P (liftM m : Checked ε σ α) m Q E :=
  ⟨fun _ _ => rfl, Safe.lift h⟩

end Follows

/-! ### Runs -/

section Runs

variable {ι : Type} {step : σ → ι → Option σ} {inv : σ → Prop} {ok : σ → ι → Prop} {s : σ}
  {inputs : List ι}

/-- Every step of the run meets the condition, in the state that it starts from. -/
def Meets (step : σ → ι → Option σ) (ok : σ → ι → Prop) : σ → List ι → Prop
  | _, [] => True
  | s, i :: inputs => ok s i ∧ ∀ s', step s i = some s' → Meets step ok s' inputs

/-- Steps that meet the condition keep the invariant, and have a result. -/
theorem isSome_of_meets (hstep : ∀ s i, inv s → ok s i → ∃ s', step s i = some s' ∧ inv s')
    (hs : inv s) (h : Meets step ok s inputs) : (inputs.foldlM step s).isSome := by
  induction inputs generalizing s with
  | nil => rfl
  | cons i inputs ih =>
    obtain ⟨s', hrun, hs'⟩ := hstep s i hs h.1
    rw [List.foldlM_cons, hrun]
    exact ih hs' (h.2 s' hrun)

/-- A condition without which a step has no result is met by the steps of a run. -/
theorem meets_of_isSome (hstep : ∀ s i, (step s i).isSome → ok s i)
    (h : (inputs.foldlM step s).isSome) : Meets step ok s inputs := by
  induction inputs generalizing s with
  | nil => exact trivial
  | cons i inputs ih =>
    rw [List.foldlM_cons] at h
    cases hrun : step s i with
    | none =>
      rw [hrun] at h
      exact absurd h Bool.false_ne_true
    | some s' =>
      rw [hrun] at h
      refine ⟨hstep s i (Option.isSome_iff_exists.mpr ⟨s', hrun⟩), fun s'' hs'' => ?_⟩
      rw [hrun, Option.some.injEq] at hs''
      exact ih (hs'' ▸ h)

end Runs

end Lib
