import Mathlib.Data.List.Basic

/-!
# Readers of a stream

A `Reader` takes a value off the front of a stream, or fails when the stream does not begin with one.
`Undoes r w x` says that `r` undoes the writing of `x` as `w`: whatever follows `w`, the reader returns
`x` and leaves exactly what follows.  The rules go along the structure of a reader, so that the
round trip of a record is put together from those of its fields, in their order.

* `Undoes.bind`, `Undoes.map` : one after the other
* `Undoes.array` : a loop over an array of fixed length
-/

namespace Lib

variable {β α γ : Type} {n : ℕ}

/-- A reader of values of type `α` from a stream of elements of type `β`. -/
abbrev Reader (β α : Type) := StateT (List β) Option α

/-- The reader `r` undoes the writing of `x` as `w`, and consumes just what was written. -/
def Undoes (r : Reader β α) (w : List β) (x : α) : Prop := ∀ rest, r.run (w ++ rest) = some (x, rest)

theorem Undoes.pure (x : α) : Undoes (Pure.pure x : Reader β α) [] x := fun _ => rfl

theorem Undoes.bind {r : Reader β α} {f : α → Reader β γ} {w w' : List β} {x : α} {y : γ}
    (hr : Undoes r w x) (hf : Undoes (f x) w' y) : Undoes (r >>= f) (w ++ w') y := by
  intro rest
  rw [List.append_assoc, StateT.run_bind, hr]
  exact hf rest

/-- The last reader of a sequence, whose value is only put into a record. -/
theorem Undoes.map {r : Reader β α} {w : List β} {x : α} (f : α → γ) (hr : Undoes r w x) :
    Undoes (r >>= fun a => Pure.pure (f a)) w (f x) := by
  intro rest
  rw [StateT.run_bind, hr]
  rfl

/-- A loop that reads the `n` elements of an array. -/
def readArray (r : Reader β α) : (n : ℕ) → Reader β (Vector α n)
  | 0 => Pure.pure #v[]
  | n + 1 => do
    let xs ← readArray r n
    let x ← r
    Pure.pure (xs.push x)

/-- A loop that writes the elements of an array. -/
def writeArray (write : α → List β) (xs : Vector α n) : List β := xs.toList.flatMap write

theorem writeArray_push (write : α → List β) (xs : Vector α n) (x : α) :
    writeArray write (xs.push x) = writeArray write xs ++ write x := by
  unfold writeArray
  rw [Vector.toList_push, List.flatMap_append, List.flatMap_singleton]

theorem Undoes.array {r : Reader β α} {w : α → List β} :
    ∀ {n : ℕ} (xs : Vector α n), (∀ x ∈ xs, Undoes r (w x) x) →
      Undoes (readArray r n) (writeArray w xs) xs := by
  intro n
  induction n with
  | zero =>
    intro xs _
    obtain rfl : xs = #v[] := Vector.eq_empty
    exact Undoes.pure _
  | succ n ih =>
    intro xs hxs
    -- the last element is read last
    obtain ⟨ys, y, rfl⟩ : ∃ ys y, xs = Vector.push ys y := ⟨xs.pop, xs.back, xs.push_pop_back.symm⟩
    have hys : Undoes (readArray r n) (writeArray w ys) ys :=
      ih ys fun x hx => hxs x (Vector.mem_push.mpr (Or.inl hx))
    have hy : Undoes r (w y) y := hxs y (Vector.mem_push.mpr (Or.inr rfl))
    rw [writeArray_push]
    exact hys.bind (hy.map fun x => ys.push x)

end Lib
