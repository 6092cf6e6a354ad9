import Mathlib.Data.List.Basic

/-!
# Frames of a stream

A `Framing` takes the first frame off a buffer, or asks for more.  `Parses F b xs r` says that the
frames `xs` stand at the front of `b`, and that `r` is what follows them.  More data changes none of the
frames that have been found (`Parses.append`), so a stream can be read in pieces, and two readers of one
stream differ only in how far they are (`Parses.split_of_le`).

* `Parses.prefix_of_written` : a reader of the beginning of what was written has found the first frames
* `Parses.eq_of_written` : if all of it has arrived and no frame is left, it has found all
-/

namespace Lib

/-- How frames are cut off a buffer. -/
structure Framing (β α : Type*) where
  next : List β → Option (α × List β)
  next_append : ∀ {b : List β} {x : α} {r : List β} (c : List β), next b = some (x, r) →
    next (b ++ c) = some (x, r ++ c)
  next_nil : next [] = none

variable {β α : Type*}

inductive Parses (F : Framing β α) : List β → List α → List β → Prop
  | nil (b : List β) : Parses F b [] b
  | cons {b r r' : List β} {x : α} {xs : List α} (h : F.next b = some (x, r)) (hr : Parses F r xs r') :
      Parses F b (x :: xs) r'

namespace Parses

variable {F : Framing β α} {b r r' : List β} {xs ys : List α}

theorem append (h : Parses F b xs r) (c : List β) : Parses F (b ++ c) xs (r ++ c) := by
  induction h with
  | nil b => exact .nil _
  | cons h _ ih => exact .cons (F.next_append c h) ih

/-- One reader goes on where another one has stopped. -/
theorem trans (h : Parses F b xs r) (h' : Parses F r ys r') : Parses F b (xs ++ ys) r' := by
  induction h with
  | nil b => exact h'
  | cons h _ ih => exact .cons h (ih h')

theorem concat (h : Parses F b xs r) {x : α} (hx : F.next r = some (x, r')) :
    Parses F b (xs ++ [x]) r' :=
  h.trans (.cons hx (.nil r'))

/-- **Two readers of one stream** differ in how far they are. -/
theorem split_of_le (h : Parses F b xs r) (h' : Parses F b ys r') (hle : xs.length ≤ ys.length) :
    ∃ zs, ys = xs ++ zs ∧ Parses F r zs r' := by
  induction h generalizing ys with
  | nil b => exact ⟨ys, rfl, h'⟩
  | cons h _ ih =>
    cases h' with
    | nil => simp at hle
    | cons hy hr =>
      rw [h, Option.some.injEq, Prod.mk.injEq] at hy
      obtain ⟨rfl, rfl⟩ := hy
      obtain ⟨zs, rfl, hzs⟩ := ih hr (by simpa using hle)
      exact ⟨zs, rfl, hzs⟩

/-- There are no frames where there is nothing. -/
theorem eq_nil (h : Parses F b xs r) (hnext : F.next b = none) : xs = [] ∧ r = b := by
  cases h with
  | nil => exact ⟨rfl, rfl⟩
  | cons hx => exact absurd (hnext.symm.trans hx) nofun

/-! ### Written frames -/

variable {enc : α → List β}

theorem written (henc : ∀ x ∈ xs, ∀ rest, F.next (enc x ++ rest) = some (x, rest)) :
    Parses F (xs.flatMap enc) xs [] := by
  induction xs with
  | nil => exact .nil []
  | cons x xs ih =>
    rw [List.flatMap_cons]
    exact .cons (henc x List.mem_cons_self _) (ih fun y hy => henc y (List.mem_cons_of_mem x hy))

/-- **A reader of the beginning of what was written** has found the first frames. -/
theorem prefix_of_written (henc : ∀ x ∈ xs, ∀ rest, F.next (enc x ++ rest) = some (x, rest))
    (h : Parses F b ys r) {c : List β} (hb : b ++ c = xs.flatMap enc) : ys <+: xs := by
  have hread : Parses F (xs.flatMap enc) ys (r ++ c) := hb ▸ h.append c
  rcases Nat.le_total ys.length xs.length with hle | hle
  · obtain ⟨zs, rfl, -⟩ := hread.split_of_le (written henc) hle
    exact List.prefix_append ys zs
  · obtain ⟨zs, rfl, hzs⟩ := (written henc).split_of_le hread hle
    -- nothing was written after `xs`
    have hnil : zs = [] := (hzs.eq_nil F.next_nil).1
    exact ⟨[], by rw [hnil, List.append_nil, List.append_nil]⟩

/-- **A reader of all that was written**, who finds no frame any more, has found all. -/
theorem eq_of_written (henc : ∀ x ∈ xs, ∀ rest, F.next (enc x ++ rest) = some (x, rest))
    (h : Parses F (xs.flatMap enc) ys r) (hnext : F.next r = none) : ys = xs ∧ r = [] := by
  obtain ⟨zs, rfl⟩ := h.prefix_of_written henc (List.append_nil _)
  obtain ⟨zs', hzs', hr⟩ := h.split_of_le (written henc) (by simp)
  have hnil := hr.eq_nil hnext
  rw [List.append_cancel_left hzs', hnil.1, List.append_nil]
  exact ⟨rfl, hnil.2.symm⟩

end Parses

end Lib
