import Mathlib.Data.List.Basic

/-!
# Texts that are fields written one after the other

A record is written as the concatenation of its fields, with nothing between them.  Two records that
give the same text have the same fields, or the same characters are cut at different places: up to some
field they agree, and there one of them goes on with the first characters of what follows in the other
(`Recut`).
-/

namespace Lib

variable {α : Type}

/-- The fields `xs` and `ys` agree up to a field of `xs` that ends before the one of `ys` does: the
characters `w` belong to the next fields of `xs` and still to this one of `ys`. -/
def CutBefore (xs ys : List (List α)) : Prop :=
  ∃ pre x w xs' ys', w ≠ [] ∧ xs = pre ++ x :: xs' ∧ ys = pre ++ (x ++ w) :: ys' ∧
    xs'.flatten = w ++ ys'.flatten

/-- The same characters, cut at different places. -/
def Recut (xs ys : List (List α)) : Prop := CutBefore xs ys ∨ CutBefore ys xs

theorem CutBefore.cons {xs ys : List (List α)} (x : List α) (h : CutBefore xs ys) :
    CutBefore (x :: xs) (x :: ys) := by
  obtain ⟨pre, y, w, xs', ys', hw, rfl, rfl, hrest⟩ := h
  exact ⟨x :: pre, y, w, xs', ys', hw, rfl, rfl, hrest⟩

/-- The first fields part, or they are the same and later ones do. -/
theorem cutBefore_cons_iff {x y : List α} {xs ys : List (List α)} :
    CutBefore (x :: xs) (y :: ys) ↔
      (∃ w, w ≠ [] ∧ y = x ++ w ∧ xs.flatten = w ++ ys.flatten) ∨ (x = y ∧ CutBefore xs ys) := by
  constructor
  · rintro ⟨pre, z, w, xs', ys', hw, hxs, hys, hrest⟩
    cases pre with
    | nil =>
      obtain ⟨rfl, rfl⟩ := List.cons_eq_cons.mp hxs
      obtain ⟨rfl, rfl⟩ := List.cons_eq_cons.mp hys
      exact Or.inl ⟨w, hw, rfl, hrest⟩
    | cons p pre =>
      obtain ⟨rfl, rfl⟩ := List.cons_eq_cons.mp hxs
      obtain ⟨rfl, rfl⟩ := List.cons_eq_cons.mp hys
      exact Or.inr ⟨rfl, pre, z, w, xs', ys', hw, rfl, rfl, hrest⟩
  · rintro (⟨w, hw, rfl, hrest⟩ | ⟨rfl, h⟩)
    · exact ⟨[], x, w, xs, ys, hw, rfl, rfl, hrest⟩
    · exact h.cons x

/-- Fields of the same length do not part. -/
theorem cutBefore_cons_of_length {x y : List α} {xs ys : List (List α)} (hlength : x.length = y.length) :
    CutBefore (x :: xs) (y :: ys) ↔ x = y ∧ CutBefore xs ys := by
  rw [cutBefore_cons_iff, or_iff_right]
  rintro ⟨w, hw, rfl, -⟩
  rw [List.length_append, Nat.left_eq_add, List.length_eq_zero_iff] at hlength
  exact hw hlength

theorem not_cutBefore_nil {ys : List (List α)} : ¬ CutBefore [] ys ∧ ¬ CutBefore ys [] :=
  ⟨by rintro ⟨pre, x, w, xs', ys', -, hxs, -⟩; simp at hxs,
    by rintro ⟨pre, x, w, xs', ys', -, -, hys, -⟩; simp at hys⟩

theorem CutBefore.flatten_eq {xs ys : List (List α)} (h : CutBefore xs ys) :
    xs.flatten = ys.flatten := by
  obtain ⟨pre, x, w, xs', ys', -, rfl, rfl, hrest⟩ := h
  simp [hrest]

theorem CutBefore.ne {xs ys : List (List α)} (h : CutBefore xs ys) : xs ≠ ys := by
  obtain ⟨pre, x, w, xs', ys', hw, rfl, rfl, -⟩ := h
  intro heq
  have hcons := List.append_cancel_left heq
  have hx : x = x ++ w := List.head_eq_of_cons_eq hcons
  exact hw (List.self_eq_append_right.mp hx)

theorem Recut.cons {xs ys : List (List α)} (x : List α) (h : Recut xs ys) :
    Recut (x :: xs) (x :: ys) :=
  h.imp (CutBefore.cons x) (CutBefore.cons x)

theorem Recut.flatten_eq {xs ys : List (List α)} (h : Recut xs ys) : xs.flatten = ys.flatten :=
  h.elim CutBefore.flatten_eq fun h => h.flatten_eq.symm

theorem Recut.ne {xs ys : List (List α)} (h : Recut xs ys) : xs ≠ ys :=
  h.elim CutBefore.ne fun h => h.ne.symm

/-- **Fields that are not empty** give the same text only when they are the same or recut. -/
theorem flatten_eq_flatten_iff {xs ys : List (List α)} (hxs : ∀ x ∈ xs, x ≠ [])
    (hys : ∀ y ∈ ys, y ≠ []) : xs.flatten = ys.flatten ↔ xs = ys ∨ Recut xs ys := by
  constructor
  · intro h
    induction xs generalizing ys with
    | nil =>
      cases ys with
      | nil => exact Or.inl rfl
      | cons y ys =>
        have hy : y ++ ys.flatten = [] := h.symm
        exact absurd (List.append_eq_nil_iff.mp hy).1 (hys y List.mem_cons_self)
    | cons x xs ih =>
      cases ys with
      | nil =>
        have hx : x ++ xs.flatten = [] := h
        exact absurd (List.append_eq_nil_iff.mp hx).1 (hxs x List.mem_cons_self)
      | cons y ys =>
        have happ : x ++ xs.flatten = y ++ ys.flatten := h
        by_cases hxy : x = y
        · subst hxy
          have hrec := ih (fun z hz => hxs z (List.mem_cons_of_mem x hz))
            (fun z hz => hys z (List.mem_cons_of_mem x hz)) (List.append_cancel_left happ)
          exact hrec.imp (congrArg (x :: ·)) (Recut.cons x)
        · refine Or.inr ?_
          -- the shorter of the two first fields is a proper part of the other
          rcases List.append_eq_append_iff.mp happ with ⟨w, hy, hrest⟩ | ⟨w, hx, hrest⟩
          · refine Or.inl ⟨[], x, w, xs, ys, ?_, rfl, by rw [hy]; rfl, hrest⟩
            rintro rfl
            exact hxy (by rw [hy, List.append_nil])
          · refine Or.inr ⟨[], y, w, ys, xs, ?_, rfl, by rw [hx]; rfl, hrest⟩
            rintro rfl
            exact hxy (by rw [hx, List.append_nil])
  · rintro (rfl | h)
    · rfl
    · exact h.flatten_eq

/-! ### Two ways of writing the same fields -/

section Writers

variable {ι : Type} {f g : ι → List α} {l : List ι}

theorem length_flatMap_le (hle : ∀ x ∈ l, (g x).length ≤ (f x).length) :
    (l.flatMap g).length ≤ (l.flatMap f).length := by
  induction l with
  | nil => exact Nat.le_refl _
  | cons x l ih =>
    have hx := hle x List.mem_cons_self
    have hl := ih fun y hy => hle y (List.mem_cons_of_mem x hy)
    rw [List.flatMap_cons, List.flatMap_cons, List.length_append, List.length_append]
    omega

/-- **Fields written in two ways**, one of them never shorter than the other: the texts are the same
only when every field is. -/
theorem flatMap_eq_iff_of_length_le (hle : ∀ x ∈ l, (g x).length ≤ (f x).length) :
    l.flatMap f = l.flatMap g ↔ ∀ x ∈ l, f x = g x := by
  constructor
  · intro h
    induction l with
    | nil => exact fun x hx => absurd hx List.not_mem_nil
    | cons x l ih =>
      have hx := hle x List.mem_cons_self
      have hl : ∀ y ∈ l, (g y).length ≤ (f y).length := fun y hy =>
        hle y (List.mem_cons_of_mem x hy)
      have hrest := length_flatMap_le hl
      have hlength := congrArg List.length h
      rw [List.flatMap_cons, List.flatMap_cons, List.length_append, List.length_append] at hlength
      rw [List.flatMap_cons, List.flatMap_cons] at h
      -- neither the first field nor the rest has room to be longer
      obtain ⟨hfirst, htail⟩ := List.append_inj h (by omega)
      exact List.forall_mem_cons.mpr ⟨hfirst, ih hl htail⟩
  · intro h
    exact List.flatMap_congr h

end Writers

end Lib
