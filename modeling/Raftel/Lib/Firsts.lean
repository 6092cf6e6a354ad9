import Mathlib.Data.Finset.Card
import Mathlib.Data.List.Induction

/-!
# First occurrences and last maxima

A loop over a list that skips the keys it has seen keeps the `firsts`, and one that replaces the highest
value by every value that is not below it ends at the last maximum.

* `firsts_firstOfEach` : what `firsts` keeps, without the loop
* `IsLastMax.unique` : a list has one last maximum
-/

namespace Lib

variable {ρ κ : Type*}

/-! ### First occurrences -/

section Firsts

variable [DecidableEq κ] (key : ρ → κ)

/-- The elements whose key did not occur before, in order. -/
def firsts (qs : List ρ) : List ρ :=
  qs.foldl (fun kept q => if key q ∈ kept.map key then kept else kept ++ [q]) []

@[simp]
theorem firsts_nil : firsts key [] = [] := rfl

theorem firsts_concat (qs : List ρ) (q : ρ) :
    firsts key (qs ++ [q]) =
      if key q ∈ (firsts key qs).map key then firsts key qs else firsts key qs ++ [q] := by
  unfold firsts
  rw [List.foldl_append, List.foldl_cons, List.foldl_nil]

/-- Every key that occurs is the key of a first occurrence. -/
theorem mem_map_firsts {qs : List ρ} {k : κ} : k ∈ (firsts key qs).map key ↔ k ∈ qs.map key := by
  induction qs using List.reverseRecOn with
  | nil => rfl
  | append_singleton qs q ih =>
    rw [firsts_concat, List.map_append, List.mem_append, List.map_singleton, List.mem_singleton]
    by_cases hq : key q ∈ (firsts key qs).map key
    · rw [if_pos hq, ← ih]
      constructor
      · exact Or.inl
      · rintro (h | rfl)
        · exact h
        · exact hq
    · rw [if_neg hq, List.map_append, List.mem_append, List.map_singleton, List.mem_singleton, ih]

/-- Keys that are told apart alike have the same first occurrences. -/
theorem firsts_comp {κ' : Type*} [DecidableEq κ'] {f : κ → κ'} (hf : Function.Injective f)
    (qs : List ρ) : firsts (f ∘ key) qs = firsts key qs := by
  induction qs using List.reverseRecOn with
  | nil => rfl
  | append_singleton qs q ih =>
    have hmem : (f ∘ key) q ∈ (firsts key qs).map (f ∘ key) ↔ key q ∈ (firsts key qs).map key := by
      rw [← List.map_map, Function.comp_apply, List.mem_map_of_injective hf]
    rw [firsts_concat, firsts_concat, ih]
    by_cases hq : key q ∈ (firsts key qs).map key
    · rw [if_pos hq, if_pos (hmem.mpr hq)]
    · rw [if_neg hq, if_neg (mt hmem.mp hq)]

/-- `fs` are the elements of `l` that are the first with their key, in order. -/
structure FirstOfEach (l fs : List ρ) : Prop where
  sublist : fs.Sublist l
  nodup : (fs.map key).Nodup
  covers : ∀ a ∈ l, key a ∈ fs.map key
  first : ∀ a ∈ fs, ∃ l₁ l₂, l = l₁ ++ a :: l₂ ∧ key a ∉ l₁.map key

theorem firsts_firstOfEach (l : List ρ) : FirstOfEach key l (firsts key l) := by
  induction l using List.reverseRecOn with
  | nil => exact ⟨List.Sublist.refl _, List.nodup_nil, fun _ h => absurd h List.not_mem_nil,
      fun _ h => absurd h List.not_mem_nil⟩
  | append_singleton l b ih =>
    have hold : ∀ a ∈ firsts key l, ∃ l₁ l₂, l ++ [b] = l₁ ++ a :: l₂ ∧ key a ∉ l₁.map key := by
      intro a ha
      obtain ⟨l₁, l₂, rfl, hnew⟩ := ih.first a ha
      exact ⟨l₁, l₂ ++ [b], by simp, hnew⟩
    rw [firsts_concat]
    by_cases hb : key b ∈ (firsts key l).map key
    · rw [if_pos hb]
      refine ⟨ih.sublist.trans (List.sublist_append_left l [b]), ih.nodup, fun a ha => ?_, hold⟩
      rcases List.mem_append.mp ha with ha | ha
      · exact ih.covers a ha
      · rw [List.mem_singleton.mp ha]
        exact hb
    · rw [if_neg hb]
      refine ⟨ih.sublist.append (List.Sublist.refl _), ?_, fun a ha => ?_, fun a ha => ?_⟩
      · rw [List.map_append, List.map_singleton]
        exact List.concat_eq_append ▸ ih.nodup.concat hb
      · rw [List.map_append]
        rcases List.mem_append.mp ha with ha | ha
        · exact List.mem_append_left _ (ih.covers a ha)
        · rw [List.mem_singleton.mp ha]
          exact List.mem_append_right _ List.mem_cons_self
      · rcases List.mem_append.mp ha with ha | ha
        · exact hold a ha
        · obtain rfl := List.mem_singleton.mp ha
          exact ⟨l, [], rfl, fun hmem => hb ((mem_map_firsts key).mpr hmem)⟩

/-- There are as many first occurrences as keys. -/
theorem length_firsts (l : List ρ) : (firsts key l).length = (l.map key).toFinset.card := by
  have hkeys : (l.map key).toFinset = ((firsts key l).map key).toFinset := by
    ext k
    rw [List.mem_toFinset, List.mem_toFinset, mem_map_firsts]
  rw [hkeys, List.toFinset_card_of_nodup (firsts_firstOfEach key l).nodup, List.length_map]

end Firsts

/-! ### Last maxima -/

/-- The element has the highest value in the list, and all after it have a lower one. -/
def IsLastMax (val : ρ → ℕ) (l : List ρ) (a : ρ) : Prop :=
  ∃ l₁ l₂, l = l₁ ++ a :: l₂ ∧ (∀ b ∈ l₁, val b ≤ val a) ∧ ∀ b ∈ l₂, val b < val a

section LastMax

variable {val : ρ → ℕ} {l : List ρ} {a b : ρ}

theorem isLastMax_singleton : IsLastMax val [a] a :=
  ⟨[], [], rfl, fun _ h => absurd h List.not_mem_nil, fun _ h => absurd h List.not_mem_nil⟩

theorem IsLastMax.mem (h : IsLastMax val l a) : a ∈ l := by
  obtain ⟨l₁, l₂, rfl, -⟩ := h
  exact List.mem_append_right l₁ List.mem_cons_self

theorem IsLastMax.le (h : IsLastMax val l a) (hb : b ∈ l) : val b ≤ val a := by
  obtain ⟨l₁, l₂, rfl, hbefore, hafter⟩ := h
  rcases List.mem_append.mp hb with hb | hb
  · exact hbefore b hb
  · rcases List.mem_cons.mp hb with rfl | hb
    · exact le_rfl
    · exact (hafter b hb).le

/-- A value that is not lower takes over. -/
theorem IsLastMax.concat_of_le (h : IsLastMax val l a) (hle : val a ≤ val b) :
    IsLastMax val (l ++ [b]) b :=
  ⟨l, [], rfl, fun _ hc => (h.le hc).trans hle, fun _ hc => absurd hc List.not_mem_nil⟩

theorem IsLastMax.concat_of_lt (h : IsLastMax val l a) (hlt : val b < val a) :
    IsLastMax val (l ++ [b]) a := by
  obtain ⟨l₁, l₂, rfl, hbefore, hafter⟩ := h
  refine ⟨l₁, l₂ ++ [b], by simp, hbefore, fun c hc => ?_⟩
  rcases List.mem_append.mp hc with hc | hc
  · exact hafter c hc
  · rw [List.mem_singleton.mp hc]
    exact hlt

/-- **A list has one last maximum.** -/
theorem IsLastMax.unique (h : IsLastMax val l a) (h' : IsLastMax val l b) : a = b := by
  induction l using List.reverseRecOn generalizing a b with
  | nil =>
    obtain ⟨l₁, l₂, hl, -⟩ := h
    exact absurd hl (by simp)
  | append_singleton l c ih =>
    -- the last element is the maximum, or the maximum is before it
    have hcases : ∀ {a}, IsLastMax val (l ++ [c]) a →
        a = c ∨ (val c < val a ∧ IsLastMax val l a) := by
      rintro a ⟨l₁, l₂, hl, hbefore, hafter⟩
      rcases List.eq_nil_or_concat l₂ with rfl | ⟨l₃, d, rfl⟩
      · exact Or.inl (List.append_inj_right' hl rfl |> List.singleton_inj.mp |>.symm)
      · rw [List.concat_eq_append] at hl hafter
        have hsplit : l ++ [c] = (l₁ ++ a :: l₃) ++ [d] := by rw [hl]; simp
        obtain ⟨rfl, hd⟩ := List.append_inj' hsplit rfl
        obtain rfl : c = d := List.singleton_inj.mp hd
        refine Or.inr ⟨hafter c (by simp), l₁, l₃, rfl, hbefore, fun b hb => ?_⟩
        exact hafter b (List.mem_append_left _ hb)
    rcases hcases h with rfl | ⟨hlt, hl⟩ <;> rcases hcases h' with rfl | ⟨hlt', hl'⟩
    · rfl
    · have hle := h.le (List.mem_append_left [a] hl'.mem)
      omega
    · have hle := h'.le (List.mem_append_left [b] hl.mem)
      omega
    · exact ih hl hl'

end LastMax

end Lib
