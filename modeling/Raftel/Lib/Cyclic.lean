import Mathlib.Data.Nat.ModEq
import Mathlib.Data.List.Basic

/-!
# Searching in a circle

The numbers below `n` are taken in a circle: from `a` up to `n - 1`, and then from `0` on.

* `find?_circle_eq_some` : the search from `a` on finds the first number with a property
* `find?_circle_eq_none` : it finds nothing when no number has it
-/

namespace Lib

variable {n a b k : ℕ} {p : ℕ → Bool}

/-- The numbers below `n`, from `a` on. -/
def circle (n a : ℕ) : List ℕ := (List.range n).map fun k => (a + k) % n

/-- How many numbers come before `b`, from `a` on. -/
def cyclicDist (n a b : ℕ) : ℕ := (b + (n - a)) % n

/-- The first number with the property, from `a` on. -/
structure IsFirstFrom (n a : ℕ) (p : ℕ → Prop) (b : ℕ) : Prop where
  lt : b < n
  holds : p b
  first : ∀ c < n, p c → cyclicDist n a b ≤ cyclicDist n a c

/-! ### Distances -/

theorem cyclicDist_lt (ha : a < n) : cyclicDist n a b < n := Nat.mod_lt _ (by omega)

theorem cyclicDist_add (ha : a < n) (hk : k < n) : cyclicDist n a ((a + k) % n) = k := by
  have hround : a + k + (n - a) = k + n := by omega
  unfold cyclicDist
  rw [Nat.mod_add_mod, hround, Nat.add_mod_right, Nat.mod_eq_of_lt hk]

/-- Every number is reached. -/
theorem add_cyclicDist (ha : a < n) (hb : b < n) : (a + cyclicDist n a b) % n = b := by
  have hround : a + (b + (n - a)) = b + n := by omega
  unfold cyclicDist
  rw [Nat.add_mod_mod, hround, Nat.add_mod_right, Nat.mod_eq_of_lt hb]

theorem mem_circle (ha : a < n) : b ∈ circle n a ↔ b < n := by
  unfold circle
  rw [List.mem_map]
  constructor
  · rintro ⟨k, -, rfl⟩
    exact Nat.mod_lt _ (by omega)
  · intro hb
    exact ⟨cyclicDist n a b, List.mem_range.mpr (cyclicDist_lt ha), add_cyclicDist ha hb⟩

/-- There is at most one first number. -/
theorem IsFirstFrom.unique {q : ℕ → Prop} {c : ℕ} (ha : a < n) (hb : IsFirstFrom n a q b)
    (hc : IsFirstFrom n a q c) : b = c := by
  have hdist : cyclicDist n a b = cyclicDist n a c :=
    le_antisymm (hb.first c hc.lt hc.holds) (hc.first b hb.lt hb.holds)
  rw [← add_cyclicDist ha hb.lt, hdist, add_cyclicDist ha hc.lt]

/-! ### The search -/

theorem find?_circle_eq_none (ha : a < n) :
    (circle n a).find? p = none ↔ ∀ b < n, ¬ p b = true := by
  rw [List.find?_eq_none]
  constructor
  · intro h b hb
    exact h b ((mem_circle ha).mpr hb)
  · intro h b hb
    exact h b ((mem_circle ha).mp hb)

/-- **What the search finds** is the first number. -/
theorem find?_circle_eq_some (ha : a < n) :
    (circle n a).find? p = some b ↔ IsFirstFrom n a (fun c => p c = true) b := by
  have hfirst : ∀ c, (circle n a).find? p = some c → IsFirstFrom n a (fun c => p c = true) c := by
    intro c hc
    unfold circle at hc
    rw [List.find?_map, Option.map_eq_some_iff] at hc
    obtain ⟨k, hfind, rfl⟩ := hc
    obtain ⟨hpk, hk, hbefore⟩ := List.find?_range_eq_some.mp hfind
    rw [List.mem_range] at hk
    refine ⟨Nat.mod_lt _ (by omega), hpk, fun c hc hpc => ?_⟩
    rw [cyclicDist_add ha hk]
    by_contra hlt
    have hnot := hbefore (cyclicDist n a c) (by omega)
    simp only [Function.comp_apply] at hnot
    rw [add_cyclicDist ha hc, hpc] at hnot
    exact absurd hnot (by decide)
  constructor
  · exact hfirst b
  · intro hb
    cases hfind : (circle n a).find? p with
    | none => exact absurd hb.holds ((find?_circle_eq_none ha).mp hfind b hb.lt)
    | some c => rw [IsFirstFrom.unique ha (hfirst c hfind) hb]

end Lib
