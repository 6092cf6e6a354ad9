import Mathlib.Data.Nat.Digits.Defs

/-!
# Numbers written one after the other

The digits of two numbers, one after the other, are the digits of a third one.  Different pairs may give
the same number, when the digits are cut at another place; `concat_eq_iff` says which do.
-/

namespace Lib

variable {b m n k l : ℕ}

/-- The number of digits. -/
def digitCount (b n : ℕ) : ℕ := (Nat.toDigits b n).length

theorem digitCount_pos : 0 < digitCount b n := Nat.length_toDigits_pos

theorem lt_pow_digitCount (hb : 1 < b) (n : ℕ) : n < b ^ digitCount b n :=
  (Nat.length_toDigits_le_iff hb digitCount_pos).mp le_rfl

/-- The number whose digits are those of `m`, followed by those of `n`. -/
def concat (b m n : ℕ) : ℕ := m * b ^ digitCount b n + n

/-- A number is split at a digit in one way. -/
theorem mul_pow_add_eq_iff (hm : m < b ^ k) (hn : n < b ^ k) {p q : ℕ} :
    p * b ^ k + m = q * b ^ k + n ↔ p = q ∧ m = n := by
  constructor
  · intro h
    have hdiv : ∀ r c : ℕ, c < b ^ k → (r * b ^ k + c) / b ^ k = r := by
      intro r c hc
      rw [Nat.add_comm, Nat.add_mul_div_right _ _ (by omega), Nat.div_eq_of_lt hc, Nat.zero_add]
    have hp : p = q := by rw [← hdiv p m hm, h, hdiv q n hn]
    refine ⟨hp, ?_⟩
    rw [hp] at h
    omega
  · rintro ⟨rfl, rfl⟩
    rfl

/-- The digits of `p` and `m` are those of `q` and `n`, cut further to the right. -/
def CutLater (b p m q n : ℕ) : Prop :=
  digitCount b m < digitCount b n ∧
    p = q * b ^ (digitCount b n - digitCount b m) + n / b ^ digitCount b m ∧
    m = n % b ^ digitCount b m

instance (b p m q n : ℕ) : Decidable (CutLater b p m q n) := inferInstanceAs (Decidable (_ ∧ _))

theorem CutLater.ne {p q : ℕ} (h : CutLater b p m q n) : (p, m) ≠ (q, n) := by
  rintro heq
  obtain ⟨-, rfl⟩ := Prod.mk.inj heq
  exact absurd h.1 (lt_irrefl _)

/-- When the second number is shorter, the cut is further to the right. -/
theorem concat_eq_iff_cutLater (hb : 1 < b) {p q : ℕ} (h : digitCount b m < digitCount b n) :
    concat b p m = concat b q n ↔ CutLater b p m q n := by
  have hpow : b ^ digitCount b n = b ^ (digitCount b n - digitCount b m) * b ^ digitCount b m := by
    rw [← pow_add, Nat.sub_add_cancel h.le]
  have hn : n / b ^ digitCount b m * b ^ digitCount b m + n % b ^ digitCount b m = n :=
    Nat.div_add_mod' n _
  have hsplit : concat b q n = (q * b ^ (digitCount b n - digitCount b m) + n / b ^ digitCount b m) *
      b ^ digitCount b m + n % b ^ digitCount b m := by
    unfold concat
    rw [Nat.add_mul, Nat.mul_assoc, ← hpow, Nat.add_assoc, hn]
  have hmod : n % b ^ digitCount b m < b ^ digitCount b m := Nat.mod_lt _ (by positivity)
  rw [hsplit, concat, mul_pow_add_eq_iff (lt_pow_digitCount hb m) hmod]
  exact ⟨fun heq => ⟨h, heq⟩, fun heq => heq.2⟩

/-- **The pairs that give the same number**: only one, or the digits are cut at different places. -/
theorem concat_eq_iff (hb : 1 < b) {p q : ℕ} :
    concat b p m = concat b q n ↔ (p, m) = (q, n) ∨ CutLater b p m q n ∨ CutLater b q n p m := by
  rcases lt_trichotomy (digitCount b m) (digitCount b n) with hlt | heq | hgt
  · rw [concat_eq_iff_cutLater hb hlt]
    constructor
    · exact fun h => Or.inr (Or.inl h)
    · rintro (heq | h | h)
      · obtain ⟨-, rfl⟩ := Prod.mk.inj heq
        exact absurd hlt (lt_irrefl _)
      · exact h
      · exact absurd h.1 hlt.asymm
  · have hn := lt_pow_digitCount hb n
    rw [← heq] at hn
    have hcut : ¬ CutLater b p m q n ∧ ¬ CutLater b q n p m :=
      ⟨fun h => absurd h.1 (by omega), fun h => absurd h.1 (by omega)⟩
    rw [Prod.mk.injEq, concat, concat, ← heq, mul_pow_add_eq_iff (lt_pow_digitCount hb m) hn]
    constructor
    · exact Or.inl
    · rintro (h | h | h)
      · exact h
      · exact absurd h hcut.1
      · exact absurd h hcut.2
  · rw [eq_comm, concat_eq_iff_cutLater hb hgt]
    constructor
    · exact fun h => Or.inr (Or.inr h)
    · rintro (heq | h | h)
      · obtain ⟨-, rfl⟩ := Prod.mk.inj heq
        exact absurd hgt (lt_irrefl _)
      · exact absurd h.1 hgt.asymm
      · exact h

end Lib
