import Raftel.Enclave.Structs
import Mathlib.Data.Nat.Digits.Defs

/-!
# The parts of a text

A decimal number, a flag and a hash are each determined by their text; a flag and a hash have a fixed
length, a number has not.
-/

namespace Raftel

/-! ### Numbers -/

theorem natText_ne_nil (n : ℕ) : natText n ≠ [] := by
  unfold natText
  simp [Nat.toDigits_ne_nil]

/-- Different digits are different bytes. -/
theorem toUInt8_injOn_digits {c c' : Char} (hc : c.isDigit = true) (hc' : c'.isDigit = true)
    (h : c.toUInt8 = c'.toUInt8) : c = c' := by
  have hmod : c.val.toNat % 256 = c'.val.toNat % 256 := congrArg UInt8.toNat h
  have hle : ∀ d : Char, d.isDigit = true → d.val.toNat ≤ 57 := by
    intro d hd
    simp only [Char.isDigit, Bool.and_eq_true, decide_eq_true_eq] at hd
    exact hd.2
  have hval : c.val.toNat = c'.val.toNat := by
    have h₁ := hle c hc
    have h₂ := hle c' hc'
    omega
  exact Char.ext (UInt32.toNat_inj.mp hval)

theorem map_toUInt8_injOn_digits {l l' : List Char} (hl : ∀ c ∈ l, c.isDigit = true)
    (hl' : ∀ c ∈ l', c.isDigit = true) (h : l.map Char.toUInt8 = l'.map Char.toUInt8) : l = l' := by
  apply List.ext_getElem
  · simpa using congrArg List.length h
  · intro i h₁ h₂
    apply toUInt8_injOn_digits (hl _ (List.getElem_mem h₁)) (hl' _ (List.getElem_mem h₂))
    have hi := List.getElem_of_eq h (i := i) (by simpa using h₁)
    simpa using hi

theorem natText_injective : Function.Injective natText := by
  intro n m h
  have hdigits : ∀ k, ∀ c ∈ Nat.toDigits 10 k, c.isDigit = true := fun k c hc =>
    Nat.isDigit_of_mem_toDigits (by decide) (by decide) hc
  have heq : Nat.toDigits 10 n = Nat.toDigits 10 m :=
    map_toUInt8_injOn_digits (hdigits n) (hdigits m) h
  rw [← Nat.ofDigitChars_ten_toDigits (n := n), heq, Nat.ofDigitChars_ten_toDigits]

theorem natText_inj {n m : ℕ} : natText n = natText m ↔ n = m := natText_injective.eq_iff

/-- The number of digits. -/
theorem length_natText_le {n k : ℕ} (hk : 0 < k) (h : n < 10 ^ k) : (natText n).length ≤ k := by
  unfold natText
  rw [List.length_map]
  exact (Nat.length_toDigits_le_iff (by decide) hk).mpr h

theorem length_natText_le_ten {n : ℕ} (h : n < 2 ^ 32) : (natText n).length ≤ 10 :=
  length_natText_le (by decide) (lt_trans h (by decide))

/-- A phase is one character. -/
theorem length_natText_byte (ph : Phase1) : (natText ph.byte.toNat).length = 1 := by
  cases ph <;> rfl

/-! ### Flags and hashes -/

theorem length_boolText (b : Bool) : (boolText b).length = 1 := by cases b <;> rfl

theorem boolText_injective : Function.Injective boolText := by
  intro a b h
  cases a <;> cases b <;> first | rfl | exact absurd h (by decide)

theorem length_hash2string (h : Hash) : (hash2string h).length = sha256DigestLength + 1 := by
  unfold hash2string
  rw [List.length_append, Vector.length_toList, length_boolText]

theorem hash2string_injective : Function.Injective hash2string := by
  intro h h' heq
  obtain ⟨hbytes, hflag⟩ := List.append_inj heq (by simp)
  obtain ⟨bytes, flag⟩ := h
  obtain ⟨bytes', flag'⟩ := h'
  rw [Hash.mk.injEq]
  exact ⟨Vector.toList_inj.mp hbytes, boolText_injective hflag⟩

/-- A hash is read off the beginning of a text. -/
theorem hash2string_append_inj {h h' : Hash} {t t' : Text} :
    hash2string h ++ t = hash2string h' ++ t' ↔ h = h' ∧ t = t' := by
  constructor
  · intro heq
    obtain ⟨hhash, ht⟩ := List.append_inj heq (by rw [length_hash2string, length_hash2string])
    exact ⟨hash2string_injective hhash, ht⟩
  · rintro ⟨rfl, rfl⟩
    rfl

/-- A flag is read off the beginning of a text. -/
theorem boolText_append_inj {b b' : Bool} {t t' : Text} :
    boolText b ++ t = boolText b' ++ t' ↔ b = b' ∧ t = t' := by
  constructor
  · intro heq
    obtain ⟨hflag, ht⟩ := List.append_inj heq (by rw [length_boolText, length_boolText])
    exact ⟨boolText_injective hflag, ht⟩
  · rintro ⟨rfl, rfl⟩
    rfl

end Raftel
