import Raftel.Text
import Mathlib.Data.Int.Notation

/-!
# Signature buffers over OpenSSL

`signBuf` and `verifyBuf` of `EnclaveShare.cpp` and their copies `signText` and `verifyText` of
`App/Sign.cpp`.  OpenSSL is a parameter with its documented behaviour (`OpenSSL.Documented`).

The copies store the first `SHA256_DIGEST_LENGTH` bytes of the DER signature in a buffer of
`SIGN_LEN` bytes and leave the rest of the buffer as it was, and they turn the three-valued result
of `ECDSA_verify` into a `bool`.  `signaturesSound_iff` says on which inputs this does no harm.
-/

namespace Raftel

/-- The functions of OpenSSL that sign and verify.  `ECDSA_sign` draws a random number. -/
structure OpenSSL (Key Nonce : Type) where
  sha256 : Text → Digest
  ecdsaSize : Key → ℕ
  ecdsaSign : Nonce → Digest → Key → List UInt8
  ecdsaVerify : Digest → List UInt8 → Key → ℤ
  KeyPair : Key → Key → Prop

/-- What OpenSSL documents: the length of a DER signature, that the signature of the matching key
is valid, and the three results of `ECDSA_verify` (valid, wrong, error). -/
structure OpenSSL.Documented {Key Nonce : Type} (o : OpenSSL Key Nonce) : Prop where
  size_le : ∀ priv, o.ecdsaSize priv ≤ signLen
  lt_length : ∀ nonce h priv, sha256DigestLength < (o.ecdsaSign nonce h priv).length
  length_le : ∀ nonce h priv, (o.ecdsaSign nonce h priv).length ≤ o.ecdsaSize priv
  verify_sign : ∀ nonce h priv pub, o.KeyPair priv pub →
    o.ecdsaVerify h (o.ecdsaSign nonce h priv) pub = 1
  verify_cases : ∀ h sig pub,
    o.ecdsaVerify h sig pub = 1 ∨ o.ecdsaVerify h sig pub = 0 ∨ o.ecdsaVerify h sig pub = -1

variable {Key Nonce : Type} (o : OpenSSL Key Nonce)

/-- A signature field of the size the source gives it. -/
abbrev SignBuffer := Vector UInt8 signLen

/-- `signBuf` of the enclave on the buffer `sign`.  The DER signature is written to a second buffer,
whose first `SHA256_DIGEST_LENGTH` bytes are copied. -/
def signBuf (nonce : Nonce) (text : Text) (priv : Key) (sign : SignBuffer) : SignBuffer :=
  let buf := o.ecdsaSign nonce (o.sha256 text) priv
  Vector.ofFn fun k => if k.val < sha256DigestLength then buf.getD k.val 48 else sign[k]

/-- `signText` of the host, with the same loop. -/
def signText (nonce : Nonce) (text : Text) (priv : Key) (sign : SignBuffer) : SignBuffer :=
  signBuf o nonce text priv sign

/-- `verifyBuf` of the enclave: the `int` that `ECDSA_verify` returns is converted to `bool`. -/
def verifyBuf (text : Text) (pub : Key) (sign : SignBuffer) : Bool :=
  o.ecdsaVerify (o.sha256 text) sign.toList pub ≠ 0

/-- `verifyText` of the host. -/
def verifyText (text : Text) (pub : Key) (sign : SignBuffer) : Bool :=
  verifyBuf o text pub sign

/-- Signing and verification agree and verification is sound, in both copies: on the given text and
keys, with the buffer `old` to sign into and the buffer `sig` to verify. -/
structure SignaturesSound (priv pub : Key) (nonce : Nonce) (text : Text) (old sig : SignBuffer) :
    Prop where
  signBuf : o.ecdsaVerify (o.sha256 text) (signBuf o nonce text priv old).toList pub = 1
  signText : o.ecdsaVerify (o.sha256 text) (signText o nonce text priv old).toList pub = 1
  verifyBuf : verifyBuf o text pub sig = true → o.ecdsaVerify (o.sha256 text) sig.toList pub = 1
  verifyText : verifyText o text pub sig = true → o.ecdsaVerify (o.sha256 text) sig.toList pub = 1

/-- Some valid signature of full length starts like the new DER signature and ends like what was in
the buffer before. -/
def Completes (priv pub : Key) (nonce : Nonce) (text : Text) (old : SignBuffer) : Prop :=
  ∃ valid : SignBuffer, o.ecdsaVerify (o.sha256 text) valid.toList pub = 1 ∧
    (∀ k : Fin signLen, k.val < sha256DigestLength →
      (o.ecdsaSign nonce (o.sha256 text) priv)[k.val]? = some valid[k]) ∧
    ∀ k : Fin signLen, sha256DigestLength ≤ k.val → old[k] = valid[k]

section Sound

variable {o} {priv pub : Key} {nonce : Nonce} {text : Text} {old sig : SignBuffer}

/-- The only buffer that starts like the new signature and ends like the old buffer is the one that
`signBuf` makes. -/
theorem signBuf_eq_iff (ho : o.Documented) {valid : SignBuffer} :
    signBuf o nonce text priv old = valid ↔
      (∀ k : Fin signLen, k.val < sha256DigestLength →
        (o.ecdsaSign nonce (o.sha256 text) priv)[k.val]? = some valid[k]) ∧
      ∀ k : Fin signLen, sha256DigestLength ≤ k.val → old[k] = valid[k] := by
  have hlen := ho.lt_length nonce (o.sha256 text) priv
  have hget : ∀ k : Fin signLen, (signBuf o nonce text priv old)[k] =
      if k.val < sha256DigestLength then
        (o.ecdsaSign nonce (o.sha256 text) priv).getD k.val 48 else old[k] := by
    intro k
    simp [signBuf]
  constructor
  · rintro rfl
    refine ⟨fun k hk => ?_, fun k hk => ?_⟩
    · rw [hget k, if_pos hk, List.getD_eq_getElem?_getD,
        List.getElem?_eq_getElem (show k.val < _ by omega), Option.getD_some]
    · rw [hget k, if_neg (by omega)]
  · rintro ⟨hstart, hend⟩
    apply Vector.ext
    intro i hi
    have hk := hget ⟨i, hi⟩
    rw [Fin.getElem_fin] at hk
    rw [hk]
    split
    · next hlt =>
      rw [List.getD_eq_getElem?_getD, hstart ⟨i, hi⟩ hlt, Option.getD_some, Fin.getElem_fin]
    · next hge => rw [hend ⟨i, hi⟩ (Nat.le_of_not_lt hge), Fin.getElem_fin]

/-- **Signing.**  The stored bytes verify exactly when the rest of the buffer completes the copied
bytes to a valid signature. -/
theorem verify_signBuf_iff (ho : o.Documented) :
    o.ecdsaVerify (o.sha256 text) (signBuf o nonce text priv old).toList pub = 1 ↔
      Completes o priv pub nonce text old := by
  constructor
  · intro h
    exact ⟨_, h, (signBuf_eq_iff ho).mp rfl⟩
  · rintro ⟨valid, hvalid, hbytes⟩
    rw [(signBuf_eq_iff ho).mpr hbytes]
    exact hvalid

/-- **Verification.**  A buffer that `ECDSA_verify` finds in error is accepted. -/
theorem verifyBuf_sound_iff (ho : o.Documented) :
    (verifyBuf o text pub sig = true → o.ecdsaVerify (o.sha256 text) sig.toList pub = 1) ↔
      o.ecdsaVerify (o.sha256 text) sig.toList pub ≠ -1 := by
  unfold verifyBuf
  rcases ho.verify_cases (o.sha256 text) sig.toList pub with h | h | h <;> rw [h] <;> decide

end Sound

/-- **Exactly when signatures are sound.**  For every text, keys and buffers: the bytes left by the
previous contents of the buffer complete the new signature, and `ECDSA_verify` finds no error in the
buffer to verify. -/
theorem signaturesSound_iff (ho : o.Documented) (priv pub : Key) (nonce : Nonce) (text : Text)
    (old sig : SignBuffer) :
    SignaturesSound o priv pub nonce text old sig ↔
      Completes o priv pub nonce text old ∧
        o.ecdsaVerify (o.sha256 text) sig.toList pub ≠ -1 := by
  constructor
  · rintro ⟨hsign, -, hverify, -⟩
    exact ⟨(verify_signBuf_iff ho).mp hsign, (verifyBuf_sound_iff ho).mp hverify⟩
  · rintro ⟨hcompletes, herror⟩
    have hsign := (verify_signBuf_iff ho).mpr hcompletes
    have hverify := (verifyBuf_sound_iff ho).mpr herror
    exact ⟨hsign, hsign, hverify, hverify⟩

/-! ### A signature of the shipped key -/

section ShippedKey

/-- SHA-256 of the text `1`. -/
def oneDigest : Digest :=
  #v[107, 134, 178, 115, 255, 52, 252, 225, 157, 107, 128, 78, 255, 90, 63, 87, 71, 173, 164, 234,
    162, 47, 29, 73, 192, 30, 82, 221, 183, 135, 91, 75]

/-- An ECDSA signature of the text `1` with `priv_key256`, 70 bytes of DER. -/
def oneSignature : List UInt8 :=
  [48, 68, 2, 32, 39, 95, 25, 44, 78, 229, 198, 211, 75, 122, 250, 196, 246, 186, 37, 81, 171, 253,
    58, 250, 174, 120, 251, 191, 234, 24, 115, 191, 200, 141, 247, 153, 2, 32, 39, 184, 153, 118,
    163, 200, 178, 229, 169, 169, 40, 152, 147, 183, 74, 232, 165, 177, 15, 2, 82, 46, 179, 105,
    102, 25, 197, 127, 95, 219, 118, 71]

/-- OpenSSL on that text and key: the signature is valid, another sequence of as many bytes is taken
for wrong, and a buffer of another length is an error, since DER admits no bytes after the
signature. -/
def shippedOpenSSL : OpenSSL Unit Unit where
  sha256 _ := oneDigest
  ecdsaSize _ := signLen
  ecdsaSign _ _ _ := oneSignature
  ecdsaVerify _ sig _ :=
    if sig = oneSignature then 1 else if sig.length = oneSignature.length then 0 else -1
  KeyPair _ _ := True

theorem shippedOpenSSL_documented : shippedOpenSSL.Documented where
  size_le _ := le_rfl
  lt_length _ _ _ := show 32 < oneSignature.length by decide
  length_le _ _ _ := show oneSignature.length ≤ 72 by decide
  verify_sign _ _ _ _ _ := by simp [shippedOpenSSL]
  verify_cases h sig pub := by
    unfold shippedOpenSSL
    dsimp only
    split
    · exact Or.inl rfl
    · split
      · exact Or.inr (Or.inl rfl)
      · exact Or.inr (Or.inr rfl)

/-- **A fresh signature does not verify, and is accepted.**  Signing the text `1` into a zeroed
buffer stores bytes on which `ECDSA_verify` reports an error; `verifyBuf` returns true on them. -/
theorem not_signaturesSound_zeroed_buffer :
    shippedOpenSSL.Documented ∧
      shippedOpenSSL.ecdsaVerify (shippedOpenSSL.sha256 [49])
        (signBuf shippedOpenSSL () [49] () (Vector.replicate _ 0)).toList () = -1 ∧
      verifyBuf shippedOpenSSL [49] () (signBuf shippedOpenSSL () [49] () (Vector.replicate _ 0))
        = true ∧
      ¬ SignaturesSound shippedOpenSSL () () () [49] (Vector.replicate _ 0)
        (signBuf shippedOpenSSL () [49] () (Vector.replicate _ 0)) := by
  have herror : shippedOpenSSL.ecdsaVerify (shippedOpenSSL.sha256 [49])
      (signBuf shippedOpenSSL () [49] () (Vector.replicate _ 0)).toList () = -1 := by
    decide +kernel
  refine ⟨shippedOpenSSL_documented, herror, by decide +kernel, fun h => ?_⟩
  rw [h.signBuf] at herror
  exact absurd herror (by decide)

/-- The condition fails on that input, as it must. -/
theorem signaturesSound_iff_zeroed_buffer :
    ¬ (Completes shippedOpenSSL () () () [49] (Vector.replicate _ 0) ∧
      shippedOpenSSL.ecdsaVerify (shippedOpenSSL.sha256 [49])
        (signBuf shippedOpenSSL () [49] () (Vector.replicate _ 0)).toList () ≠ -1) := by
  rw [← signaturesSound_iff shippedOpenSSL shippedOpenSSL_documented]
  intro h
  exact absurd h.signBuf (by decide +kernel)

end ShippedKey

end Raftel
