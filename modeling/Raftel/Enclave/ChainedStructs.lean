import Raftel.Enclave.Structs
import Raftel.Equiv.Text
import Raftel.Lib.Fields
import Raftel.TrustedChComb

/-!
# The structure of a chained block

`setCBlock` copies a `CBlock` with its certificate or accumulator, and `cblock2string` builds a text
from the structure with the loops of `EnclaveShare.cpp`.  That text is the one of `CBlock::toString` up
to the transactions, whose payload bytes the enclave writes in decimal and the host as they are.

* `cblock2string_setCBlock` : the text of the structure
* `chTransactions2string_eq_iff` : the two texts of the transactions are the same only when there are
  none
-/

namespace Raftel

namespace Structs

/-- `sign_t` -/
structure SignT where
  set : Bool
  signer : PID
  sign : CArray UInt8 signLen

/-- `signs_t` -/
structure SignsT where
  size : ℕ
  signs : CArray SignT maxNumSignatures

/-- `cert_t` -/
structure CertT where
  view : View
  hash : HashT
  signs : SignsT

/-- `accum_t` -/
structure AccumT extends AccumDataT where
  sign : SignT

/-- `ca_t`, a tagged union. -/
inductive CAT
  | cert (cert : CertT)
  | accum (accum : AccumT)

/-- `cblock_t` -/
structure CBlockT where
  set : Bool
  executed : Bool
  view : View
  cert : CAT
  size : ℕ
  trans : CArray TransT maxNumTransactions

/-! ### From the host's objects to the structures -/

def setSign (s : Sign) : SignT := ⟨s.set, s.signer, memcpy s.sign⟩

/-- `setSigns` copies all entries, whatever `size` says. -/
def setSigns (signs : Signs) : SignsT := ⟨signs.size, fun i => setSign (signs.signs.get i)⟩

def setCert (cert : Cert) : CertT := ⟨cert.view, setHash cert.hash, setSigns cert.signs⟩

def setAccum (acc : Accum) : AccumT := ⟨setAccumData acc.toAccumData, setSign acc.sign⟩

def setCA : CA → CAT
  | .cert c => .cert (setCert c)
  | .accum a => .accum (setAccum a)

def setCBlock (block : CBlock) : CBlockT where
  set := block.set
  executed := block.executed
  view := block.view
  cert := setCA block.cert
  size := block.size
  trans := fun i =>
    let t := block.trans.get i
    ⟨t.clientid, t.transid, memcpy t.data⟩

/-! ### The texts of the enclave -/

def sign2string (sign : SignT) : Text :=
  appendLoop (fun i => [sign.sign i]) (List.finRange signLen)
    (boolText sign.set ++ natText sign.signer)

def signs2string (signs : SignsT) : Text :=
  appendLoop (fun i => sign2string (signs.signs i))
    ((List.finRange maxNumSignatures).take signs.size) (natText signs.size)

def cert2string (cert : CertT) : Text :=
  natText cert.view ++ hash2string cert.hash ++ signs2string cert.signs

def accum2string (acc : AccumT) : Text :=
  accumData2string acc.toAccumDataT ++ sign2string acc.sign

def ca2string : CAT → Text
  | .cert cert => cert2string cert
  | .accum accum => accum2string accum

/-- `transaction2string`: a byte of the payload goes through `std::to_string`. -/
def transaction2string (trans : TransT) : Text :=
  appendLoop (fun i => natText (trans.data i).toNat) (List.finRange payloadSize)
    (natText trans.clientid ++ natText trans.transid)

def transactions2string (size : ℕ) (trans : CArray TransT maxNumTransactions) : Text :=
  appendLoop (fun i => transaction2string (trans i))
    ((List.finRange maxNumTransactions).take size) []

def cblock2string (block : CBlockT) : Text :=
  boolText block.set ++ natText block.view ++ ca2string block.cert ++ natText block.size
    ++ transactions2string block.size block.trans

def hashCBlock (sha : Text → Digest) (block : CBlockT) : HashT :=
  ⟨memcpy (sha (cblock2string block)), true⟩

/-! ### The texts of the structures -/

theorem sign2string_setSign (s : Sign) : sign2string (setSign s) = Raftel.sign2string s := by
  unfold sign2string Raftel.sign2string
  rw [appendLoop_eq, ← List.map_eq_flatMap]
  exact congrArg (boolText s.set ++ natText s.signer ++ ·) (map_memcpy_finRange s.sign)

/-- A loop over the first `size` elements of a structure whose array is a copy. -/
theorem flatMap_take_memcpy {α : Type} {n : ℕ} (src : Vector α n) (f : α → Text) (size : ℕ) :
    ((List.finRange n).take size).flatMap (fun i => f (src.get i)) =
      (src.toList.take size).flatMap f := by
  rw [← map_memcpy_finRange src, ← List.map_take, List.flatMap_map]
  rfl

theorem signs2string_setSigns (ss : Signs) :
    signs2string (setSigns ss) = Raftel.signs2string ss := by
  unfold signs2string Raftel.signs2string Signs.entries
  rw [appendLoop_eq, ← flatMap_take_memcpy]
  simp only [setSigns, sign2string_setSign]

theorem ca2string_setCA (ca : CA) : ca2string (setCA ca) = Raftel.ca2string ca := by
  cases ca with
  | cert c =>
    show natText c.view ++ hash2string (setHash c.hash) ++ signs2string (setSigns c.signs) = _
    rw [hash2string_setHash, signs2string_setSigns]
    rfl
  | accum a =>
    show accumData2string (setAccumData a.toAccumData) ++ sign2string (setSign a.sign) = _
    rw [accumData2string_setAccumData, sign2string_setSign]
    rfl

/-- A transaction, as the enclave writes it. -/
theorem transaction2string_memcpy (t : Transaction) :
    transaction2string ⟨t.clientid, t.transid, memcpy t.data⟩ =
      natText t.clientid ++ natText t.transid ++ t.data.toList.flatMap fun b => natText b.toNat := by
  unfold transaction2string
  rw [appendLoop_eq, ← map_memcpy_finRange t.data, List.flatMap_map]

/-- **The text of the structure** is the one the rest of the development gives to the enclave. -/
theorem cblock2string_setCBlock (b : CBlock) :
    cblock2string (setCBlock b) = Raftel.cblock2string b := by
  have htrans : transactions2string b.size (setCBlock b).trans =
      chTransactions2string b.size b.trans := by
    unfold transactions2string chTransactions2string
    rw [appendLoop_eq, List.nil_append, ← flatMap_take_memcpy]
    simp only [setCBlock, transaction2string_memcpy]
  show boolText b.set ++ natText b.view ++ ca2string (setCA b.cert) ++ natText b.size
    ++ transactions2string b.size (setCBlock b).trans = _
  rw [ca2string_setCA, htrans]
  rfl

theorem hashCBlock_setCBlock (sha : Text → Digest) (b : CBlock) :
    hashCBlock sha (setCBlock b) = setHash (Raftel.hashCBlock sha b) := by
  unfold hashCBlock
  rw [cblock2string_setCBlock]
  rfl

/-! ### The transactions -/

/-- A byte is never the only character of its own number. -/
theorem natText_ne_singleton (b : UInt8) : natText b.toNat ≠ [b] := by
  have hall : ∀ n : Fin 256, natText n.val ≠ [UInt8.ofNat n.val] := by decide +kernel
  have hb := hall ⟨b.toNat, b.toNat_lt⟩
  rwa [UInt8.ofNat_toNat] at hb

/-- The enclave's text of a transaction is at least as long as the host's, and another one. -/
theorem length_transaction2string_le (t : Transaction) :
    (Raftel.transaction2string t).length ≤
      (transaction2string ⟨t.clientid, t.transid, memcpy t.data⟩).length := by
  have hbytes : (t.data.toList.flatMap fun b => [b]).length ≤
      (t.data.toList.flatMap fun b => natText b.toNat).length := by
    apply Lib.length_flatMap_le
    intro b _
    exact List.length_pos_of_ne_nil (natText_ne_nil b.toNat)
  rw [List.flatMap_singleton'] at hbytes
  rw [transaction2string_memcpy, List.length_append, Raftel.transaction2string, List.length_append]
  omega

theorem transaction2string_ne (t : Transaction) :
    transaction2string ⟨t.clientid, t.transid, memcpy t.data⟩ ≠ Raftel.transaction2string t := by
  intro h
  rw [transaction2string_memcpy] at h
  have hdata : (t.data.toList.flatMap fun b => natText b.toNat) = t.data.toList.flatMap fun b => [b] :=
    (List.append_cancel_left h).trans (List.flatMap_singleton' _).symm
  have hle : ∀ b ∈ t.data.toList, [b].length ≤ (natText b.toNat).length := fun b _ =>
    List.length_pos_of_ne_nil (natText_ne_nil b.toNat)
  have hbytes := (Lib.flatMap_eq_iff_of_length_le hle).mp hdata
  -- there is a first byte
  have hpos : 0 < payloadSize := by decide
  have hfirst : t.data[0] ∈ t.data.toList := Vector.mem_toList_iff.mpr (Vector.getElem_mem hpos)
  exact natText_ne_singleton _ (hbytes _ hfirst)

/-- **The two texts of the transactions** are the same only when there are none. -/
theorem chTransactions2string_eq_iff (size : ℕ) (trans : Vector Transaction maxNumTransactions) :
    chTransactions2string size trans =
        (trans.toList.take size).flatMap Raftel.transaction2string ↔ size = 0 := by
  have hwrite : chTransactions2string size trans = (trans.toList.take size).flatMap fun t =>
      transaction2string ⟨t.clientid, t.transid, memcpy t.data⟩ := by
    simp only [chTransactions2string, transaction2string_memcpy]
  rw [hwrite, Lib.flatMap_eq_iff_of_length_le fun t _ => length_transaction2string_le t]
  constructor
  · intro h
    by_contra hsize
    have hne : trans.toList.take size ≠ [] := by
      rw [ne_eq, ← List.length_eq_zero_iff, List.length_take, Vector.length_toList,
        maxNumTransactions]
      omega
    obtain ⟨t, ht⟩ := List.exists_mem_of_ne_nil _ hne
    exact transaction2string_ne t (h t ht)
  · rintro rfl t ht
    simp at ht

/-- The two texts of a chained block. -/
theorem cblock2string_eq_toText_iff (b : CBlock) :
    cblock2string (setCBlock b) = b.toText ↔ b.size = 0 := by
  rw [cblock2string_setCBlock, Raftel.cblock2string, CBlock.toText, List.append_cancel_left_eq,
    chTransactions2string_eq_iff]

/-! ### The hash of a chained block -/

section Hash

variable {Key : Type}

/-- **Exactly when the two sides hash alike.**  For every block, when SHA-256 has no collision between
its two texts: the enclave and the host give it the same bytes, and the vote that an enclave signs for
it in its view is the one that the host expects, if and only if the block has no transaction. -/
theorem hashCBlock_agrees_iff (cr : Crypto Key) (b : CBlock)
    (hcoll : cr.sha256 (cblock2string (setCBlock b)) = cr.sha256 b.toText →
      cblock2string (setCBlock b) = b.toText) :
    ((∀ i, (hashCBlock cr.sha256 (setCBlock b)).hash i = (b.hash cr.sha256).hash.get i) ↔
        b.size = 0) ∧
      ∀ (vars : EnclaveVars Key) (hash : Hash) (st : PrepState) (sign : Sign),
        (chCombTEEprepare cr vars b hash st).1.set = true → st.view = b.view → st.phase = .prepare →
        ((chCombTEEprepare cr vars b hash st).1.rdata = (ldrPrepareChComb2just cr.sha256 b sign).rdata
          ↔ b.size = 0) := by
  have hdigest : cr.sha256 (Raftel.cblock2string b) = cr.sha256 b.toText ↔ b.size = 0 := by
    rw [← cblock2string_eq_toText_iff, ← cblock2string_setCBlock]
    exact ⟨hcoll, congrArg cr.sha256⟩
  refine ⟨?_, ?_⟩
  · rw [← hdigest, hashCBlock_setCBlock]
    constructor
    · intro h
      apply Vector.ext
      intro i hi
      exact h ⟨i, hi⟩
    · intro h i
      show (cr.sha256 (Raftel.cblock2string b)).get i = (cr.sha256 b.toText).get i
      rw [h]
  · intro vars hash st sign hset hview hphase
    have hrdata : (chCombTEEprepare cr vars b hash st).1.rdata =
        ⟨Raftel.hashCBlock cr.sha256 b, st.view, newHash, 0, st.phase.byte⟩ := by
      unfold chCombTEEprepare at hset ⊢
      dsimp only at hset ⊢
      split at hset
      · next h =>
        rw [if_pos h]
        split <;> rfl
      · exact absurd hset (by simp [Just.none])
    rw [← hdigest, hrdata, hview, hphase]
    simp [ldrPrepareChComb2just, Raftel.hashCBlock, CBlock.hash]

/-- In place of a hash, the length of the text. -/
def lengthCrypto : Crypto Unit where
  sha256 text := Vector.replicate _ (UInt8.ofNat text.length)
  signBuf _ _ := Vector.replicate _ 48
  verifySign _ _ _ := true

/-- A block on the genesis certificate, with one transaction whose payload is all `'0'`. -/
def oneTransactionCBlock : CBlock :=
  { genBlock with view := 1, size := 1, trans := Vector.replicate _ ⟨7, 12, Vector.replicate _ 48⟩ }

theorem take_trans_oneTransactionCBlock :
    oneTransactionCBlock.trans.toList.take 1 = [⟨7, 12, Vector.replicate _ 48⟩] := by
  simp only [oneTransactionCBlock, Vector.toList_replicate, List.take_replicate]
  rfl

/-- The enclave writes two digits for each byte of the payload. -/
theorem length_cblock2string_oneTransactionCBlock :
    (cblock2string (setCBlock oneTransactionCBlock)).length =
      oneTransactionCBlock.toText.length + payloadSize := by
  have hdigits : (natText (48 : UInt8).toNat).length = 2 := rfl
  have hsize : oneTransactionCBlock.size = 1 := rfl
  rw [cblock2string_setCBlock, Raftel.cblock2string, CBlock.toText, chTransactions2string, hsize,
    take_trans_oneTransactionCBlock]
  simp only [List.length_append, List.flatMap_cons, List.flatMap_nil, List.append_nil,
    Raftel.transaction2string, Vector.toList_replicate, List.length_flatMap, List.map_replicate,
    List.sum_replicate_nat, hdigits, List.length_replicate]
  omega

theorem sha256_oneTransactionCBlock_ne :
    lengthCrypto.sha256 (cblock2string (setCBlock oneTransactionCBlock)) ≠
      lengthCrypto.sha256 oneTransactionCBlock.toText := by
  intro h
  have hfirst : UInt8.ofNat (cblock2string (setCBlock oneTransactionCBlock)).length =
      UInt8.ofNat oneTransactionCBlock.toText.length :=
    Vector.replicate_inj.mp h |>.resolve_left (by decide)
  have hmod := congrArg UInt8.toNat hfirst
  rw [length_cblock2string_oneTransactionCBlock, UInt8.toNat_ofNat', UInt8.toNat_ofNat', payloadSize] at hmod
  omega

theorem hashCBlock_agrees_iff_oneTransaction :
    ¬ ∀ i, (hashCBlock lengthCrypto.sha256 (setCBlock oneTransactionCBlock)).hash i =
      (oneTransactionCBlock.hash lengthCrypto.sha256).hash.get i := by
  have h := hashCBlock_agrees_iff lengthCrypto oneTransactionCBlock fun heq =>
    absurd heq sha256_oneTransactionCBlock_ne
  exact fun hall => absurd (h.1.mp hall) (by decide)

/-- **Counterexample.**  One transaction is enough: the two texts differ, and so do the hashes. -/
theorem not_hashCBlock_agrees :
    oneTransactionCBlock.size ≤ maxNumTransactions ∧
      cblock2string (setCBlock oneTransactionCBlock) ≠ oneTransactionCBlock.toText ∧
      ¬ ∀ i, (hashCBlock lengthCrypto.sha256 (setCBlock oneTransactionCBlock)).hash i =
        (oneTransactionCBlock.hash lengthCrypto.sha256).hash.get i := by
  refine ⟨by decide, fun htext => ?_, fun h => ?_⟩
  · exact sha256_oneTransactionCBlock_ne (congrArg lengthCrypto.sha256 htext)
  · exact sha256_oneTransactionCBlock_ne (Vector.ext fun i hi => h ⟨i, hi⟩)

end Hash

end Structs

end Raftel
