import Raftel.Text

/-!
# The C structures at the boundary of the enclave

The host copies its objects field by field into the structures of `user_types.h` (the `set*` functions
of `Handler.cpp`), and the enclave builds its texts from these with loops of its own.  The rest of the
development has one type for an object and its structure, and one function for the text that both sides
build (`Text`); here the two sides are kept apart, and the texts are shown to be the same.

* `rdata2string_setRData`, `accumData2string_setAccumData` : the signed texts
* `combHashBlock_eq_hash` : the hash of a block
-/

namespace Raftel

namespace Structs

/-- A C array of `n` elements. -/
abbrev CArray (α : Type) (n : ℕ) := Fin n → α

/-- `hash_t` -/
structure HashT where
  hash : CArray UInt8 sha256DigestLength
  set : Bool

/-- `rdata_t` -/
structure RDataT where
  proph : HashT
  propv : View
  justh : HashT
  justv : View
  phase : UInt8

/-- `accum_t`, without the signature, which is not part of the signed text. -/
structure AccumDataT where
  set : Bool
  view : View
  prepv : View
  hash : HashT
  size : ℕ

/-- `trans_t` -/
structure TransT where
  clientid : CID
  transid : TID
  data : CArray UInt8 payloadSize

/-- `basicblock_t` -/
structure BasicBlockT where
  id : ℕ
  set : Bool
  prevHash : HashT
  size : ℕ
  trans : CArray TransT maxNumTransactions

/-! ### From the host's objects to the structures -/

/-- `memcpy` of a whole `std::array` -/
def memcpy {α : Type} {n : ℕ} (src : Vector α n) : CArray α n := fun i => src.get i

def setHash (hash : Hash) : HashT := ⟨memcpy hash.hash, hash.set⟩

def setRData (data : RData) : RDataT :=
  ⟨setHash data.proph, data.propv, setHash data.justh, data.justv, data.phase⟩

/-- The signed fields that `setAccum` copies. -/
def setAccumData (acc : AccumData) : AccumDataT :=
  ⟨acc.set, acc.view, acc.prepv, setHash acc.hash, acc.size⟩

/-- `setBasicBlock`: all slots are copied, whatever `size` says. -/
def setBasicBlock (block : Block) : BasicBlockT where
  id := block.id
  set := block.set
  prevHash := setHash block.prevHash
  size := block.size
  trans := fun i =>
    let t := block.transactions.get i
    ⟨t.clientid, t.transid, memcpy t.data⟩

/-! ### The texts of the enclave -/

/-- The loop `for (i = 0; i < n; i++) { text += f(i); }`, from the given text on. -/
def appendLoop {n : ℕ} (f : Fin n → Text) (is : List (Fin n)) (text : Text) : Text :=
  is.foldl (fun text i => text ++ f i) text

/-- `hash2string` of `EnclaveShare.cpp` -/
def hash2string (hash : HashT) : Text :=
  appendLoop (fun i => [hash.hash i]) (List.finRange sha256DigestLength) [] ++ boolText hash.set

/-- `rdata2string` of `EnclaveShare.cpp` -/
def rdata2string (rdata : RDataT) : Text :=
  hash2string rdata.proph ++ natText rdata.propv ++ hash2string rdata.justh ++ natText rdata.justv
    ++ natText rdata.phase.toNat

/-- `accum_data2string` of `EnclaveShare.cpp` -/
def accumData2string (acc : AccumDataT) : Text :=
  boolText acc.set ++ natText acc.view ++ natText acc.prepv ++ hash2string acc.hash
    ++ natText acc.size

/-- The text that `COMB_TEEaccum` and `COMB_TEEaccumSp` sign, built in place; `set` is `true`. -/
def teeAccumText (v highest : View) (hash : HashT) (size : ℕ) : Text :=
  boolText true ++ natText v ++ natText highest ++ hash2string hash ++ natText size

/-- `COMB_transaction2string` -/
def combTransaction2string (transaction : TransT) : Text :=
  (natText transaction.clientid ++ natText transaction.transid) ++ List.ofFn transaction.data

/-- The dummy hash of the enclave. -/
def noHashT : HashT := ⟨fun _ => 48, false⟩

/-- `COMB_hashBlock` -/
def combHashBlock (sha : Text → Digest) (block : BasicBlockT) : HashT :=
  if !block.set || block.size > maxNumTransactions then noHashT
  else
    let text := natText block.id ++ boolText block.set ++ hash2string block.prevHash
      ++ natText block.size
    let text := appendLoop (fun i => combTransaction2string (block.trans i))
      ((List.finRange maxNumTransactions).take block.size) text
    ⟨memcpy (sha text), true⟩

/-! ### The two sides agree -/

theorem appendLoop_eq {n : ℕ} (f : Fin n → Text) (is : List (Fin n)) (text : Text) :
    appendLoop f is text = text ++ is.flatMap f := by
  induction is generalizing text with
  | nil => simp [appendLoop]
  | cons i is ih =>
    show appendLoop f is (text ++ f i) = _
    rw [ih, List.flatMap_cons, List.append_assoc]

/-- The elements that a loop over the whole array reads. -/
theorem map_memcpy_finRange {α : Type} {n : ℕ} (src : Vector α n) :
    (List.finRange n).map (memcpy src) = src.toList := by
  apply List.ext_getElem
  · simp
  · intro i h₁ h₂
    simp [memcpy, Vector.get]

theorem ofFn_memcpy {α : Type} {n : ℕ} (src : Vector α n) : List.ofFn (memcpy src) = src.toList := by
  apply List.ext_getElem
  · simp
  · intro i h₁ h₂
    simp [memcpy, Vector.get]

theorem hash2string_setHash (h : Hash) : hash2string (setHash h) = Raftel.hash2string h := by
  unfold hash2string
  rw [appendLoop_eq, List.nil_append, ← List.map_eq_flatMap]
  exact congrArg (· ++ boolText h.set) (map_memcpy_finRange h.hash)

theorem rdata2string_setRData (d : RData) : rdata2string (setRData d) = Raftel.rdata2string d := by
  unfold rdata2string Raftel.rdata2string
  simp only [setRData, hash2string_setHash]

theorem accumData2string_setAccumData (a : AccumData) :
    accumData2string (setAccumData a) = Raftel.accumData2string a := by
  unfold accumData2string Raftel.accumData2string
  simp only [setAccumData, hash2string_setHash]

theorem combTransaction2string_memcpy (t : Transaction) :
    combTransaction2string ⟨t.clientid, t.transid, memcpy t.data⟩ = transaction2string t := by
  unfold combTransaction2string transaction2string
  rw [ofFn_memcpy]

/-- The transactions that the loop of `COMB_hashBlock` reads. -/
theorem flatMap_take_finRange (block : Block) :
    ((List.finRange maxNumTransactions).take (setBasicBlock block).size).flatMap
        (fun i => combTransaction2string ((setBasicBlock block).trans i)) =
      block.hashed.flatMap transaction2string := by
  unfold Block.hashed
  rw [← map_memcpy_finRange block.transactions, ← List.map_take, List.flatMap_map]
  simp only [setBasicBlock, combTransaction2string_memcpy]
  rfl

theorem setHash_noHash : setHash noHash = noHashT := by
  unfold setHash noHash noHashT
  congr 1
  funext i
  simp [memcpy, Vector.get]

/-- The function on structures refines the one on blocks. -/
theorem combHashBlock_setBasicBlock (sha : Text → Digest) (block : Block) :
    combHashBlock sha (setBasicBlock block) = setHash (Raftel.combHashBlock sha block) := by
  unfold combHashBlock Raftel.combHashBlock
  show (if (!block.set || decide (block.size > maxNumTransactions)) = true then _ else _) = _
  split
  · exact setHash_noHash.symm
  · dsimp only
    rw [appendLoop_eq, flatMap_take_finRange]
    show (⟨memcpy (sha (natText block.id ++ boolText block.set ++ hash2string (setHash block.prevHash)
      ++ natText block.size ++ block.hashed.flatMap transaction2string)), true⟩ : HashT) = _
    rw [hash2string_setHash]
    rfl

/-- **Enclave and host hash the same block**, when it is set and its size is in range: the enclave
returns a set hash, with the bytes of `Block::hash`. -/
theorem combHashBlock_eq_hash (sha : Text → Digest) (block : Block) (hset : block.set = true)
    (hsize : block.size ≤ maxNumTransactions) :
    (combHashBlock sha (setBasicBlock block)).set = true ∧
      ∀ i, (combHashBlock sha (setBasicBlock block)).hash i = (block.hash sha).hash.get i := by
  have hblock : Raftel.combHashBlock sha block = block.hash sha := by
    unfold Raftel.combHashBlock
    rw [if_neg]
    · rfl
    · simp [hset, hsize]
  rw [combHashBlock_setBasicBlock, hblock]
  exact ⟨rfl, fun _ => rfl⟩

/-- A block of one transaction, whose payload is all zero bytes. -/
def oneTransactionBlock : Block :=
  ⟨101, true, newHash, 1, Vector.replicate _ ⟨7, 12, Vector.replicate _ 0⟩⟩

/-- The first characters of a text, in place of a hash. -/
def firstCharsSha (text : Text) : Digest := Vector.ofFn fun i => text.getD i.val 0

theorem combHashBlock_oneTransaction :
    oneTransactionBlock.set = true ∧ oneTransactionBlock.size ≤ maxNumTransactions ∧
      (combHashBlock firstCharsSha (setBasicBlock oneTransactionBlock)).set = true :=
  ⟨rfl, by decide, (combHashBlock_eq_hash firstCharsSha oneTransactionBlock rfl (by decide)).1⟩

end Structs

end Raftel
