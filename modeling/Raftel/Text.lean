import Raftel.Types

/-!
# The signed texts and the hash of a block

The strings that `EnclaveShare.cpp`, `EnclaveComb.cpp` and the `toString` methods of `App/` build
before they hash or sign.  The texts have no separators: a number is its decimal digits, a hash its
32 raw bytes followed by the flag.

`SignedText` records what a text was built from.  The trusted components sign two kinds of text
only, and the ideal signatures of the protocol are about the data (`RData`, `AccumData`), not
about the concatenated characters.
-/

namespace Raftel

/-- `std::to_string` on an unsigned number. -/
def natText (n : ℕ) : Text := (Nat.toDigits 10 n).map Char.toUInt8

/-- `std::to_string` on a `bool`. -/
def boolText (b : Bool) : Text := natText b.toNat

def hash2string (h : Hash) : Text := h.hash.toList ++ boolText h.set

def rdata2string (d : RData) : Text :=
  hash2string d.proph ++ natText d.propv ++ hash2string d.justh ++ natText d.justv
    ++ natText d.phase.toNat

def accumData2string (a : AccumData) : Text :=
  boolText a.set ++ natText a.view ++ natText a.prepv ++ hash2string a.hash ++ natText a.size

/-- What a trusted component signs. -/
inductive SignedText
  | rdata (d : RData)
  | accum (a : AccumData)
  deriving DecidableEq

/-- The characters that go through SHA-256 and ECDSA. -/
def SignedText.toText : SignedText → Text
  | rdata d => rdata2string d
  | accum a => accumData2string a

/-! ### Blocks -/

/-- `COMB_transaction2string`; the same text as `Transaction::toString`. -/
def transaction2string (t : Transaction) : Text :=
  natText t.clientid ++ natText t.transid ++ t.data.toList

/-- The transactions that enter the text of a block: the first `size` slots. -/
def Block.hashed (b : Block) : List Transaction := b.transactions.toList.take b.size

/-- `Block::toString`; `COMB_hashBlock` builds the same text. -/
def Block.toText (b : Block) : Text :=
  natText b.id ++ boolText b.set ++ hash2string b.prevHash ++ natText b.size
    ++ b.hashed.flatMap transaction2string

/-- `Block::hash` -/
def Block.hash (sha : Text → Digest) (b : Block) : Hash := ⟨sha b.toText, true⟩

/-- `COMB_hashBlock`: the enclave gives no hash to a dummy block or to one whose `size` field
exceeds the array. -/
def combHashBlock (sha : Text → Digest) (b : Block) : Hash :=
  if !b.set || b.size > maxNumTransactions then noHash else ⟨sha b.toText, true⟩

theorem combHashBlock_of_set {sha : Text → Digest} {b : Block}
    (h : (combHashBlock sha b).set = true) : combHashBlock sha b = b.hash sha := by
  unfold combHashBlock at h ⊢
  split
  · next hb => simp [hb, noHash] at h
  · rfl

end Raftel
