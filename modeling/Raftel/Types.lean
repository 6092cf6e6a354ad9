import Mathlib.Algebra.Group.Nat.Defs
import Mathlib.Data.List.AList

/-!
# The data model of the hybrid protocol

The types of `App/types.h`, `App/params.h` and `Enclave/user_types.h` that the hybrid protocol
(`BASIC_HYBRID_TEE`) reads and writes.  The host classes of `App/` and the C structures passed to
the enclave hold the same fields, so one Lean type stands for both; the conversions between them
are the identity.

Fixed C arrays are `Vector`s of the same length; a `size` field says how many of their entries
are in use, as in the source.  `View`, `PID`, `CID` and `TID` are 32-bit unsigned there: the
counters that are incremented are reduced modulo `2 ^ 32` where that happens (`nextView`).
-/

namespace Raftel

/-! ### Constants -/

/-- `MAX_NUM_SIGNATURES` of `params.h`.  17 is the committed value, and `run.py` writes the size of a quorum there;
only the example of a message whose size is the next number depends on it. -/
def maxNumSignatures : ℕ := 17

theorem maxNumSignatures_pos : 0 < maxNumSignatures := by decide

/-- `MAX_NUM_TRANSACTIONS` of `params.h`. -/
def maxNumTransactions : ℕ := 400

/-- `PAYLOAD_SIZE` of `params.h`. -/
def payloadSize : ℕ := 1100

/-- `SHA256_DIGEST_LENGTH` of OpenSSL. -/
def sha256DigestLength : ℕ := 32

/-- `SIGN_LEN` of `key.h`, for the 256-bit curve. -/
def signLen : ℕ := 72

/-! ### Identifiers and counters -/

/-- Process identifiers. -/
abbrev PID := ℕ

/-- Client identifiers. -/
abbrev CID := ℕ

/-- Transaction identifiers; `0` is reserved for dummy transactions. -/
abbrev TID := ℕ

abbrev View := ℕ

/-- `view++` on the 32-bit view counter. -/
def nextView (v : View) : View := (v + 1) % 2 ^ 32

/-- The bytes of a `std::string`. -/
abbrev Text := List UInt8

abbrev Digest := Vector UInt8 sha256DigestLength

/-- The four values of `Phase1` that a trusted counter takes. -/
inductive Phase1
  | newview
  | prepare
  | precommit
  | commit
  deriving DecidableEq, Repr

namespace Phase1

/-- The byte `PH1_NEWVIEW` .. `PH1_COMMIT` that stands for the phase in signed data.  An `rdata`
that comes from outside may hold any byte there. -/
def byte : Phase1 → UInt8
  | newview => 0
  | prepare => 1
  | precommit => 2
  | commit => 3

/-- The position of the phase in a view. -/
def index : Phase1 → ℕ
  | newview => 0
  | prepare => 1
  | precommit => 2
  | commit => 3

theorem byte_injective : Function.Injective byte := by
  intro p q h
  cases p <;> cases q <;> first | rfl | exact absurd h (by decide)

@[simp]
theorem byte_inj {p q : Phase1} : p.byte = q.byte ↔ p = q := byte_injective.eq_iff

end Phase1

/-! ### Hashes and signatures -/

/-- `hash_t`; `set` is false for the dummy hash. -/
structure Hash where
  hash : Digest
  set : Bool
  deriving DecidableEq

/-- The hash of the genesis block: every byte is the character `0`. -/
def newHash : Hash := ⟨Vector.replicate _ 48, true⟩

/-- The dummy hash. -/
def noHash : Hash := ⟨Vector.replicate _ 48, false⟩

/-- Equality of hashes looks at the bytes only, not at `set`. -/
def eqHashes (h₁ h₂ : Hash) : Bool := h₁.hash == h₂.hash

@[simp]
theorem eqHashes_eq_true {h₁ h₂ : Hash} : eqHashes h₁ h₂ = true ↔ h₁.hash = h₂.hash := by
  simp [eqHashes]

/-- `sign_t` -/
structure Sign where
  set : Bool
  signer : PID
  sign : Vector UInt8 signLen
  deriving DecidableEq

/-- A default constructed signature is not set. -/
def Sign.none : Sign := ⟨false, 0, Vector.replicate _ 48⟩

instance : Inhabited Sign := ⟨Sign.none⟩

/-- `signs_t` -/
structure Signs where
  size : ℕ
  signs : Vector Sign maxNumSignatures
  deriving DecidableEq

namespace Signs

/-- `Signs()` -/
def empty : Signs := ⟨0, Vector.replicate _ Sign.none⟩

/-- `Signs(Sign)` -/
def one (s : Sign) : Signs := ⟨1, (Vector.replicate _ Sign.none).set 0 s maxNumSignatures_pos⟩

/-- The signatures in use: the first `size` entries. -/
def entries (ss : Signs) : List Sign := ss.signs.toList.take ss.size

/-- The array that holds the given signatures. -/
def ofList (l : List Sign) : Signs := ⟨l.length, Vector.ofFn fun k => l.getD k.val Sign.none⟩

/-- `Signs::add` -/
def add (ss : Signs) (s : Sign) : Signs := ⟨ss.size + 1, ss.signs.setIfInBounds ss.size s⟩

/-- `Signs::addUpto` -/
def addUpto (ss others : Signs) (n : ℕ) : Signs :=
  others.entries.foldl (fun acc s => if acc.size < n then acc.add s else acc) ss

/-- `Signs::get` -/
def get (ss : Signs) (i : ℕ) : Sign := ss.signs.toList.getD i Sign.none

theorem get_one (s : Sign) : (one s).get 0 = s := by
  simp [get, one]

end Signs

/-! ### Signed data -/

/-- `rdata_t` -/
structure RData where
  proph : Hash
  propv : View
  justh : Hash
  justv : View
  phase : UInt8
  deriving DecidableEq

/-- `just_t` -/
structure Just where
  set : Bool
  rdata : RData
  signs : Signs
  deriving DecidableEq

/-- `RData()` -/
def RData.none : RData := ⟨newHash, 0, newHash, 0, Phase1.newview.byte⟩

/-- `Just()`: the unset justification, returned when a trusted call refuses. -/
def Just.none : Just := ⟨false, RData.none, Signs.empty⟩

/-- `onejust_t` -/
structure OneJust where
  set : Bool
  rdata : RData
  sign : Sign
  deriving DecidableEq

instance : Inhabited OneJust := ⟨⟨false, RData.none, Sign.none⟩⟩

/-- `onejusts_t` -/
abbrev OneJusts := Vector OneJust maxNumSignatures

/-- `newviews_t`: the new-view justifications behind an accumulator. -/
structure NewViews where
  size : ℕ
  justs : OneJusts
  deriving DecidableEq

/-- The justifications in use. -/
def NewViews.entries (nvs : NewViews) : List OneJust := nvs.justs.toList.take nvs.size

/-- The signed fields of `accum_t`. -/
structure AccumData where
  set : Bool
  view : View
  prepv : View
  hash : Hash
  size : ℕ
  deriving DecidableEq

/-- `accum_t` -/
structure Accum extends AccumData where
  sign : Sign
  deriving DecidableEq

/-- `Accum()` -/
def Accum.none : Accum := ⟨⟨false, 0, 0, newHash, 0⟩, Sign.none⟩

/-! ### Blocks -/

/-- `trans_t` -/
structure Transaction where
  clientid : CID
  transid : TID
  data : Vector UInt8 payloadSize
  deriving DecidableEq

/-- `Transaction()`: the dummy transaction. -/
def Transaction.dummy : Transaction := ⟨0, 0, Vector.replicate _ 48⟩

/-- `basicblock_t`; `size` is the number of transactions that are not dummies. -/
structure Block where
  id : ℕ
  set : Bool
  prevHash : Hash
  size : ℕ
  transactions : Vector Transaction maxNumTransactions
  deriving DecidableEq

/-- `Block::extends` -/
def Block.extends (b : Block) (h : Hash) : Bool := eqHashes b.prevHash h

end Raftel
