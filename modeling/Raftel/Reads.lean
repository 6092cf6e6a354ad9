import Raftel.Lib.Checked
import Raftel.Log
import Raftel.TrustedComb

/-!
# The reads of the fixed arrays

The functions of `Block.cpp`, `Signs.cpp` and `Log.cpp` that loop up to a `size` field over the arrays
`transactions` and `signs`, with every read checked: a read that is out of range has no result.  The
functions that loop over the whole array need no check.
-/

namespace Raftel

/-- The reads `signs[0]` .. `signs[size - 1]`. -/
def Signs.slots (ss : Signs) : List (Option Sign) := Lib.slots ss.signs ss.size

/-- The size of the signatures is within the array. -/
def Signs.InBounds (ss : Signs) : Prop := ss.size ≤ maxNumSignatures

instance (ss : Signs) : Decidable ss.InBounds := inferInstanceAs (Decidable (_ ≤ _))

/-- The size of the block is within the array. -/
def Block.InBounds (b : Block) : Prop := b.size ≤ maxNumTransactions

instance (b : Block) : Decidable b.InBounds := inferInstanceAs (Decidable (_ ≤ _))

namespace Checked

/-- A check that is made when `p` holds: `p && check`. -/
def checkIf (p : Prop) [Decidable p] (check : Option Bool) : Option Bool :=
  if p then check else some false

/-! ### Signatures -/

/-- A loop over all signatures in use. -/
def entries (ss : Signs) : Option (List Sign) := Lib.readAll ss.signs ss.size

/-- `Signs::getSigners` -/
def getSigners (ss : Signs) : Option (List PID) := do
  let signs ← entries ss
  pure (signs.map Sign.signer).dedup

section Verify

variable {Key T : Type} (verifySign : Sign → Key → T → Bool) (nodes : Nodes Key)

/-- The loop of `Signs::verify`, left at the first signature that is refused. -/
def verifyFrom (t : T) : List (Option Sign) → Option Bool
  | [] => some true
  | read :: reads => do
    let sign ← read
    match nodes.lookup sign.signer with
    | some nd => if verifySign sign nd.pub t then verifyFrom t reads else some false
    | none => some false

/-- `Signs::verify` -/
def verify (ss : Signs) (t : T) : Option Bool := verifyFrom verifySign nodes t ss.slots

end Verify

/-- The loop of `Signs::addUpto`. -/
def addUptoFrom (n : ℕ) : Signs → List (Option Sign) → Option Signs
  | ss, [] => some ss
  | ss, read :: reads =>
    if ss.size < n then do
      let sign ← read
      addUptoFrom n (ss.add sign) reads
    else some ss

/-- `Signs::addUpto` -/
def addUpto (ss others : Signs) (n : ℕ) : Option Signs := addUptoFrom n ss others.slots

/-- The loop of `Signs::operator<`. -/
def ltFrom : List (Option Sign) → List (Option Sign) → Option Bool
  | read :: reads, read' :: reads' => do
    let s ← read
    let t ← read'
    if s.lt t then some true else if t.lt s then some false else ltFrom reads reads'
  | _, _ => some false

/-- `Signs::operator<` -/
def lt (ss ts : Signs) : Option Bool :=
  if ss.size < ts.size then some true
  else if ts.size < ss.size then some false
  else ltFrom ss.slots ts.slots

/-! ### Blocks -/

/-- `Block::transactions2string` -/
def transactions2string (b : Block) : Option Text := do
  let transactions ← Lib.readAll b.transactions b.size
  pure (transactions.flatMap transaction2string)

/-- `Block::toString` -/
def toText (b : Block) : Option Text := do
  let text ← transactions2string b
  pure (natText b.id ++ boolText b.set ++ hash2string b.prevHash ++ natText b.size ++ text)

/-- `Block::hash` -/
def hash (sha : Text → Digest) (b : Block) : Option Hash := do
  let text ← toText b
  pure ⟨sha text, true⟩

/-! ### Sets of messages -/

section Log

variable {α : Type} {viewOf : α → View} (signs : α → Signs)

/-- The comparisons that `std::set::insert` makes. -/
def compares (msg : α) : List α → Option Unit
  | [] => some ()
  | m :: ms => do
    if ← lt (signs msg) (signs m) then some ()
    else if ← lt (signs m) (signs msg) then compares msg ms
    else some ()

/-- The loop of `msgNewViewFrom` .. `msgCommitCombFrom` over the stored messages, with the new signers
that are left. -/
def msgFrom : List PID → List α → Option Bool
  | _, [] => some false
  | signers, m :: ms => do
    let k ← getSigners (signs m)
    if signersFrom signers k then some true else msgFrom (signers.diff k) ms

/-- The order of the messages in a set. -/
def msgLt (m m' : α) : Bool := (signs m).lt (signs m')

/-- `log[v].insert(msg)` -/
def insert (log : ViewLog α viewOf) (msg : α) : Option (ViewLog α viewOf) := do
  compares signs msg (log.get (viewOf msg))
  pure (log.insert (msgLt signs) msg)

/-- The `store*` functions of the messages with several signatures. -/
def store (log : ViewLog α viewOf) (msg : α) : Option (ℕ × ViewLog α viewOf) := do
  let signers ← getSigners (signs msg)
  match log.map.lookup (viewOf msg) with
  | some msgs =>
    if ← msgFrom signs signers msgs then pure (0, log)
    else
      let log' ← insert signs log msg
      pure ((log'.get (viewOf msg)).length, log')
  | none => pure (1, log.insert (msgLt signs) msg)

/-- The loop of `getNewView` .. `getCommitComb` over the messages of a view. -/
def getSigns (log : ViewLog α viewOf) (view : View) (n : ℕ) : Option Signs :=
  (log.get view).foldlM (fun acc msg => if acc.size < n then addUpto acc (signs msg) n else some acc)
    .empty

end Log

end Checked

end Raftel
