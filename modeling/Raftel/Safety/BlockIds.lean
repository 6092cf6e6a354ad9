import Raftel.Handler.HotStuff
import Raftel.Lib.Digits
import Raftel.Safety.FailedProposal
import Raftel.Safety.OneVote

/-!
# The identifiers of blocks

`createNewBlock` writes the replica and the view one after the other and reads the digits as an `int`.
The number may be too large, and the digits do not tell where the view begins.

* `goodIds_iff` : when two blocks get identifiers, and different ones
* `not_goodIds` : a view without an identifier, and two blocks with the same
-/

namespace Raftel

open Lib

variable {Key : Type} {p q : PID} {v w : View}

/-- The identifier of the block, unless there was an exception. -/
def createdId {ε σ : Type} : EStateM.Result ε σ Block → Option ℕ
  | .ok block _ => some block.id
  | .error _ _ => none

/-- The same for HotStuff, where also a read may be out of range. -/
def HotStuff.createdId {ε σ : Type} : Option (Except ε Block × σ) → Option ℕ
  | some (.ok block, _) => some block.id
  | _ => none

/-- Both blocks have identifiers, different ones if the replicas or the views are different. -/
structure GoodIds (p : PID) (v : View) (q : PID) (w : View) (id id' : Option ℕ) : Prop where
  created : id.isSome = true
  created' : id'.isSome = true
  ne : (p, v) ≠ (q, w) → id ≠ id'

/-- The replica and the view make an `int`. -/
def FitsId (p : PID) (v : View) : Prop :=
  v < 2 ^ 31 ∧ p ≤ (2 ^ 31 - 1 - v) / 10 ^ digitCount 10 v

instance (p : PID) (v : View) : Decidable (FitsId p v) := inferInstanceAs (Decidable (_ ∧ _))

theorem concatDigits_lt_iff : concatDigits p v < 2 ^ 31 ↔ FitsId p v := by
  have hle : ∀ m n k : ℕ, 0 < k → (m * k + n < 2 ^ 31 ↔ n < 2 ^ 31 ∧ m ≤ (2 ^ 31 - 1 - n) / k) := by
    intro m n k hk
    rw [Nat.le_div_iff_mul_le hk]
    omega
  exact hle p v (10 ^ digitCount 10 v) (by positivity)

/-- The identifier, as far as the number is an `int`. -/
def idOf (p : PID) (v : View) : Option ℕ :=
  if concatDigits p v < 2 ^ 31 then some (concatDigits p v) else none

theorem createdId_createNewBlock (cfg : HandlerConfig Key) (hash : Hash) (s : HandlerState) :
    createdId (createNewBlock cfg hash s) = idOf cfg.myid s.view := by
  rw [createNewBlock_run]
  unfold idOf
  split
  · rfl
  · rfl

theorem HotStuff.createdId_createNewBlock (cfg : HandlerConfig Key) (hash : Hash)
    (s : HotStuff.State) :
    HotStuff.createdId (HotStuff.createNewBlock cfg hash s) = idOf cfg.myid s.view := by
  unfold idOf
  show HotStuff.createdId ((if concatDigits cfg.myid s.view < 2 ^ 31 then pure _ else throw _ :
    HotStuff.HandlerM Block) _) = _
  split
  · rfl
  · rfl

theorem goodIds_idOf_iff : GoodIds p v q w (idOf p v) (idOf q w) ↔
    FitsId p v ∧ FitsId q w ∧ ¬ CutLater 10 p v q w ∧ ¬ CutLater 10 q w p v := by
  have hsome : ∀ p v, (idOf p v).isSome = true ↔ FitsId p v := by
    intro p v
    rw [← concatDigits_lt_iff]
    unfold idOf
    split <;> simp_all
  have hid : ∀ {p v}, FitsId p v → idOf p v = some (concat 10 p v) := by
    intro p v hfits
    exact if_pos (concatDigits_lt_iff.mpr hfits)
  constructor
  · rintro ⟨hp, hq, hne⟩
    rw [hsome] at hp hq
    have hdiff : (p, v) ≠ (q, w) → concat 10 p v ≠ concat 10 q w := by
      intro hpair heq
      apply hne hpair
      rw [hid hp, hid hq, heq]
    refine ⟨hp, hq, fun hcut => ?_, fun hcut => ?_⟩
    · exact hdiff hcut.ne ((concat_eq_iff (by decide)).mpr (Or.inr (Or.inl hcut)))
    · exact hdiff hcut.ne.symm ((concat_eq_iff (by decide)).mpr (Or.inr (Or.inr hcut)))
  · rintro ⟨hp, hq, hcut, hcut'⟩
    refine ⟨(hsome p v).mpr hp, (hsome q w).mpr hq, fun hpair heq => ?_⟩
    rw [hid hp, hid hq, Option.some.injEq, concat_eq_iff (by decide)] at heq
    rcases heq with heq | heq | heq
    · exact hpair heq
    · exact hcut heq
    · exact hcut' heq

/-- **Block identifiers**: two blocks get identifiers that tell them apart if and only if both numbers
are in the range of an `int` and neither is the other one with the view cut off at another place.  The
function is the same in HotStuff and in the hybrid protocol. -/
theorem goodIds_iff (cfg cfg' : HandlerConfig Key) (hash hash' : Hash) :
    (∀ s s' : HandlerState,
      GoodIds cfg.myid s.view cfg'.myid s'.view (createdId (createNewBlock cfg hash s))
          (createdId (createNewBlock cfg' hash' s')) ↔
        FitsId cfg.myid s.view ∧ FitsId cfg'.myid s'.view ∧
          ¬ CutLater 10 cfg.myid s.view cfg'.myid s'.view ∧
          ¬ CutLater 10 cfg'.myid s'.view cfg.myid s.view) ∧
    ∀ s s' : HotStuff.State,
      GoodIds cfg.myid s.view cfg'.myid s'.view
          (HotStuff.createdId (HotStuff.createNewBlock cfg hash s))
          (HotStuff.createdId (HotStuff.createNewBlock cfg' hash' s')) ↔
        FitsId cfg.myid s.view ∧ FitsId cfg'.myid s'.view ∧
          ¬ CutLater 10 cfg.myid s.view cfg'.myid s'.view ∧
          ¬ CutLater 10 cfg'.myid s'.view cfg.myid s.view := by
  constructor
  · intro s s'
    rw [createdId_createNewBlock, createdId_createNewBlock]
    exact goodIds_idOf_iff
  · intro s s'
    rw [HotStuff.createdId_createNewBlock, HotStuff.createdId_createNewBlock]
    exact goodIds_idOf_iff

/-! ### Exceptions and collisions -/

/-- A replica of four in a view. -/
def inView (v : View) : HandlerState := { HandlerState.init with view := v }

/-- The identifier of a block that replica `p` of four creates in a view. -/
def idInView (p : PID) (v : View) : Option ℕ :=
  createdId (createNewBlock (noTEESystem.config p) noHash (inView v))

/-- **An exception and a collision.**  Replica 1 gets no identifier in view 3000000000, and its block of
view 2 has the identifier of the block of replica 0 in view 12. -/
theorem not_goodIds :
    ¬ GoodIds 1 3000000000 0 12 (idInView 1 3000000000) (idInView 0 12) ∧
      ¬ GoodIds 1 2 0 12 (idInView 1 2) (idInView 0 12) := by
  have hid : ∀ p v, idInView p v = idOf p v :=
    fun p v => createdId_createNewBlock (noTEESystem.config p) noHash (inView v)
  rw [hid, hid, hid, goodIds_idOf_iff, goodIds_idOf_iff]
  decide

end Raftel
