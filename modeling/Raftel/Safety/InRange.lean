import Raftel.Equiv.CheckedComb
import Raftel.Equiv.HotStuff
import Raftel.Equiv.Wire

/-!
# Reads of the fixed arrays, over whole runs

The `size` fields of blocks and signatures come from the network.  `readsInRange` says for which runs of
a replica every read of `transactions` and `signs` is in range, in the hybrid protocol and in HotStuff;
`not_readsInRange_oversized` are two messages whose handling reads beyond the arrays.
-/

namespace Raftel

open Lib

section Steps

variable {Key : Type} (cfg : HandlerConfig Key)

/-- An input of the hybrid protocol with the bound for its handler. -/
def Checked.step (o : Oracle Key) (s : HandlerState) (input : ℕ × Input) : Option HandlerState :=
  Checked.react cfg o s input.1 input.2

/-- The block of a proposal fits, unless the replica has stopped. -/
def Checked.StepFits (s : HandlerState) (input : ℕ × Input) : Prop :=
  s.stopped = false → Checked.InputFits input.2

/-- An input of HotStuff with the bound for its handler. -/
def HotStuff.step (cr : Crypto Key) (s : HotStuff.State) (input : ℕ × HotStuff.Input) :
    Option HotStuff.State :=
  s.react cfg cr input.1 input.2

section Runs

variable {cfg} {o : Oracle Key} {cr : Crypto Key}

theorem Checked.exists_step (hq : cfg.qsize ≤ maxNumSignatures) {s : HandlerState}
    {input : ℕ × Input} (hs : Checked.InRange s) (h : Checked.StepFits s input) :
    ∃ s', Checked.step cfg o s input = some s' ∧ Checked.InRange s' := by
  by_cases hstop : s.stopped = true
  · exact ⟨s, (Checked.react_of_stopped hstop).1, hs⟩
  · exact ⟨_, Checked.react_eq hq hs (h (Bool.not_eq_true _ ▸ hstop))⟩

theorem Checked.stepFits_of_isSome {s : HandlerState} {input : ℕ × Input}
    (h : (Checked.step cfg o s input).isSome) : Checked.StepFits s input := by
  intro hstop
  by_contra hnot
  unfold Checked.step at h
  rw [Checked.react_eq_none hstop hnot] at h
  exact Bool.false_ne_true h

end Runs

/-- **Reads in range.**  In every run of a replica of the hybrid protocol, all reads are in range if and
only if the block of every handled proposal fits its array.  In a run of HotStuff they are if every
message fits in the state in which it comes, now and when it is used later; and a message that does not
fit now is read beyond an array at once. -/
theorem readsInRange (hq : cfg.qsize ≤ maxNumSignatures) (o : Oracle Key) (cr : Crypto Key) :
    (∀ inputs : List (ℕ × Input), (inputs.foldlM (Checked.step cfg o) .init).isSome ↔
      Meets (Checked.step cfg o) Checked.StepFits .init inputs) ∧
    ∀ inputs : List (ℕ × HotStuff.Input),
      (Meets (HotStuff.step cfg cr) (fun s input => HotStuff.StaysInRange cfg cr s input.2) .init
        inputs → (inputs.foldlM (HotStuff.step cfg cr) .init).isSome) ∧
      ((inputs.foldlM (HotStuff.step cfg cr) .init).isSome →
        Meets (HotStuff.step cfg cr) (fun s input => HotStuff.InputInRange cfg cr s input.2) .init
          inputs) := by
  refine ⟨fun inputs => ⟨?_, ?_⟩, fun inputs => ⟨?_, ?_⟩⟩
  · exact meets_of_isSome fun _ _ => Checked.stepFits_of_isSome
  · exact isSome_of_meets (fun _ _ => Checked.exists_step hq) Checked.inRange_init
  · exact isSome_of_meets (fun _ input hs h => HotStuff.react_inRange hq hs input.1 h)
      HotStuff.inRange_init
  · exact meets_of_isSome fun _ input => HotStuff.inputInRange_of_react input.1

end Steps

/-! ### Messages with large sizes -/

namespace Oversized

/-- The leader of view 0 of four replicas. -/
def cfg : HandlerConfig Unit where
  myid := 0
  nodeType := false
  numFaults := 1
  totalTEE := 0
  maxViews := 0
  nodes := ∅
  priv := ()
  enclavePriv := ()
  enclavePub := ()
  fixedLeaderMode := false
  fixedLeader := 0

def oracle : Oracle Unit where
  sha256 _ := Vector.replicate _ 0
  signBuf _ _ := Vector.replicate _ 0
  verify _ _ _ _ := true

/-- A proposal of the hybrid protocol that claims the given number of transactions. -/
def proposal (size : ℕ) : MsgLdrPrepareComb :=
  ⟨.none, ⟨7, true, newHash, size, Vector.replicate _ .dummy⟩, .none, .none⟩

/-- A new-view of HotStuff that claims the given number of signatures. -/
def newview (view : View) (size : ℕ) : HotStuff.MsgNewView :=
  ⟨⟨noHash, view, newHash, 0, Phase1.newview.byte⟩, ⟨size, Vector.replicate _ Sign.none⟩⟩

theorem signs_fits : ∀ t ∈ Vector.replicate maxNumSignatures Sign.none, t.Fits := fun t ht => by
  rw [(Vector.mem_replicate.mp ht).2]
  exact Nat.two_pow_pos 32

theorem proposal_fits {size : ℕ} (h : size < 2 ^ 32) : (proposal size).Fits := by
  have hvotes : ∀ d ∈ Vector.replicate maxNumSignatures RData.none, d.Fits := fun d hd => by
    rw [(Vector.mem_replicate.mp hd).2]
    exact ⟨by decide, by decide⟩
  have hblock : ∀ t ∈ Vector.replicate maxNumTransactions Transaction.dummy, t.Fits :=
    fun t ht => by
      rw [(Vector.mem_replicate.mp ht).2]
      exact ⟨by decide, by decide⟩
  have hzero : 0 < 2 ^ 32 := Nat.two_pow_pos 32
  exact ⟨⟨hzero, hzero, hzero, hzero⟩, ⟨show 7 < 2 ^ 32 by decide, h, hblock⟩,
    ⟨hzero, hvotes, signs_fits⟩, hzero⟩

theorem newview_fits {view size : ℕ} (hview : view < 2 ^ 32) (h : size < 2 ^ 32) :
    (newview view size).Fits :=
  ⟨⟨hview, Nat.two_pow_pos 32⟩, ⟨h, signs_fits⟩⟩

/-- The bytes of a message, decoded. -/
theorem decodes {α : Type} {r : ByteReader α} {w : Text} {x : α} (h : Undoes r w x) :
    r.run w = some (x, []) := by
  have hrun := h []
  rwa [List.append_nil] at hrun

/-- **Beyond the arrays.**  A proposal of the hybrid protocol with 401 transactions and a new-view of
HotStuff with 18 signatures are decoded from their bytes, and handling them in the first state reads
`transactions[400]` and `signs[17]`. -/
theorem not_readsInRange_oversized :
    ((MsgLdrPrepareComb.unserialize .littleEndian).run ((proposal 401).serialize .littleEndian) =
        some (proposal 401, []) ∧
      Checked.step cfg oracle .init (1, .peer (.ldrprepare (proposal 401))) = none) ∧
    (MsgVoteComb.unserialize .littleEndian).run ((newview 0 18).serialize .littleEndian) =
        some (newview 0 18, []) ∧
      HotStuff.step cfg (oracle.crypto []) .init (1, .peer (.newview (newview 0 18))) = none := by
  have hs := DataStream.littleEndian_documented
  refine ⟨⟨?_, ?_⟩, ?_, ?_⟩
  · have h := MsgLdrPrepareComb.undoes hs (proposal_fits (show 401 < 2 ^ 32 by decide))
    rw [NewViewProofComb.normalise_of_le (by decide)] at h
    exact decodes h
  · exact Checked.react_eq_none rfl (show ¬ 401 ≤ maxNumTransactions by decide)
  · exact decodes (MsgVoteComb.undoes hs (newview_fits (by decide) (by decide)))
  · refine Option.not_isSome_iff_eq_none.mp fun h => ?_
    have hmsg := HotStuff.inputInRange_of_react 1 h rfl _ rfl (by decide) (by decide)
    exact absurd hmsg (show ¬ 18 ≤ maxNumSignatures by decide)

/-- A proposal of one transaction, and after the start a new-view of view 1 with 17 signatures. -/
theorem readsInRange_small :
    ([(1, Input.peer (.ldrprepare (proposal 1)))].foldlM (Checked.step cfg oracle) .init).isSome ∧
    ([(1, HotStuff.Input.start 0), (1, .peer (.newview (newview 1 17)))].foldlM
      (HotStuff.step cfg (oracle.crypto [])) .init).isSome := by
  have h := readsInRange cfg (by decide) oracle (oracle.crypto [])
  refine ⟨(h.1 _).mpr ?_, (h.2 _).1 ?_⟩
  · exact ⟨fun _ => show 1 ≤ maxNumTransactions by decide, fun _ _ => trivial⟩
  · refine ⟨⟨?_, ?_⟩, fun _ _ => ⟨⟨?_, ?_⟩, fun _ _ => trivial⟩⟩
    · rintro - msg ⟨⟩
    · rintro - msg ⟨⟩
    · rintro - msg ⟨⟩ - -
      exact show 17 ≤ maxNumSignatures by decide
    · rintro - msg ⟨⟩

end Oversized

end Raftel
