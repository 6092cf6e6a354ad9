import Raftel.Wire

/-!
# The decoders undo the encoders

The round trip of each class, from its fields outwards; `wire_roundTrip` is the one of the five messages
of the hybrid protocol.  The numbers of the source are 32-bit, those of the model are not: `Fits` says of
a value that its numbers are in range.
-/

namespace Raftel

/-! ### Values of the source -/

structure RData.Fits (d : RData) : Prop where
  propv : d.propv < 2 ^ 32
  justv : d.justv < 2 ^ 32

def Sign.Fits (t : Sign) : Prop := t.signer < 2 ^ 32

structure Signs.Fits (ss : Signs) : Prop where
  size : ss.size < 2 ^ 32
  signs : ∀ t ∈ ss.signs, t.Fits

structure Accum.Fits (a : Accum) : Prop where
  view : a.view < 2 ^ 32
  prepv : a.prepv < 2 ^ 32
  size : a.size < 2 ^ 32
  sign : a.sign.Fits

structure Transaction.Fits (t : Transaction) : Prop where
  clientid : t.clientid < 2 ^ 32
  transid : t.transid < 2 ^ 32

structure Block.Fits (b : Block) : Prop where
  id : b.id < 2 ^ 32
  size : b.size < 2 ^ 32
  transactions : ∀ t ∈ b.transactions, t.Fits

structure NewViewProofComb.Fits (p : NewViewProofComb) : Prop where
  size : p.size < 2 ^ 32
  data : ∀ d ∈ p.data, d.Fits
  signs : ∀ t ∈ p.signs, t.Fits

structure MsgNewViewComb.Fits (m : MsgNewViewComb) : Prop where
  data : m.data.Fits
  sign : m.sign.Fits

structure MsgLdrPrepareComb.Fits (m : MsgLdrPrepareComb) : Prop where
  acc : m.acc.Fits
  block : m.block.Fits
  proof : m.proof.Fits
  sign : m.sign.Fits

structure MsgVoteComb.Fits (m : MsgVoteComb) : Prop where
  data : m.data.Fits
  signs : m.signs.Fits

section RoundTrip

variable {s : DataStream} (hs : s.Documented)

include hs

/-! ### The classes -/

theorem Hash.undoes (h : Hash) : Lib.Undoes (Hash.unserialize s) (h.serialize s) h := by
  apply (hs.data h.hash).bind
  exact (hs.bool h.set).map _

theorem RData.undoes {d : RData} (hd : d.Fits) :
    Lib.Undoes (RData.unserialize s) (d.serialize s) d := by
  apply (Hash.undoes hs d.proph).bind
  apply (hs.word d.propv hd.propv).bind
  apply (Hash.undoes hs d.justh).bind
  apply (hs.word d.justv hd.justv).bind
  exact (hs.byte d.phase).map _

theorem Sign.undoes {t : Sign} (ht : t.Fits) :
    Lib.Undoes (Sign.unserialize s) (t.serialize s) t := by
  apply (hs.bool t.set).bind
  apply (hs.word t.signer ht).bind
  exact (Lib.Undoes.array t.sign fun b _ => hs.byte b).map _

theorem Signs.undoes {ss : Signs} (hss : ss.Fits) :
    Lib.Undoes (Signs.unserialize s) (ss.serialize s) ss := by
  apply (hs.word ss.size hss.size).bind
  exact (Lib.Undoes.array ss.signs fun t ht => Sign.undoes hs (hss.signs t ht)).map _

theorem Accum.undoes {a : Accum} (ha : a.Fits) :
    Lib.Undoes (Accum.unserialize s) (a.serialize s) a := by
  apply (hs.bool a.set).bind
  apply (hs.word a.view ha.view).bind
  apply (hs.word a.prepv ha.prepv).bind
  apply (Hash.undoes hs a.hash).bind
  apply (hs.word a.size ha.size).bind
  exact (Sign.undoes hs ha.sign).map _

theorem Transaction.undoes {t : Transaction} (ht : t.Fits) :
    Lib.Undoes (Transaction.unserialize s) (t.serialize s) t := by
  apply (hs.word t.clientid ht.clientid).bind
  apply (hs.word t.transid ht.transid).bind
  exact (hs.data t.data).map _

theorem Block.undoes {b : Block} (hb : b.Fits) :
    Lib.Undoes (Block.unserialize s) (b.serialize s) b := by
  apply (hs.word b.id hb.id).bind
  apply (hs.bool b.set).bind
  apply (Hash.undoes hs b.prevHash).bind
  apply (hs.word b.size hb.size).bind
  exact (Lib.Undoes.array b.transactions fun t ht =>
    Transaction.undoes hs (hb.transactions t ht)).map _

/-! ### The new-view proof -/

omit hs in
theorem NewViewProofComb.mk_slots (p : NewViewProofComb) :
    (⟨p.size, p.slots.map Prod.fst, p.slots.map Prod.snd⟩ : NewViewProofComb) = p := by
  unfold NewViewProofComb.slots
  rw [Vector.map_fst_zip, Vector.map_snd_zip]

omit hs in
theorem NewViewProofComb.Fits.of_mem_slots {p : NewViewProofComb} (hp : p.Fits) {slot : RData × Sign}
    (h : slot ∈ p.slots) : slot.1.Fits ∧ slot.2.Fits := by
  obtain ⟨d, t⟩ := slot
  have hmem := Vector.of_mem_zip h
  exact ⟨hp.data d hmem.1, hp.signs t hmem.2⟩

/-- Whatever its size, a proof is read back with the size normalised. -/
theorem NewViewProofComb.undoes {p : NewViewProofComb} (hp : p.Fits) :
    Lib.Undoes (NewViewProofComb.unserialize s) (p.serialize s) p.normalise := by
  have hslot : ∀ slot ∈ p.slots, Lib.Undoes (NewViewProofComb.unserializeSlot s)
      (NewViewProofComb.serializeSlot s slot) slot := by
    intro slot hslot
    have hfits := hp.of_mem_slots hslot
    apply (RData.undoes hs hfits.1).bind
    exact (Sign.undoes hs hfits.2).map fun sign => (slot.1, sign)
  apply (hs.word p.size hp.size).bind
  have hread := (Lib.Undoes.array p.slots hslot).map fun slots =>
    NewViewProofComb.normalise ⟨p.size, slots.map Prod.fst, slots.map Prod.snd⟩
  rwa [p.mk_slots] at hread

omit hs in
theorem NewViewProofComb.normalise_of_le {p : NewViewProofComb} (h : p.size ≤ maxNumSignatures) :
    p.normalise = p :=
  if_neg (Nat.not_lt.mpr h)

/-! ### The messages -/

theorem MsgNewViewComb.undoes {m : MsgNewViewComb} (hm : m.Fits) :
    Lib.Undoes (MsgNewViewComb.unserialize s) (m.serialize s) m := by
  apply (RData.undoes hs hm.data).bind
  exact (Sign.undoes hs hm.sign).map _

theorem MsgLdrPrepareComb.undoes {m : MsgLdrPrepareComb} (hm : m.Fits) :
    Lib.Undoes (MsgLdrPrepareComb.unserialize s) (m.serialize s)
      { m with proof := m.proof.normalise } := by
  apply (Accum.undoes hs hm.acc).bind
  apply (Block.undoes hs hm.block).bind
  apply (NewViewProofComb.undoes hs hm.proof).bind
  exact (Sign.undoes hs hm.sign).map _

theorem MsgVoteComb.undoes {m : MsgVoteComb} (hm : m.Fits) :
    Lib.Undoes (MsgVoteComb.unserialize s) (m.serialize s) m := by
  apply (RData.undoes hs hm.data).bind
  exact (Signs.undoes hs hm.signs).map _

end RoundTrip

/-- **The wire format.**  Decoding the bytes of a message yields the message, all slots included, and
leaves exactly what follows it in the stream; a proposal with a proof within its arrays. -/
theorem wire_roundTrip (s : DataStream) (hs : s.Documented) :
    (∀ m : MsgNewViewComb, m.Fits → Lib.Undoes (MsgNewViewComb.unserialize s) (m.serialize s) m) ∧
    (∀ m : MsgLdrPrepareComb, m.Fits → m.proof.size ≤ maxNumSignatures →
      Lib.Undoes (MsgLdrPrepareComb.unserialize s) (m.serialize s) m) ∧
    (∀ m : MsgPrepareComb, m.Fits →
      Lib.Undoes (MsgPrepareComb.unserialize s) (MsgPrepareComb.serialize s m) m) ∧
    (∀ m : MsgPreCommitComb, m.Fits →
      Lib.Undoes (MsgPreCommitComb.unserialize s) (MsgPreCommitComb.serialize s m) m) ∧
    (∀ m : MsgCommitComb, m.Fits →
      Lib.Undoes (MsgCommitComb.unserialize s) (MsgCommitComb.serialize s m) m) := by
  refine ⟨fun m hm => MsgNewViewComb.undoes hs hm, ?_, fun m hm => MsgVoteComb.undoes hs hm,
    fun m hm => MsgVoteComb.undoes hs hm, fun m hm => MsgVoteComb.undoes hs hm⟩
  intro m hm hsize
  have h := MsgLdrPrepareComb.undoes hs hm
  rwa [NewViewProofComb.normalise_of_le hsize] at h

/-! ### The stream of the library -/

/-- `DataStream` of `stream.h`: `<<` and `>>` copy the bytes of a number as they lie in memory, the lowest
first, and `put_data` and `get_data_inplace` raw bytes; they throw when the buffer is too short. -/
def DataStream.littleEndian : DataStream where
  putWord n := [UInt8.ofNat n, UInt8.ofNat (n / 2 ^ 8), UInt8.ofNat (n / 2 ^ 16), UInt8.ofNat (n / 2 ^ 24)]
  getWord
    | b₀ :: b₁ :: b₂ :: b₃ :: rest =>
      some (b₀.toNat + b₁.toNat * 2 ^ 8 + b₂.toNat * 2 ^ 16 + b₃.toNat * 2 ^ 24, rest)
    | _ => none
  putBool b := [b.toUInt8]
  getBool
    | b :: rest => some (b != 0, rest)
    | [] => none
  putByte b := [b]
  getByte
    | b :: rest => some (b, rest)
    | [] => none
  putData bytes := bytes.toList
  getDataInplace := Lib.readArray fun
    | b :: rest => some (b, rest)
    | [] => none

theorem DataStream.littleEndian_documented : DataStream.littleEndian.Documented where
  word n hn rest := by
    show some (_, rest) = some (n, rest)
    simp only [UInt8.toNat_ofNat']
    congr 2
    omega
  bool b rest := by
    cases b
    · rfl
    · rfl
  byte b rest := rfl
  data bytes := by
    have h := Lib.Undoes.array (r := DataStream.littleEndian.getByte)
      (w := DataStream.littleEndian.putByte) bytes fun b _ rest => rfl
    have hwrite : Lib.writeArray DataStream.littleEndian.putByte bytes = bytes.toList :=
      List.flatMap_singleton' bytes.toList
    rwa [hwrite] at h

/-- Bytes that differ from one another. -/
def countFrom (first n : ℕ) : Vector UInt8 n := Vector.ofFn fun i => UInt8.ofNat (first + i)

def sampleSign (signer : PID) : Sign := ⟨true, signer, countFrom signer _⟩

def sampleRData : RData := ⟨⟨countFrom 10 _, true⟩, 300, ⟨countFrom 20 _, false⟩, 200, 1⟩

/-- An array of which two slots are in use. -/
def inFirstTwo {α : Type} {n : ℕ} (x y filler : α) : Vector α n :=
  Vector.ofFn fun i => if i.val = 0 then x else if i.val = 1 then y else filler

theorem forall_mem_inFirstTwo {α : Type} {P : α → Prop} {n : ℕ} {x y filler : α} (hx : P x) (hy : P y)
    (hfiller : P filler) : ∀ t ∈ (inFirstTwo x y filler : Vector α n), P t := by
  refine Vector.forall_mem_iff_forall_getElem.mpr ?_
  intro i hi
  rw [inFirstTwo, Vector.getElem_ofFn]
  split
  · exact hx
  · split
    · exact hy
    · exact hfiller

/-- A vote of two signatures. -/
def sampleVote : MsgVoteComb := ⟨sampleRData, ⟨2, inFirstTwo (sampleSign 3) (sampleSign 4) .none⟩⟩

/-- A proposal of a block of two transactions, with a proof of two new-views. -/
def sampleProposal : MsgLdrPrepareComb where
  acc := ⟨⟨true, 300, 200, ⟨countFrom 20 _, true⟩, 2⟩, sampleSign 1⟩
  block := ⟨42, true, ⟨countFrom 20 _, true⟩, 2,
    inFirstTwo ⟨7, 70, countFrom 30 _⟩ ⟨8, 80, countFrom 40 _⟩ .dummy⟩
  proof := ⟨2, inFirstTwo sampleRData { sampleRData with justv := 199 } .none,
    inFirstTwo (sampleSign 3) (sampleSign 4) .none⟩
  sign := sampleSign 5

theorem sampleVote_fits : sampleVote.Fits := by
  have hsign : ∀ t ∈ sampleVote.signs.signs, t.Fits :=
    forall_mem_inFirstTwo (show 3 < 2 ^ 32 by decide) (show 4 < 2 ^ 32 by decide) (show 0 < 2 ^ 32 by decide)
  exact ⟨⟨by decide, by decide⟩, ⟨by decide, hsign⟩⟩

theorem sampleProposal_fits : sampleProposal.Fits := by
  have hblock : ∀ t ∈ sampleProposal.block.transactions, t.Fits :=
    forall_mem_inFirstTwo ⟨by decide, by decide⟩ ⟨by decide, by decide⟩ ⟨by decide, by decide⟩
  have hdata : ∀ d ∈ sampleProposal.proof.data, d.Fits :=
    forall_mem_inFirstTwo ⟨by decide, by decide⟩ ⟨by decide, by decide⟩ ⟨by decide, by decide⟩
  exact ⟨⟨by decide, by decide, by decide, show 1 < 2 ^ 32 by decide⟩, ⟨by decide, by decide, hblock⟩,
    ⟨by decide, hdata, sampleVote_fits.signs.signs⟩, show 5 < 2 ^ 32 by decide⟩

theorem wire_roundTrip_littleEndian :
    Lib.Undoes (MsgLdrPrepareComb.unserialize .littleEndian)
      (MsgLdrPrepareComb.serialize .littleEndian sampleProposal) sampleProposal ∧
    Lib.Undoes (MsgPreCommitComb.unserialize .littleEndian)
      (MsgPreCommitComb.serialize .littleEndian sampleVote) sampleVote ∧
    Lib.Undoes (MsgNewViewComb.unserialize .littleEndian)
      (MsgNewViewComb.serialize .littleEndian ⟨sampleRData, sampleSign 3⟩) ⟨sampleRData, sampleSign 3⟩ := by
  have htrip := wire_roundTrip .littleEndian DataStream.littleEndian_documented
  refine ⟨htrip.2.1 sampleProposal sampleProposal_fits (by decide), ?_, ?_⟩
  · exact htrip.2.2.2.1 sampleVote sampleVote_fits
  · exact htrip.1 ⟨sampleRData, sampleSign 3⟩ ⟨sampleVote_fits.data, show 3 < 2 ^ 32 by decide⟩

end Raftel
