import Raftel.PeerNet

/-!
# Every message is read back

`Kinds.Reads` says of the messages of a build that the handler registered for a message reads it back from
its payload.  It holds of the messages of all builds (`Build.reads`) and of those of the clients
(`clientKinds_reads`).
-/

namespace Raftel

open Lib Salticidae

/-! ### Values of the source -/

structure Cert.Fits (c : Cert) : Prop where
  view : c.view < 2 ^ 32
  signs : c.signs.Fits

def CA.Fits : CA → Prop
  | .cert c => c.Fits
  | .accum a => a.Fits

structure CBlock.Fits (b : CBlock) : Prop where
  view : b.view < 2 ^ 32
  cert : b.cert.Fits
  size : b.size < 2 ^ 32
  trans : ∀ t ∈ b.trans, t.Fits

structure Just.Fits (j : Just) : Prop where
  rdata : j.rdata.Fits
  signs : j.signs.Fits

structure HotStuff.Proposal.Fits (p : HotStuff.Proposal) : Prop where
  just : p.just.Fits
  block : p.block.Fits

structure MsgPrepareChComb.Fits (m : MsgPrepareChComb) : Prop where
  data : m.data.Fits
  sign : m.sign.Fits

structure Chained.MsgLdrPrepareChComb.Fits (m : Chained.MsgLdrPrepareChComb) : Prop where
  block : m.block.Fits
  sign : m.sign.Fits

structure HotStuff.MsgLdrPrepare.Fits (m : HotStuff.MsgLdrPrepare) : Prop where
  prop : m.prop.Fits
  signs : m.signs.Fits

structure Damysus.MsgLdrPrepareDamysus.Fits (m : Damysus.MsgLdrPrepareDamysus) : Prop where
  acc : m.acc.Fits
  block : m.block.Fits
  sign : m.sign.Fits

structure MsgTransaction.Fits (m : MsgTransaction) : Prop where
  trans : m.trans.Fits
  sign : m.sign.Fits

structure MsgStart.Fits (m : MsgStart) : Prop where
  cid : m.cid < 2 ^ 32
  sign : m.sign.Fits

section RoundTrip

variable {s : DataStream} (hs : s.Documented)

include hs

/-! ### The classes -/

theorem Cert.undoes {c : Cert} (hc : c.Fits) : Undoes (Cert.unserialize s) (c.serialize s) c := by
  apply (hs.word c.view hc.view).bind
  apply (Hash.undoes hs c.hash).bind
  exact (Signs.undoes hs hc.signs).map _

theorem CA.undoes {ca : CA} (hca : ca.Fits) : Undoes (CA.unserialize s) (ca.serialize s) ca := by
  cases ca with
  | cert c =>
    apply (hs.byte 0x0).bind
    rw [if_pos rfl]
    exact (Cert.undoes hs hca).map _
  | accum a =>
    apply (hs.byte 0x1).bind
    rw [if_neg (by decide)]
    exact (Accum.undoes hs hca).map _

theorem CBlock.undoes {b : CBlock} (hb : b.Fits) : Undoes (CBlock.unserialize s) (b.serialize s) b := by
  apply (hs.bool b.set).bind
  apply (hs.bool b.executed).bind
  apply (hs.word b.view hb.view).bind
  apply (CA.undoes hs hb.cert).bind
  apply (hs.word b.size hb.size).bind
  exact (Undoes.array b.trans fun t ht => Transaction.undoes hs (hb.trans t ht)).map _

theorem Just.undoes {j : Just} (hj : j.Fits) : Undoes (Just.unserialize s) (j.serialize s) j := by
  apply (hs.bool j.set).bind
  apply (RData.undoes hs hj.rdata).bind
  exact (Signs.undoes hs hj.signs).map _

theorem HotStuff.Proposal.undoes {p : HotStuff.Proposal} (hp : p.Fits) :
    Undoes (HotStuff.Proposal.unserialize s) (p.serialize s) p := by
  apply (Just.undoes hs hp.just).bind
  exact (Block.undoes hs hp.block).map _

/-! ### The messages -/

theorem MsgPrepareChComb.undoes {m : MsgPrepareChComb} (hm : m.Fits) :
    Undoes (MsgPrepareChComb.unserialize s) (m.serialize s) m := by
  apply (RData.undoes hs hm.data).bind
  exact (Sign.undoes hs hm.sign).map _

theorem Chained.MsgLdrPrepareChComb.undoes {m : Chained.MsgLdrPrepareChComb} (hm : m.Fits) :
    Undoes (Chained.MsgLdrPrepareChComb.unserialize s) (m.serialize s) m := by
  apply (CBlock.undoes hs hm.block).bind
  exact (Sign.undoes hs hm.sign).map _

theorem HotStuff.MsgLdrPrepare.undoes {m : HotStuff.MsgLdrPrepare} (hm : m.Fits) :
    Undoes (HotStuff.MsgLdrPrepare.unserialize s) (m.serialize s) m := by
  apply (HotStuff.Proposal.undoes hs hm.prop).bind
  exact (Signs.undoes hs hm.signs).map _

theorem Damysus.MsgLdrPrepareDamysus.undoes {m : Damysus.MsgLdrPrepareDamysus} (hm : m.Fits) :
    Undoes (Damysus.MsgLdrPrepareDamysus.unserialize s) (m.serialize s) m := by
  apply (Accum.undoes hs hm.acc).bind
  apply (Block.undoes hs hm.block).bind
  exact (Sign.undoes hs hm.sign).map _

theorem MsgTransaction.undoes {m : MsgTransaction} (hm : m.Fits) :
    Undoes (MsgTransaction.unserialize s) (m.serialize s) m := by
  apply (Transaction.undoes hs hm.trans).bind
  exact (Sign.undoes hs hm.sign).map _

theorem MsgStart.undoes {m : MsgStart} (hm : m.Fits) :
    Undoes (MsgStart.unserialize s) (m.serialize s) m := by
  apply (hs.word m.cid hm.cid).bind
  exact (Sign.undoes hs hm.sign).map _

end RoundTrip

/-! ### The handlers -/

/-- The handler of a message reads it back. -/
def Kinds.Reads {Msg : Type} (k : Kinds Msg) (Fits : Msg → Prop) : Prop :=
  ∀ msg, Fits msg → ∃ read, k.handlerMap.lookup (k.opcode msg) = some read ∧
    Undoes read (k.serialize msg) msg

/-- What was packed is unpacked. -/
theorem Kinds.Reads.unpack {Msg : Type} {k : Kinds Msg} {Fits : Msg → Prop} (h : k.Reads Fits)
    (cfg : Salticidae.Config) {msg : Msg} (hmsg : Fits msg) : k.unpack (k.pack cfg msg) = some msg := by
  obtain ⟨read, hlookup, hread⟩ := h msg hmsg
  have hrun := hread []
  rw [List.append_nil] at hrun
  unfold Kinds.unpack Kinds.pack MsgBase.ofPayload
  rw [hlookup, Option.bind_some, hrun]
  rfl

/-- The builds of the peer-to-peer protocols. -/
inductive Build
  | basicHybridTEE
  | chainedHybridTEE
  | chainedAchilles
  | basicHotstuff
  | basicDamysus
  deriving DecidableEq

namespace Build

def Msg : Build → Type
  | basicHybridTEE => Raftel.Msg
  | chainedHybridTEE => Chained.Msg
  | chainedAchilles => Chained.Msg
  | basicHotstuff => HotStuff.Msg
  | basicDamysus => Damysus.Msg

/-- What `Handler` registers with `pnet`. -/
def kinds : (b : Build) → Kinds b.Msg
  | basicHybridTEE => combKinds
  | chainedHybridTEE => chCombKinds
  | chainedAchilles => achillesChKinds
  | basicHotstuff => hotstuffKinds
  | basicDamysus => damysusKinds

end Build

/-- The numbers of a message are 32-bit, and the proof of a proposal is within its arrays. -/
def Msg.Fits : Msg → Prop
  | .newview m => m.Fits
  | .ldrprepare m => m.Fits ∧ m.proof.size ≤ maxNumSignatures
  | .prepare m => MsgVoteComb.Fits m
  | .precommit m => MsgVoteComb.Fits m
  | .commit m => MsgVoteComb.Fits m

def Chained.Msg.Fits : Chained.Msg → Prop
  | .newview m => MsgNewViewComb.Fits m
  | .ldrprepare m => m.Fits
  | .prepare m => m.Fits

def HotStuff.Msg.Fits : HotStuff.Msg → Prop
  | .newview m => MsgVoteComb.Fits m
  | .ldrprepare m => m.Fits
  | .prepare m => MsgVoteComb.Fits m
  | .precommit m => MsgVoteComb.Fits m
  | .commit m => MsgVoteComb.Fits m

def Damysus.Msg.Fits : Damysus.Msg → Prop
  | .newview m => m.Fits
  | .ldrprepare m => m.Fits
  | .prepare m => MsgVoteComb.Fits m
  | .precommit m => MsgVoteComb.Fits m
  | .commit m => MsgVoteComb.Fits m

def ClientMsg.Fits : ClientMsg → Prop
  | .transaction m => m.Fits
  | .start m => m.Fits

def Build.Fits : (b : Build) → b.Msg → Prop
  | .basicHybridTEE => Msg.Fits
  | .chainedHybridTEE => Chained.Msg.Fits
  | .chainedAchilles => Chained.Msg.Fits
  | .basicHotstuff => HotStuff.Msg.Fits
  | .basicDamysus => Damysus.Msg.Fits

theorem combKinds_reads : combKinds.Reads Msg.Fits := by
  have hs := DataStream.littleEndian_documented
  intro msg hmsg
  cases msg with
  | newview m => exact ⟨_, rfl, (MsgNewViewComb.undoes hs hmsg).map _⟩
  | ldrprepare m =>
    have hread := MsgLdrPrepareComb.undoes hs hmsg.1
    rw [NewViewProofComb.normalise_of_le hmsg.2] at hread
    exact ⟨_, rfl, hread.map _⟩
  | prepare m => exact ⟨_, rfl, (MsgVoteComb.undoes hs hmsg).map _⟩
  | precommit m => exact ⟨_, rfl, (MsgVoteComb.undoes hs hmsg).map _⟩
  | commit m => exact ⟨_, rfl, (MsgVoteComb.undoes hs hmsg).map _⟩

/-- The entry of another opcode is passed over. -/
theorem lookup_regHandler_of_ne {α Msg : Type} {opcode opcode' : UInt8} (h : opcode ≠ opcode') (mk : α → Msg)
    (read : ByteReader α) (entries : List (UInt8 × ByteReader Msg)) :
    (regHandler opcode' mk read :: entries).lookup opcode = entries.lookup opcode := by
  rw [regHandler, List.lookup_cons, beq_false_of_ne h]

theorem lookup_regHandler {α Msg : Type} (opcode : UInt8) (mk : α → Msg) (read : ByteReader α)
    (entries : List (UInt8 × ByteReader Msg)) :
    (regHandler opcode mk read :: entries).lookup opcode = some (regHandler opcode mk read).2 := by
  rw [regHandler, List.lookup_cons_self]

/-- The opcodes have to be different. -/
theorem chKinds_reads {newview ldrprepare prepare : UInt8} (hnp : newview ≠ prepare)
    (hnl : newview ≠ ldrprepare) (hlp : ldrprepare ≠ prepare) :
    (chKinds newview ldrprepare prepare).Reads Chained.Msg.Fits := by
  have hs := DataStream.littleEndian_documented
  intro msg hmsg
  cases msg with
  | newview m => exact ⟨_, lookup_regHandler .., (MsgNewViewComb.undoes hs hmsg).map _⟩
  | ldrprepare m =>
    refine ⟨_, ?_, (Chained.MsgLdrPrepareChComb.undoes hs hmsg).map _⟩
    show List.lookup ldrprepare (regHandler newview _ _ :: regHandler prepare _ _ :: _) = _
    rw [lookup_regHandler_of_ne hnl.symm, lookup_regHandler_of_ne hlp, lookup_regHandler]
    rfl
  | prepare m =>
    refine ⟨_, ?_, (MsgPrepareChComb.undoes hs hmsg).map _⟩
    show List.lookup prepare (regHandler newview _ _ :: _) = _
    rw [lookup_regHandler_of_ne hnp.symm, lookup_regHandler]
    rfl

theorem hotstuffKinds_reads : hotstuffKinds.Reads HotStuff.Msg.Fits := by
  have hs := DataStream.littleEndian_documented
  intro msg hmsg
  cases msg with
  | newview m => exact ⟨_, rfl, (MsgVoteComb.undoes hs hmsg).map _⟩
  | ldrprepare m => exact ⟨_, rfl, (HotStuff.MsgLdrPrepare.undoes hs hmsg).map _⟩
  | prepare m => exact ⟨_, rfl, (MsgVoteComb.undoes hs hmsg).map _⟩
  | precommit m => exact ⟨_, rfl, (MsgVoteComb.undoes hs hmsg).map _⟩
  | commit m => exact ⟨_, rfl, (MsgVoteComb.undoes hs hmsg).map _⟩

theorem damysusKinds_reads : damysusKinds.Reads Damysus.Msg.Fits := by
  have hs := DataStream.littleEndian_documented
  intro msg hmsg
  cases msg with
  | newview m => exact ⟨_, rfl, (MsgNewViewComb.undoes hs hmsg).map _⟩
  | ldrprepare m => exact ⟨_, rfl, (Damysus.MsgLdrPrepareDamysus.undoes hs hmsg).map _⟩
  | prepare m => exact ⟨_, rfl, (MsgVoteComb.undoes hs hmsg).map _⟩
  | precommit m => exact ⟨_, rfl, (MsgVoteComb.undoes hs hmsg).map _⟩
  | commit m => exact ⟨_, rfl, (MsgVoteComb.undoes hs hmsg).map _⟩

theorem clientKinds_reads : clientKinds.Reads ClientMsg.Fits := by
  have hs := DataStream.littleEndian_documented
  intro msg hmsg
  cases msg with
  | transaction m => exact ⟨_, rfl, (MsgTransaction.undoes hs hmsg).map _⟩
  | start m => exact ⟨_, rfl, (MsgStart.undoes hs hmsg).map _⟩

theorem Build.reads (b : Build) : b.kinds.Reads b.Fits := by
  cases b with
  | basicHybridTEE => exact combKinds_reads
  | chainedHybridTEE => exact chKinds_reads (by decide) (by decide) (by decide)
  | chainedAchilles => exact chKinds_reads (by decide) (by decide) (by decide)
  | basicHotstuff => exact hotstuffKinds_reads
  | basicDamysus => exact damysusKinds_reads

end Raftel
