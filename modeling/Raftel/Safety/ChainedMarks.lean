import Raftel.Equiv.Chained
import Raftel.Safety.OneVote
import Mathlib.Data.UInt

/-!
# The mark of an executed block

The walk of `tryExecuteChComb` stops at a block that is marked as executed.  The mark is set where a block is
executed, but it is a field of the block: it comes with a proposal, and the hash leaves it out.

* `marksLocal_of_unmarked` : as long as the stored blocks come without a mark, it tells what the replica has
  executed itself
* `not_marksLocal_marked_proposal` : a proposal with the mark set
-/

namespace Raftel.Chained

open Lib

variable {Key : Type}

/-! ### Local marks -/

/-- The marked blocks are among the executed ones. -/
def MarkedHere (cblocks : StdMap View CBlock) (executed : List Execution) : Prop :=
  ∀ v b, cblocks.lookup v = some b → b.executed = true → ∃ e ∈ executed, b = e.block.markExecuted

/-- The mark is local truth: the replica has executed every marked block, and it had executed the blocks at
which a walk has stopped before that walk began. -/
structure MarksLocal (s : State) : Prop where
  stored : MarkedHere s.cblocks s.executed
  walked : ∀ w ∈ s.walks, MarkedHere w.cblocks w.executed

/-- The blocks that are stored come without a mark. -/
def Unmarked (stores : List Store) : Prop := ∀ r ∈ stores, r.block.executed = false

theorem Unmarked.of_prefix {stores stores' : List Store} (h : Unmarked stores')
    (hpre : stores <+: stores') : Unmarked stores :=
  fun r hr => h r (hpre.subset hr)

theorem MarkedHere.insert {cblocks : StdMap View CBlock} {executed : List Execution}
    (h : MarkedHere cblocks executed) {v : View} {b : CBlock} (hb : b.executed = false) :
    MarkedHere (cblocks.insert v b) executed := by
  intro w c hc hmark
  by_cases hw : w = v
  · subst hw
    rw [AList.lookup_insert, Option.some.injEq] at hc
    rw [← hc, hb] at hmark
    exact absurd hmark Bool.false_ne_true
  · rw [AList.lookup_insert_ne hw] at hc
    exact h w c hc hmark

/-- An execution marks the block that it records. -/
theorem MarkedHere.execute {s : State} (h : MarkedHere s.cblocks s.executed) (e : Execution) :
    MarkedHere (s.execute e).cblocks (s.execute e).executed := by
  intro v b hb hmark
  by_cases hv : v = e.block.view
  · subst hv
    have hlookup : (s.execute e).cblocks.lookup e.block.view = some e.block.markExecuted :=
      AList.lookup_insert _
    rw [hlookup, Option.some.injEq] at hb
    exact ⟨e, List.mem_append_right _ List.mem_cons_self, hb.symm⟩
  · have hlookup : (s.execute e).cblocks.lookup v = s.cblocks.lookup v := AList.lookup_insert_ne hv
    rw [hlookup] at hb
    obtain ⟨e', he', heq⟩ := h v b hb hmark
    exact ⟨e', List.mem_append_left _ he', heq⟩

theorem MarksLocal.walk {s : State} (h : MarksLocal s) (block0 : CBlock) (toExec : List Execution) :
    MarksLocal (s.walked block0 toExec) := by
  have hfold : ∀ (l : List Execution) (t : State), MarkedHere t.cblocks t.executed →
      MarkedHere (l.foldl State.execute t).cblocks (l.foldl State.execute t).executed := by
    intro l
    induction l with
    | nil => exact fun t ht => ht
    | cons e l ih => exact fun t ht => ih _ (ht.execute e)
  refine ⟨hfold toExec _ h.stored, fun w hw => ?_⟩
  rw [State.walked_walks] at hw
  rcases List.mem_append.mp hw with hw | hw
  · exact h.walked w hw
  · rw [List.mem_singleton] at hw
    rw [hw]
    exact h.stored

/-- A step keeps the marks local, unless it stores a marked block. -/
theorem Step.marksLocal {cfg : HandlerConfig Key} {cr : Crypto Key} {received : Msg → Prop} {s s' : State}
    (h : Step cfg cr received s s') (hs : MarksLocal s) (hstores : Unmarked s'.stores) :
    MarksLocal s' := by
  cases h with
  | quiet h =>
    refine ⟨?_, ?_⟩
    · rw [h.cblocks, h.executed]
      exact hs.stored
    · rw [h.walks]
      exact hs.walked
  | newview h => exact ⟨hs.stored, hs.walked⟩
  | prepare h => exact ⟨hs.stored, hs.walked⟩
  | proposal h => exact ⟨hs.stored, hs.walked⟩
  | store hview hsource _ =>
    exact ⟨hs.stored.insert (hstores _ (List.mem_append_right _ List.mem_cons_self)), hs.walked⟩
  | walk h => exact hs.walk _ _
  | begin =>
    exact ⟨hs.stored.insert (hstores _ (List.mem_append_right _ List.mem_cons_self)), hs.walked⟩

theorem run_marksLocal (cfg : HandlerConfig Key) (cr : Crypto Key) (inputs : List (ℕ × Input)) :
    Unmarked (run cfg cr inputs).stores → MarksLocal (run cfg cr inputs) := by
  refine run_invariant (I := fun s => Unmarked s.stores → MarksLocal s) (fun _ => ?_) ?_
  · exact ⟨fun v b hb => by simp [State.init] at hb, fun w hw => absurd hw List.not_mem_nil⟩
  · exact fun s s' hstep hs hstores =>
      hstep.marksLocal (hs (hstores.of_prefix hstep.stores_prefix)) hstores

/-- **The mark is local truth as long as it does not come from outside.**  For every run with any messages: if
no block is marked when it is stored, then a marked block has been executed by the replica itself, and no
block has been skipped that had not been executed. -/
theorem marksLocal_of_unmarked (cfg : HandlerConfig Key) (cr : Crypto Key)
    (inputs : List (ℕ × Input)) (h : Unmarked (run cfg cr inputs).stores) :
    MarksLocal (run cfg cr inputs) :=
  run_marksLocal cfg cr inputs h

/-! ### A marked proposal -/

section MarkedProposal

/-- A digest that tells texts with different sums apart. -/
def sumSha (t : Text) : Digest := Vector.replicate _ t.sum

/-- A block without transactions. -/
def emptyCBlock (v : View) (cert : CA) : CBlock :=
  ⟨true, false, v, cert, 0, Vector.replicate _ Transaction.dummy⟩

/-- A certificate with the signature of replica 1 only. -/
def certBy1 (v : View) (hash : Hash) : CA := .cert ⟨v, hash, Signs.one (idealSign 1)⟩

def proposalBy (p : PID) (block : CBlock) : Input := .peer (.ldrprepare ⟨block, idealSign p⟩)

/-- What is signed to propose the blocks, and for their certificates. -/
def signedFor (blocks : List CBlock) : List SignedText := blocks.flatMap fun b =>
  [.rdata (ldrPrepareChComb2just sumSha b (idealSign 0)).rdata,
    .rdata ⟨ca2hash b.cert, ca2cview b.cert, noHash, 0, Phase1.prepare.byte⟩]

/-- The signers have signed what the blocks need, the other replicas nothing. -/
def cryptoBy (signers : List PID) (blocks : List CBlock) : Crypto Unit :=
  idealCrypto sumSha fun p => if p ∈ signers then signedFor blocks else []

/-- The block of view 1, on the genesis block. -/
def firstBlock : CBlock := emptyCBlock 1 (certBy1 0 (genBlock.hash sumSha))

/-- The block of view 2, on the first one. -/
def secondBlock : CBlock := emptyCBlock 2 (certBy1 1 (firstBlock.hash sumSha))

/-- Replica 0 gets the blocks from their leaders. -/
def twoProposals : List (ℕ × Input) :=
  [(4, .start 0), (4, proposalBy 1 firstBlock), (4, proposalBy 2 secondBlock)]

/-- Replica 0 executes the genesis block when it votes for the second proposal. -/
theorem marksLocal_two_proposals :
    (run (noTEESystem.config 0) (cryptoBy [1, 2] [firstBlock, secondBlock]) twoProposals).executed.length =
        1 ∧
      MarksLocal (run (noTEESystem.config 0) (cryptoBy [1, 2] [firstBlock, secondBlock]) twoProposals) :=
  ⟨by decide +kernel, marksLocal_of_unmarked _ _ _ (by unfold Unmarked; decide +kernel)⟩

/-- Replica 0 gets the first block with the mark set. -/
def markedProposal : List (ℕ × Input) := [(4, .start 0), (4, proposalBy 1 firstBlock.markExecuted)]

/-- **A mark that comes from outside is stored.**  Leader 1 sets the mark in its proposal; the signature does
not cover it.  Replica 0 stores the block, and it has executed nothing. -/
theorem not_marksLocal_marked_proposal :
    ¬ MarksLocal (run (noTEESystem.config 0) (cryptoBy [1] [firstBlock]) markedProposal) := by
  intro h
  have hstored : ((run (noTEESystem.config 0) (cryptoBy [1] [firstBlock]) markedProposal).cblocks.lookup
      1).any (·.executed) = true := by decide +kernel
  have hnone : (run (noTEESystem.config 0) (cryptoBy [1] [firstBlock]) markedProposal).executed.length =
      0 := by decide +kernel
  cases hb : (run (noTEESystem.config 0) (cryptoBy [1] [firstBlock]) markedProposal).cblocks.lookup 1 with
  | none =>
    rw [hb] at hstored
    exact Bool.false_ne_true hstored
  | some b =>
    rw [hb] at hstored
    obtain ⟨e, he, -⟩ := h.stored 1 b hb hstored
    rw [List.length_eq_zero_iff.mp hnone] at he
    exact List.not_mem_nil he

end MarkedProposal

end Raftel.Chained
