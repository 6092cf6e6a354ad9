import Raftel.Safety.ChainedMarks

/-!
# The chain of the executed blocks

`tryExecuteChComb` goes down by the views of the certificates.  The comparison of the hash in a certificate
with that of the block which is stored under its view is turned off; the source asks to turn it on again for
safety.

* `followsChain_of_onChain` : the executed blocks are a chain as long as each walk comes down by the hashes too,
  and to no block that was executed before the last one
* `not_followsChain_wrong_certificate` : a certificate for another hash
-/

namespace Raftel.Chained

open Lib

variable {Key : Type}

section Def

variable (sha : Text → Digest)

/-- `operator==` for the hash in the certificate of the child and the hash of the block. -/
def SameHash (child b : CBlock) : Prop := (ca2hash child.cert).hash = (b.hash sha).hash

/-- The certificate of the child names the block, by its view and its hash. -/
def Names (child b : CBlock) : Prop := ca2view child.cert = b.view ∧ SameHash sha child b

def IsGenesis (b : CBlock) : Prop := b.view = 0 ∧ (b.hash sha).hash = (genBlock.hash sha).hash

/-- The executed blocks, in the order of their execution, are a chain on the genesis block, and each is the
one that the certificate of its child names. -/
structure FollowsChain (executed : List Execution) : Prop where
  genesis : ∀ b ∈ (executed.map Execution.block).head?, IsGenesis sha b
  parent : (executed.map Execution.block).IsChain fun b b' => Names sha b' b
  child : ∀ e ∈ executed, Names sha e.child e.block

/-- The same block, but for its mark. -/
def SameBlock (b b' : CBlock) : Prop := b.view = b'.view ∧ (b.hash sha).hash = (b'.hash sha).hash

/-- The blocks on the way down have the hashes that the certificates say, and the way does not end at a block that
was executed before the last one; if it ends at none, nothing has been executed and it comes to the genesis
block. -/
structure Walk.Joins (w : Walk) (path : List CBlock) (last : Option CBlock) : Prop where
  hashes : (w.block0 :: (path ++ last.toList)).IsChain (SameHash sha)
  genesis : last = none → w.executed = [] ∧
    ∀ b ∈ path.getLast?, (b.hash sha).hash = (genBlock.hash sha).hash
  latest : ∀ b ∈ last, ∀ e ∈ w.executed, SameBlock sha b e.block →
    ∃ e' ∈ w.executed.getLast?, SameBlock sha b e'.block

/-- A walk that has something to execute joins the executed blocks. -/
def Walk.OnChain (w : Walk) : Prop :=
  ∀ path last, BlockDescent w.cblocks (ca2view w.block0.cert) path last → path ≠ [] → w.Joins sha path last

/-- The mark at which a walk with something to execute stops is true: that block has been executed. -/
def Walk.StopsTrue (w : Walk) : Prop :=
  ∀ path last, BlockDescent w.cblocks (ca2view w.block0.cert) path last → path ≠ [] →
    ∀ b ∈ last, ∃ e ∈ w.executed, SameBlock sha b e.block

end Def

variable {sha : Text → Digest}

instance (child b : CBlock) : Decidable (SameHash sha child b) := inferInstanceAs (Decidable (_ = _))

instance (b b' : CBlock) : Decidable (SameBlock sha b b') := inferInstanceAs (Decidable (_ ∧ _))

instance (w : Walk) (path : List CBlock) (last : Option CBlock) : Decidable (w.Joins sha path last) :=
  decidable_of_iff ((w.block0 :: (path ++ last.toList)).IsChain (SameHash sha) ∧
    (last.isNone → w.executed.length = 0 ∧
      ∀ b ∈ path.getLast?, (b.hash sha).hash = (genBlock.hash sha).hash) ∧
    ∀ b ∈ last, ∀ e ∈ w.executed, SameBlock sha b e.block →
      ∃ e' ∈ w.executed.getLast?, SameBlock sha b e'.block)
    (by simp only [Option.isNone_iff_eq_none, List.length_eq_zero_iff]; exact
      ⟨fun h => ⟨h.1, h.2.1, h.2.2⟩, fun h => ⟨h.1, h.2, h.3⟩⟩)

/-! ### One walk -/

/-- The certificates on the way down name the blocks. -/
theorem isChain_names {cblocks : StdMap View CBlock} (hkeyed : Keyed cblocks) {block0 : CBlock}
    {path : List CBlock} {last : Option CBlock} (h : BlockDescent cblocks (ca2view block0.cert) path last)
    (hhashes : (block0 :: (path ++ last.toList)).IsChain (SameHash sha)) :
    (block0 :: (path ++ last.toList)).IsChain (Names sha) := by
  have hviews : (block0 :: (path ++ last.toList)).IsChain
      fun child b => cblocks.lookup (ca2view child.cert) = some b := Descent.isChain h
  rw [List.isChain_iff_forall_rel_of_append_cons_cons] at hviews hhashes ⊢
  intro child b above below hsplit
  exact ⟨(hkeyed _ _ (hviews hsplit)).symm, hhashes hsplit⟩

theorem executions_child {block0 : CBlock} {path : List CBlock}
    (h : (block0 :: path).IsChain (Names sha)) :
    ∀ e ∈ executions block0 path, Names sha e.child e.block := by
  induction path generalizing block0 with
  | nil => exact fun e he => absurd he List.not_mem_nil
  | cons b path ih =>
    obtain ⟨hb, hpath⟩ := List.isChain_cons_cons.mp h
    intro e he
    rcases List.mem_append.mp he with he | he
    · exact ih hpath e he
    · rw [List.mem_singleton] at he
      exact he ▸ hb

/-- A block that the replica has marked itself has been executed. -/
theorem Walk.stopsTrue_of_markedHere {w : Walk} (h : MarkedHere w.cblocks w.executed) : w.StopsTrue sha := by
  intro path last hdescent _ b hb
  obtain ⟨v, hv, hmark⟩ := hdescent.stored_last hb
  obtain ⟨e, he, rfl⟩ := h v b hv hmark
  exact ⟨e, he, rfl, rfl⟩

/-- The block at which the walk stops is the one executed last. -/
theorem Walk.Joins.stops {w : Walk} {path : List CBlock} {last : Option CBlock} (h : w.Joins sha path last)
    (hmarks : w.StopsTrue sha) (hdescent : BlockDescent w.cblocks (ca2view w.block0.cert) path last)
    (hpath : path ≠ []) {b : CBlock} (hb : b ∈ last) : ∃ e ∈ w.executed.getLast?, SameBlock sha b e.block := by
  obtain ⟨e, he, hsame⟩ := hmarks path last hdescent hpath b hb
  exact h.latest b hb e he hsame

/-- **A walk that joins the executed blocks lengthens their chain.** -/
theorem FollowsChain.walk {w : Walk} (hw : FollowsChain sha w.executed) (hkeyed : Keyed w.cblocks)
    {path : List CBlock} {last : Option CBlock} (hmarks : w.StopsTrue sha)
    (hdescent : BlockDescent w.cblocks (ca2view w.block0.cert) path last) (h : w.Joins sha path last)
    (hpath : path ≠ []) : FollowsChain sha (w.executed ++ executions w.block0 path) := by
  have hnames : (w.block0 :: (path ++ last.toList)).IsChain (Names sha) :=
    isChain_names hkeyed hdescent h.hashes
  have hchain : (w.block0 :: path).IsChain (Names sha) := by
    rw [← List.cons_append] at hnames
    exact (List.isChain_append.mp hnames).1
  have hblocks : (w.executed ++ executions w.block0 path).map Execution.block =
      w.executed.map Execution.block ++ path.reverse := by
    rw [List.map_append, map_block_executions]
  refine ⟨?_, ?_, ?_⟩
  · rw [hblocks]
    intro b hb
    cases hexecuted : w.executed with
    | nil =>
      -- nothing has been executed: the walk has come to the root
      rw [hexecuted, List.map_nil, List.nil_append, List.head?_reverse] at hb
      have hlast : last = none := by
        cases hl : last with
        | none => rfl
        | some c =>
          obtain ⟨e, he, -⟩ := h.stops hmarks hdescent hpath hl
          rw [hexecuted] at he
          cases he
      subst hlast
      exact ⟨hkeyed _ _ (hdescent.find_root hb), (h.genesis rfl).2 b hb⟩
    | cons e es =>
      refine hw.genesis b ?_
      rw [hexecuted] at hb ⊢
      exact hb
  · rw [hblocks, List.isChain_append]
    refine ⟨hw.parent, ?_, ?_⟩
    · rw [List.isChain_reverse]
      exact (List.isChain_cons.mp hchain).2
    · intro b hb b' hb'
      rw [List.getLast?_map] at hb
      obtain ⟨e, he, rfl⟩ := Option.mem_map.mp hb
      rw [List.head?_reverse] at hb'
      cases hl : last with
      | none =>
        rw [(h.genesis hl).1] at he
        cases he
      | some c =>
        -- the lowest block of the walk names the one at which it stops
        obtain ⟨e', he', hview, hhash⟩ := h.stops hmarks hdescent hpath hl
        cases Option.mem_unique he he'
        rw [hl, Option.toList_some, ← List.cons_append, List.isChain_append] at hnames
        have hc : Names sha b' c := by
          refine hnames.2.2 b' ?_ c rfl
          cases path with
          | nil => exact absurd rfl hpath
          | cons d path => exact hb'
        exact ⟨hc.1.trans hview, hc.2.trans hhash⟩
  · intro e he
    rcases List.mem_append.mp he with he | he
    · exact hw.child e he
    · exact executions_child hchain e he

/-- A descent that has been computed is the only one. -/
theorem Walk.onChain_of_descend {w : Walk} {fuel : ℕ}
    (h : (descend w.cblocks.lookup (fun b => ca2view b.cert) (fun b => b.executed = true) 0 fuel
      (ca2view w.block0.cert)).any (fun d => w.Joins sha d.1 d.2) = true) : w.OnChain sha := by
  intro path last hdescent _
  obtain ⟨⟨path', last'⟩, hd, hjoins⟩ := (Option.any_eq_true _ _).mp h
  obtain ⟨rfl, rfl⟩ := hdescent.unique (.of_descend hd)
  exact of_decide_eq_true hjoins

/-! ### Runs -/

variable {cfg : HandlerConfig Key} {cr : Crypto Key} {received : Msg → Prop} {s s' : State}

/-- A step keeps the chain, if its walk is on it. -/
theorem Step.followsChain (h : Step cfg cr received s s') (hkeyed : Keyed s.cblocks)
    (hwalks : ∀ w ∈ s'.walks, w.OnChain sha ∧ w.StopsTrue sha) (hs : FollowsChain sha s.executed) :
    FollowsChain sha s'.executed := by
  cases h with
  | quiet h => exact h.executed ▸ hs
  | newview h => exact hs
  | prepare h => exact hs
  | proposal h => exact hs
  | store => exact hs
  | @walk fuel block0 toExec h =>
    rw [State.walked_executed]
    rw [State.walked_walks] at hwalks
    obtain ⟨honchain, hmarks⟩ := hwalks ⟨block0, s.cblocks, s.executed⟩
      (List.mem_append_right _ List.mem_cons_self)
    rcases blocksToExec_spec h with rfl | ⟨path, last, hdescent, rfl⟩
    · rw [List.append_nil]
      exact hs
    · rw [List.append_nil]
      by_cases hpath : path = []
      · rw [hpath, executions, List.append_nil]
        exact hs
      · exact FollowsChain.walk (w := ⟨block0, s.cblocks, s.executed⟩) hs hkeyed hmarks hdescent
          (honchain path last hdescent hpath) hpath
  | begin => exact hs

theorem Step.walks_prefix (h : Step cfg cr received s s') : s.walks <+: s'.walks := by
  cases h with
  | quiet h => exact h.walks ▸ List.prefix_rfl
  | newview h => exact List.prefix_rfl
  | prepare h => exact List.prefix_rfl
  | proposal h => exact List.prefix_rfl
  | store => exact List.prefix_rfl
  | walk h => exact (State.walked_walks _ _ _).symm ▸ List.prefix_append _ _
  | begin => exact List.prefix_rfl

/-- **Execution follows the certified chain as long as the walks do.**  For every run with any messages: the
executed blocks are a chain on the genesis block, if each walk with something to execute comes down by the hashes,
and to no block that was executed before the last one, and if the marks at which the walks stop are true, as they
are when no block is stored with its mark set. -/
theorem followsChain_of_onChain (cfg : HandlerConfig Key) (cr : Crypto Key) (inputs : List (ℕ × Input))
    (h : ∀ w ∈ (run cfg cr inputs).walks, w.OnChain cr.sha256)
    (hmarks : Unmarked (run cfg cr inputs).stores ∨ ∀ w ∈ (run cfg cr inputs).walks, w.StopsTrue cr.sha256) :
    FollowsChain cr.sha256 (run cfg cr inputs).executed := by
  have htrue : ∀ w ∈ (run cfg cr inputs).walks, w.StopsTrue cr.sha256 := by
    rcases hmarks with hstores | htrue
    · exact fun w hw => w.stopsTrue_of_markedHere ((run_marksLocal cfg cr inputs hstores).walked w hw)
    · exact htrue
  have hinv : Keyed (run cfg cr inputs).cblocks ∧
      ((∀ w ∈ (run cfg cr inputs).walks, w.OnChain cr.sha256 ∧ w.StopsTrue cr.sha256) →
        FollowsChain cr.sha256 (run cfg cr inputs).executed) := by
    refine run_invariant (I := fun s => Keyed s.cblocks ∧
      ((∀ w ∈ s.walks, w.OnChain cr.sha256 ∧ w.StopsTrue cr.sha256) → FollowsChain cr.sha256 s.executed))
      ⟨run_keyed cfg cr [], fun _ => ?_⟩ ?_
    · exact ⟨fun b hb => absurd hb (Option.not_mem_none b), List.isChain_nil,
        fun e he => absurd he List.not_mem_nil⟩
    · rintro s s' hstep ⟨hkeyed, hs⟩
      refine ⟨hstep.keyed hkeyed, fun hwalks => hstep.followsChain hkeyed hwalks (hs fun w hw => ?_)⟩
      exact hwalks w (hstep.walks_prefix.subset hw)
  exact hinv.2 fun w hw => ⟨h w hw, htrue w hw⟩

/-! ### A certificate for another hash -/

section WrongCertificate

/-- The block of view 3, on the second one. -/
def thirdBlock : CBlock := emptyCBlock 3 (certBy1 2 (secondBlock.hash sumSha))

/-- Replica 0 gets the blocks of the first three views from their leaders. -/
def threeProposals : List (ℕ × Input) := twoProposals ++ [(4, proposalBy 3 thirdBlock)]

/-- What the leaders have signed for the three blocks. -/
def threeSigned : Crypto Unit := cryptoBy [1, 2, 3] [firstBlock, secondBlock, thirdBlock]

/-- Replica 0 executes the genesis block, then the first one. -/
theorem followsChain_three_proposals :
    (run (noTEESystem.config 0) threeSigned threeProposals).executed.map (fun e => e.block.view) = [0, 1] ∧
      FollowsChain sumSha (run (noTEESystem.config 0) threeSigned threeProposals).executed := by
  refine ⟨by decide +kernel, followsChain_of_onChain _ threeSigned _ (fun w hw => ?_)
    (Or.inl (by unfold Unmarked; decide +kernel))⟩
  have hjoins : ∀ w ∈ (run (noTEESystem.config 0) threeSigned threeProposals).walks,
      (descend w.cblocks.lookup (fun b => ca2view b.cert) (fun b => b.executed = true) 0 4
        (ca2view w.block0.cert)).any (fun d => w.Joins sumSha d.1 d.2) = true := by decide +kernel
  exact Walk.onChain_of_descend (hjoins w hw)

/-- A block of view 1 with a certificate for another block than the genesis block. -/
def wrongBlock : CBlock := emptyCBlock 1 (certBy1 0 (firstBlock.hash sumSha))

/-- A block of view 2 on that one. -/
def onWrongBlock : CBlock := emptyCBlock 2 (certBy1 1 (wrongBlock.hash sumSha))

/-- Replica 0 gets these blocks from their leaders. -/
def wrongProposals : List (ℕ × Input) :=
  [(4, .start 0), (4, proposalBy 1 wrongBlock), (4, proposalBy 2 onWrongBlock)]

/-- **The genesis block is executed below a certificate that does not name it.** -/
theorem not_followsChain_wrong_certificate :
    ¬ FollowsChain sumSha
      (run (noTEESystem.config 0) (cryptoBy [1, 2] [wrongBlock, onWrongBlock]) wrongProposals).executed := by
  intro h
  have hwrong : ¬ ∀ e ∈ (run (noTEESystem.config 0) (cryptoBy [1, 2] [wrongBlock, onWrongBlock])
      wrongProposals).executed, SameHash sumSha e.child e.block := by decide +kernel
  exact hwrong fun e he => (h.child e he).2

end WrongCertificate

end Raftel.Chained
