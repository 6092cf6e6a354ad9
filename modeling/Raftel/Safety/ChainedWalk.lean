import Raftel.Safety.ChainedMarks

/-!
# The end of the walk

The walk of `tryExecuteChComb` follows the views that the certificates name.  A certificate should be for an
earlier view than the block, but `voteChComb` stores a proposal before the component has looked at its
certificate, and a block stays in `cblocks` when the component rejects it.

* `walksEnd_of_backward` : as long as every stored block names an earlier view, every walk ends
* `not_walksEnd_own_view` : a block that names its own view
-/

namespace Raftel.Chained

open Lib

variable {Key : Type} {cfg : HandlerConfig Key} {cr : Crypto Key} {received : Msg → Prop}
  {cblocks : StdMap View CBlock}

/-! ### Ends -/

/-- Each stored block, the one of view 0 apart, names an earlier view than its own. -/
def NamesEarlier (cblocks : StdMap View CBlock) : Prop :=
  ∀ v b, cblocks.lookup v = some b → v ≠ 0 → ca2view b.cert < v

/-- Each step of a walk goes to an earlier view, unless the walk stops, and every walk ends. -/
structure WalksEnd (cblocks : StdMap View CBlock) : Prop where
  earlier : NamesEarlier cblocks
  ends : ∀ block0, ∃ fuel, (blocksToExec cblocks fuel block0 []).isSome = true

/-- The blocks name earlier views when they are stored. -/
def Backward (stores : List Store) : Prop := ∀ r ∈ stores, r.view ≠ 0 → ca2view r.block.cert < r.view

/-- **The walk takes at most as many steps as the view is high** from which it starts. -/
theorem NamesEarlier.blocksToExec_isSome (h : NamesEarlier cblocks) {fuel : ℕ} {block0 : CBlock}
    {toExec : List Execution} (hfuel : ca2view block0.cert < fuel) :
    (blocksToExec cblocks fuel block0 toExec).isSome = true := by
  induction fuel generalizing block0 toExec with
  | zero => exact absurd hfuel (Nat.not_lt_zero _)
  | succ fuel ih =>
    unfold blocksToExec
    dsimp only
    cases hfind : cblocks.lookup (ca2view block0.cert) with
    | none => rfl
    | some block2 =>
      dsimp only
      split
      · rfl
      · split
        · rfl
        · next hzero =>
          have hlt : ca2view block2.cert < ca2view block0.cert := h _ _ hfind hzero
          exact ih (lt_of_lt_of_le hlt (Nat.lt_succ_iff.mp hfuel))

theorem NamesEarlier.walksEnd (h : NamesEarlier cblocks) : WalksEnd cblocks :=
  ⟨h, fun block0 => ⟨ca2view block0.cert + 1, h.blocksToExec_isSome (Nat.lt_succ_self _)⟩⟩

/-- **A walk that comes to a block naming its own view goes round in a circle.** -/
theorem blocksToExec_own_view {v : View} {b : CBlock} (hfind : cblocks.lookup v = some b)
    (hown : ca2view b.cert = v) (hzero : v ≠ 0) (hgo : b.executed = false) (fuel : ℕ)
    (toExec : List Execution) : blocksToExec cblocks fuel b toExec = none := by
  induction fuel generalizing toExec with
  | zero => rfl
  | succ fuel ih =>
    unfold blocksToExec
    dsimp only
    rw [hown, hfind]
    dsimp only
    rw [if_neg (by rw [hgo]; decide), if_neg hzero]
    exact ih _

/-! ### Runs -/

theorem Backward.of_prefix {stores stores' : List Store} (h : Backward stores')
    (hpre : stores <+: stores') : Backward stores :=
  fun r hr => h r (hpre.subset hr)

theorem NamesEarlier.insert (h : NamesEarlier cblocks) {v : View} {b : CBlock}
    (hb : v ≠ 0 → ca2view b.cert < v) : NamesEarlier (cblocks.insert v b) := by
  intro w c hc hw
  by_cases hv : w = v
  · subst hv
    rw [AList.lookup_insert, Option.some.injEq] at hc
    rw [← hc]
    exact hb hw
  · rw [AList.lookup_insert_ne hv] at hc
    exact h w c hc hw

/-- An execution leaves the certificates. -/
theorem NamesEarlier.walked {s : State} (h : NamesEarlier s.cblocks) {block0 : CBlock}
    {toExec : List Execution} (hstored : ∀ e ∈ toExec, s.cblocks.lookup e.block.view = some e.block) :
    NamesEarlier (s.walked block0 toExec).cblocks := by
  intro v b hb hv
  rcases walked_lookup s block0 toExec v with ⟨hsame, -⟩ | ⟨e, he, hview, hmarked⟩
  · exact h v b (hsame.symm.trans hb) hv
  · rw [hmarked, Option.some.injEq] at hb
    have hfind := hstored e he
    rw [hview] at hfind
    rw [← hb]
    exact h v e.block hfind hv

theorem Step.namesEarlier {s s' : State} (h : Step cfg cr received s s') (hkeyed : Keyed s.cblocks)
    (hs : NamesEarlier s.cblocks) (hstores : Backward s'.stores) : NamesEarlier s'.cblocks := by
  cases h with
  | quiet h => exact h.cblocks ▸ hs
  | newview h => exact hs
  | prepare h => exact hs
  | proposal h => exact hs
  | store hview hsource _ =>
    exact hs.insert (hstores _ (List.mem_append_right _ List.mem_cons_self))
  | walk h => exact hs.walked fun e he => ((collected_stored hkeyed h).1 e he).1
  | begin => exact hs.insert fun hzero => absurd rfl hzero

/-- **Walks end as long as the stored blocks name earlier views.**  For every run with any messages. -/
theorem walksEnd_of_backward (cfg : HandlerConfig Key) (cr : Crypto Key) (inputs : List (ℕ × Input))
    (h : Backward (run cfg cr inputs).stores) : WalksEnd (run cfg cr inputs).cblocks := by
  have hinv : Keyed (run cfg cr inputs).cblocks ∧
      (Backward (run cfg cr inputs).stores → NamesEarlier (run cfg cr inputs).cblocks) := by
    apply run_invariant (I := fun s => Keyed s.cblocks ∧ (Backward s.stores → NamesEarlier s.cblocks))
    · exact ⟨fun v b hb => by simp [State.init] at hb, fun _ v b hb => by simp [State.init] at hb⟩
    · intro s s' hstep hs
      exact ⟨hstep.keyed hs.1, fun hstores =>
        hstep.namesEarlier hs.1 (hs.2 (hstores.of_prefix hstep.stores_prefix)) hstores⟩
  exact (hinv.2 h).walksEnd

/-- Two proposals, each with a certificate for the view before. -/
theorem walksEnd_two_proposals :
    WalksEnd (run (noTEESystem.config 0) (cryptoBy [1, 2] [firstBlock, secondBlock]) twoProposals).cblocks :=
  walksEnd_of_backward _ _ _ (by unfold Backward; decide +kernel)

/-! ### A circle -/

section OwnView

/-- A block of view 1 with a certificate for view 1. -/
def ownViewBlock : CBlock := emptyCBlock 1 (certBy1 1 (genBlock.hash sumSha))

/-- Replica 0 gets it from the leader of view 1. -/
def ownViewProposal : List (ℕ × Input) := [(4, .start 0), (4, proposalBy 1 ownViewBlock)]

end OwnView

/-- **A walk without end.**  The component rejects the block, whose certificate is for the view of the block
itself, but replica 0 has stored it; a walk from this block comes back to it for ever. -/
theorem not_walksEnd_own_view :
    ¬ WalksEnd (run (noTEESystem.config 0) (cryptoBy [1] [ownViewBlock]) ownViewProposal).cblocks := by
  intro h
  have hstored : ((run (noTEESystem.config 0) (cryptoBy [1] [ownViewBlock])
      ownViewProposal).cblocks.lookup 1).any (fun b => ca2view b.cert = 1 && !b.executed) = true := by
    decide +kernel
  obtain ⟨b, hfind, hb⟩ := (Option.any_eq_true _ _).mp hstored
  rw [Bool.and_eq_true, decide_eq_true_eq, Bool.not_eq_true'] at hb
  obtain ⟨fuel, hends⟩ := h.ends b
  rw [blocksToExec_own_view hfind hb.1 (by decide) hb.2] at hends
  exact absurd hends (by decide)

end Raftel.Chained
