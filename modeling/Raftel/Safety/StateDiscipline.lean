import Raftel.Safety.PhaseChain

/-!
# The state of a component along its calls

Two facts about the six variables of a component that the protocol builds on: they move forward only
(`stateDiscipline`), and a new-view statement reports the prepared block.  The second one is about
the phase of the counter, which `TEEprepare` and `TEEstore` do not look at, so it is lost when one of
them is the first accepted call of a view.

* `stateDiscipline` : order, monotonicity and the step of the counter, along every sequence of calls
* `truthfulNewViews_iff` : exactly when the signed new-views report the prepared block
* `not_truthfulNewViews_prepare_first` : a call of `TEEprepare` on a fresh enclave
-/

namespace Raftel

/-! ### The variables move forward -/

/-- The views of the variables are in order. -/
structure CombState.InOrder (st : CombState) : Prop where
  lock : st.lockv ≤ st.prepv
  prep : st.prepv ≤ st.view

/-- The variables have moved forward; the counter is compared by the view, then by the phase. -/
structure CombState.Precedes (st st' : CombState) : Prop where
  prepv : st.prepv ≤ st'.prepv
  lockv : st.lockv ≤ st'.lockv
  counter : st.view < st'.view ∨ st.view = st'.view ∧ st.phase.index ≤ st'.phase.index

/-- What one call may do to the variables. -/
structure CallRecord.MovesOn (r : CallRecord) : Prop where
  prepared : (r.post.preph = r.pre.preph ∧ r.post.prepv = r.pre.prepv) ∨ r.post.prepv = r.pre.view
  locked : (r.post.lockh = r.pre.lockh ∧ r.post.lockv = r.pre.lockv) ∨ r.post.lockv = r.pre.view
  issued : r.rdata?.isSome → r.post.rank = r.pre.rank + 1
  refused : ∀ j, r.reply = .just j → j.set = false → r.post = r.pre
  accum : r.call.isAccum = true → r.post = r.pre

/-- The state discipline along a history that ends in `st`. -/
structure StateDiscipline (l : List CallRecord) (st : CombState) : Prop where
  ordered : ∀ r ∈ l, r.pre.InOrder ∧ r.post.InOrder
  ordered_last : st.InOrder
  forward : ∀ r ∈ l, r.pre.Precedes r.post ∧ r.post.Precedes st
  step : ∀ r ∈ l, r.MovesOn

theorem CombState.rank_le_iff {st st' : CombState} :
    st.rank ≤ st'.rank ↔
      st.view < st'.view ∨ st.view = st'.view ∧ st.phase.index ≤ st'.phase.index := by
  have hindex : ∀ ph : Phase1, ph.index < 4 := by
    intro ph
    cases ph <;> decide
  have h := hindex st.phase
  have h' := hindex st'.phase
  unfold CombState.rank
  grind

theorem CallRecord.Valid.movesOn {env : CheckEnv} {r : CallRecord} (h : r.Valid env)
    (hwrap : r.NoWrap) : r.MovesOn := by
  have hnone : r.rdata? = none → r.post = r.pre := h.post_eq
  refine ⟨?_, ?_, fun hsome => ?_, fun j hj hset => ?_, fun haccum => ?_⟩
  · cases hrd : r.rdata? with
    | none => exact Or.inl (by rw [hnone hrd]; exact ⟨rfl, rfl⟩)
    | some rd => exact (h.accepts hrd).pairs.1
  · cases hrd : r.rdata? with
    | none => exact Or.inl (by rw [hnone hrd]; exact ⟨rfl, rfl⟩)
    | some rd => exact (h.accepts hrd).pairs.2.imp_right fun hlock => hlock.1
  · obtain ⟨rd, hrd⟩ := Option.isSome_iff_exists.mp hsome
    exact hwrap.rank h hrd
  · apply hnone
    simp [rdata?, hj, Reply.rdata?, hset]
  · -- an accumulator call is never accepted as one that signs an `RData`
    apply hnone
    cases hrd : r.rdata? with
    | none => rfl
    | some rd =>
      have hacc := h.accepts hrd
      generalize r.call = c at hacc haccum
      cases hacc <;> cases haccum

/-- **One call.**  From a state in order, a call moves the variables forward to a state in order. -/
theorem CallRecord.Valid.forward {env : CheckEnv} {r : CallRecord} (h : r.Valid env)
    (hwrap : r.NoWrap) (hpre : r.pre.InOrder) : r.post.InOrder ∧ r.pre.Precedes r.post := by
  have hrank := CombState.rank_le_iff.mp (hwrap.rank_le h)
  obtain ⟨hlock, hprep⟩ := hpre
  cases hrd : r.rdata? with
  | none =>
    rw [h.post_eq hrd]
    exact ⟨⟨hlock, hprep⟩, le_rfl, le_rfl, Or.inr ⟨rfl, le_rfl⟩⟩
  | some rd =>
    have hview : r.pre.view ≤ r.post.view := by
      rcases hrank with hlt | ⟨heq, -⟩
      · exact hlt.le
      · exact heq.le
    obtain ⟨hp, hl⟩ := (h.accepts hrd).pairs
    refine ⟨⟨?_, ?_⟩, ?_, ?_, hrank⟩
    · rcases hl with ⟨-, hl⟩ | ⟨hl, hp'⟩
      · rw [hl]
        rcases hp with ⟨-, hp⟩ | hp <;> rw [hp]
        · exact hlock
        · exact hlock.trans hprep
      · rw [hl, hp']
    · rcases hp with ⟨-, hp⟩ | hp <;> rw [hp]
      · exact hprep.trans hview
      · exact hview
    · rcases hp with ⟨-, hp⟩ | hp <;> rw [hp]
      exact hprep
    · rcases hl with ⟨-, hl⟩ | ⟨hl, -⟩ <;> rw [hl]
      exact hlock.trans hprep

theorem CombState.init_inOrder : CombState.init.InOrder := ⟨le_rfl, Nat.zero_le 1⟩

/-- **State discipline.**  Along every sequence of calls with arbitrary arguments that does not wrap
the view counter, the views of the variables stay in order and never decrease, the prepared and the
locked pair change only to a pair of the component's view, a signature moves the counter by exactly
one step, and a refused call or an accumulator changes nothing. -/
theorem stateDiscipline {Key : Type} (cr : Crypto Key) (comp : Component Key)
    (l : List CallRecord) (st : CombState) (hrun : comp.Run cr l st)
    (hwrap : ∀ r ∈ l, r.NoWrap) : StateDiscipline l st := by
  have hinv := Lib.Trace.invariant hrun (I := CombState.InOrder) CombState.init_inOrder
    fun r hr _ hpre => ((hrun.valid hr).forward (hwrap r hr) hpre).1
  have hforward : ∀ r ∈ l, r.pre.Precedes r.post := fun r hr =>
    ((hrun.valid hr).forward (hwrap r hr) (hinv.2 r hr).1).2
  refine ⟨hinv.2, hinv.1, fun r hr => ⟨hforward r hr, ?_, ?_, ?_⟩, fun r hr =>
    (hrun.valid hr).movesOn (hwrap r hr)⟩
  · exact Lib.Trace.rank_post_le CombState.prepv hrun (fun r hr => (hforward r hr).prepv) hr
  · exact Lib.Trace.rank_post_le CombState.lockv hrun (fun r hr => (hforward r hr).lockv) hr
  · apply CombState.rank_le_iff.mp
    exact Lib.Trace.rank_post_le CombState.rank hrun
      (fun r hr => CombState.rank_le_iff.mpr (hforward r hr).counter) hr

/-- The run of three calls that `prepareTwiceRecords` lists. -/
theorem stateDiscipline_prepare_twice :
    (∀ r ∈ prepareTwiceRecords, r.NoWrap) ∧ ∃ st, StateDiscipline prepareTwiceRecords st := by
  have hwrap : ∀ r ∈ prepareTwiceRecords, r.NoWrap := by decide +kernel
  obtain ⟨st, hrun⟩ := prepareTwice_run
  exact ⟨hwrap, st, stateDiscipline prepareTwiceCrypto prepareTwiceEnclave _ st hrun hwrap⟩

/-! ### New-view statements -/

/-- The new-view data that the call signs, if it signs any, names no block and reports the prepared
pair of the state in which it is signed.  Signing moves the counter only, so these are the variables
after the call. -/
def CallRecord.TruthfulNewView (r : CallRecord) : Prop :=
  ∀ rd, r.rdata? = some rd → rd.phase = Phase1.newview.byte →
    rd.proph.set = false ∧ rd.justh = r.post.preph ∧ rd.justv = r.post.prepv

/-- A call that is accepted while the component is in phase `newview` is `TEEsign`. -/
def CallRecord.SignsFirst (r : CallRecord) : Prop :=
  r.rdata?.isSome → r.pre.phase = .newview → r.call = .sign

theorem CallRecord.Valid.truthfulNewView_iff {env : CheckEnv} {r : CallRecord} (h : r.Valid env) :
    r.TruthfulNewView ↔ r.SignsFirst := by
  constructor
  · intro htrue hsome hphase
    obtain ⟨rd, hrd⟩ := Option.isSome_iff_exists.mp hsome
    have hacc := h.accepts hrd
    obtain ⟨-, hbyte, -⟩ := hacc.counter
    obtain ⟨hset, hjusth, -⟩ := htrue rd hrd (by rw [hbyte, hphase])
    generalize hc : r.call = c at hacc
    cases hacc with
    | sign data next => rfl
    | prepare proof parent safe data next =>
      -- the hash of a block is set
      rw [data] at hset
      exact absurd hset Bool.true_eq_false.mp
    | @store just cert view phase data next =>
      -- the reported hash is the one of the genesis block, the stored one is not set
      rw [data] at hset hjusth
      rw [next, CombState.increment_preph, CombState.stored_preph] at hjusth
      rw [← hjusth] at hset
      exact absurd (show newHash.set = false from hset) (by decide)
  · intro hfirst rd hrd hphase
    have hacc := h.accepts hrd
    obtain ⟨-, hbyte, -⟩ := hacc.counter
    have hpre : r.pre.phase = .newview := Phase1.byte_injective (hbyte.symm.trans hphase)
    rw [hfirst (Option.isSome_iff_exists.mpr ⟨rd, hrd⟩) hpre] at hacc
    cases hacc with
    | sign data next =>
      rw [data, next, CombState.increment_preph, CombState.increment_prepv]
      exact ⟨rfl, rfl, rfl⟩

/-- **Exactly when new-views are truthful.**  Along every sequence of calls with arbitrary
arguments, every signed new-view names no block and reports the prepared pair if and only if every
call that is accepted in phase `newview` is `TEEsign`. -/
theorem truthfulNewViews_iff {Key : Type} (cr : Crypto Key) (comp : Component Key)
    (l : List CallRecord) (st : CombState) (hrun : comp.Run cr l st) :
    (∀ r ∈ l, r.TruthfulNewView) ↔ ∀ r ∈ l, r.SignsFirst :=
  forall₂_congr fun _ hr => (hrun.valid hr).truthfulNewView_iff

/-- The call of `TEEprepare` that a host makes on the fresh enclave of replica 3, with the new-views
of the other replicas. -/
def prepareFirstRecord : CallRecord :=
  prepareTwiceEnclave.record prepareTwiceCrypto .init (.prepare (emptyBlock 11) firstAccum firstProof)

/-- **A block is prepared before the new-view.**  The enclave signs data of phase `newview` that
names the block. -/
theorem not_truthfulNewViews_prepare_first :
    prepareTwiceEnclave.Run prepareTwiceCrypto [prepareFirstRecord] prepareFirstRecord.post ∧
      ¬ ∀ r ∈ [prepareFirstRecord], r.TruthfulNewView := by
  refine ⟨Component.Run.snoc_record .nil _, fun h => ?_⟩
  have hsigned : prepareFirstRecord.rdata? =
      some ⟨(emptyBlock 11).hash prepareTwiceCrypto.sha256, 1, newHash, 0, Phase1.newview.byte⟩ := by
    decide +kernel
  obtain ⟨hset, -⟩ := h _ (List.mem_singleton_self _) _ hsigned rfl
  exact absurd hset (by decide)

instance : (c : Call) → Decidable (c = .sign)
  | .sign => isTrue rfl
  | .prepare .. | .store _ | .accum _ | .accumSp _ => isFalse nofun

instance (r : CallRecord) : Decidable r.SignsFirst := inferInstanceAs (Decidable (_ → _ → _))

/-- In a view without detours the condition is met: the second new-view reports the block that was prepared
in between. -/
theorem truthfulNewViews_full_view :
    (∀ r ∈ fullViewRecords, r.TruthfulNewView) ∧
      ∃ r ∈ fullViewRecords, r.rdata? = some ⟨noHash, 2, ⟨emptyBlockDigest, true⟩, 1, Phase1.newview.byte⟩ := by
  obtain ⟨st, hrun⟩ := fullView_run
  have hfirst : ∀ r ∈ fullViewRecords, r.SignsFirst := by decide +kernel
  exact ⟨(truthfulNewViews_iff fullViewCrypto prepareTwiceEnclave _ st hrun).mpr hfirst, by decide +kernel⟩

end Raftel
