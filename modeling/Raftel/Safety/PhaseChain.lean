import Raftel.Component
import Raftel.Message
import Mathlib.Data.List.Induction

/-!
# The phase chain of a component

A component should sign `commit` data for a block only after it has verified a `precommit` quorum
for it and locked it, and `precommit` data only after a `prepare` quorum.  `TEEprepare` and
`TEEstore` do not look at the component's own phase, which is the one that goes into the signed
data, so this fails when they are called out of phase.

* `phaseChain_of_inPhase` : the chain holds along every run whose accepted calls are in phase
* `not_phaseChain_prepare_twice` : a run of three calls on which it does not
-/

namespace Raftel

/-- The call verified a quorum certificate of phase `ph` for the block `h` of view `v`, the
component being in that view. -/
def CallRecord.VerifiedQuorum (env : CheckEnv) (ph : Phase1) (h : Hash) (v : View)
    (r : CallRecord) : Prop :=
  ∃ just : Just, r.call = .store just ∧ r.pre.view = v ∧ Certified env just.rdata just.signs ∧
    just.rdata.phase = ph.byte ∧ just.rdata.proph = h ∧ just.rdata.propv = v

/-- What the phase chain says of one call, given the calls before it. -/
structure ChainedAt (env : CheckEnv) (before : List CallRecord) (r : CallRecord) : Prop where
  commit : ∀ rd, r.rdata? = some rd → rd.proph.set = true → rd.phase = Phase1.commit.byte →
    (∃ r' ∈ before ++ [r], r'.VerifiedQuorum env .precommit rd.proph rd.propv) ∧
      r.post.lockh = rd.proph ∧ r.post.lockv = rd.propv
  precommit : ∀ rd, r.rdata? = some rd → rd.proph.set = true →
    rd.phase = Phase1.precommit.byte →
    (∃ r' ∈ before ++ [r], r'.VerifiedQuorum env .prepare rd.proph rd.propv) ∧
      r.post.preph = rd.proph ∧ r.post.prepv = rd.propv

/-- The phase chain along a history. -/
def PhaseChain (env : CheckEnv) (l : List CallRecord) : Prop :=
  ∀ l₁ r l₂, l = l₁ ++ r :: l₂ → ChainedAt env l₁ r

/-- An accepted call is in phase: `TEEprepare` comes before the `precommit` phase, and a certificate
for a block is not stored one phase late (`prepare`) or one phase early (`precommit`). -/
def CallRecord.InPhase (r : CallRecord) : Prop :=
  r.rdata?.isSome →
    match r.call with
    | .prepare .. => r.pre.phase = .newview ∨ r.pre.phase = .prepare
    | .store just => just.rdata.proph.set = true →
        (just.rdata.phase = Phase1.prepare.byte → r.pre.phase ≠ .commit) ∧
        (just.rdata.phase = Phase1.precommit.byte → r.pre.phase ≠ .precommit)
    | _ => True

instance : (r : CallRecord) → Decidable r.InPhase
  | ⟨_, .prepare .., _, _, _⟩ => inferInstanceAs (Decidable (_ → _ ∨ _))
  | ⟨_, .store _, _, _, _⟩ => inferInstanceAs (Decidable (_ → _ → _ ∧ _))
  | ⟨_, .sign, _, _, _⟩ => inferInstanceAs (Decidable (_ → True))
  | ⟨_, .accum _, _, _, _⟩ => inferInstanceAs (Decidable (_ → True))
  | ⟨_, .accumSp _, _, _, _⟩ => inferInstanceAs (Decidable (_ → True))

@[simp]
theorem CombState.increment_preph (st : CombState) : st.increment.preph = st.preph := by
  unfold CombState.increment
  split <;> rfl

@[simp]
theorem CombState.increment_prepv (st : CombState) : st.increment.prepv = st.prepv := by
  unfold CombState.increment
  split <;> rfl

@[simp]
theorem CombState.increment_lockh (st : CombState) : st.increment.lockh = st.lockh := by
  unfold CombState.increment
  split <;> rfl

@[simp]
theorem CombState.increment_lockv (st : CombState) : st.increment.lockv = st.lockv := by
  unfold CombState.increment
  split <;> rfl

@[simp]
theorem CombState.stored_preph (st : CombState) (rd : RData) :
    (st.stored rd).preph = rd.proph := by
  unfold CombState.stored
  dsimp only
  split <;> rfl

@[simp]
theorem CombState.stored_prepv (st : CombState) (rd : RData) :
    (st.stored rd).prepv = rd.propv := by
  unfold CombState.stored
  dsimp only
  split <;> rfl

theorem CombState.stored_lock {st : CombState} {rd : RData}
    (h : rd.phase = Phase1.precommit.byte) :
    (st.stored rd).lockh = rd.proph ∧ (st.stored rd).lockv = rd.propv := by
  simp [CombState.stored, h]

theorem CombState.prepared_lock (st : CombState) (env : CheckEnv) (block : Block) (acc : Accum) :
    (st.prepared env block acc).lockh = st.lockh ∧ (st.prepared env block acc).lockv = st.lockv := by
  unfold CombState.prepared
  split <;> exact ⟨rfl, rfl⟩

theorem CombState.prepared_prep (st : CombState) (env : CheckEnv) (block : Block) (acc : Accum) :
    ((st.prepared env block acc).preph = st.preph ∧ (st.prepared env block acc).prepv = st.prepv) ∨
      (st.prepared env block acc).prepv = st.view := by
  unfold CombState.prepared
  split
  · exact Or.inr rfl
  · exact Or.inl ⟨rfl, rfl⟩

theorem CombState.stored_lock_cases (st : CombState) (rd : RData) :
    ((st.stored rd).lockh = st.lockh ∧ (st.stored rd).lockv = st.lockv) ∨
      (st.stored rd).lockv = rd.propv := by
  unfold CombState.stored
  dsimp only
  split
  · exact Or.inr rfl
  · exact Or.inl ⟨rfl, rfl⟩

/-- What an accepted call does to the prepared and to the locked pair.  A block that is locked is
also prepared. -/
theorem Accepts.pairs {env : CheckEnv} {st st' : CombState} {c : Call} {rd : RData}
    (h : Accepts env st rd st' c) :
    ((st'.preph = st.preph ∧ st'.prepv = st.prepv) ∨ st'.prepv = st.view) ∧
      ((st'.lockh = st.lockh ∧ st'.lockv = st.lockv) ∨
        st'.lockv = st.view ∧ st'.prepv = st.view) := by
  cases h with
  | sign data next =>
    rw [next]
    simp
  | @prepare block acc nvs proof parent safe data next =>
    rw [next]
    constructor
    · simpa using st.prepared_prep env block acc
    · left
      simpa using st.prepared_lock env block acc
  | @store just cert view phase data next =>
    rw [next]
    constructor
    · right
      simpa using view
    · rcases st.stored_lock_cases just.rdata with hlock | hlock
      · left
        simpa using hlock
      · right
        simp only [CombState.increment_lockv, CombState.increment_prepv, CombState.stored_prepv]
        exact ⟨hlock.trans view, view⟩

/-- An accepted call that is in phase and signs `commit` or `precommit` data for a block is the
`TEEstore` of the certificate of the phase before. -/
theorem chainedAt_of_inPhase {env : CheckEnv} {before : List CallRecord} {r : CallRecord}
    (hv : r.Valid env) (hin : r.InPhase) : ChainedAt env before r := by
  have hself : r ∈ before ++ [r] := List.mem_append_right _ (List.mem_singleton_self r)
  obtain ⟨pre, call, reply, post, stored⟩ := r
  constructor
  all_goals
    intro rd hrd hset hphase
    have hacc := hv.accepts hrd
    have hguard := hin (Option.isSome_iff_exists.mpr ⟨rd, hrd⟩)
    obtain ⟨-, hcounter, -⟩ := hacc.counter
    rw [hphase] at hcounter
    have hpre := Phase1.byte_injective hcounter
    dsimp only at hpre hguard hacc ⊢
    cases hacc with
    | sign data next => simp [data, noHash] at hset
    | prepare => rcases hguard with hp | hp <;> rw [hp] at hpre <;> exact absurd hpre (by decide)
    | @store just cert view phase data next => ?_
  · -- the signed phase is `commit`: a `prepare` certificate would be out of phase
    subst data next
    have hpc : just.rdata.phase = Phase1.precommit.byte :=
      phase.resolve_left fun hp => (hguard hset).1 hp hpre.symm
    refine ⟨⟨_, hself, just, rfl, rfl, cert, hpc, rfl, view⟩, ?_⟩
    simp [CombState.stored_lock hpc, view]
  · subst data next
    have hp : just.rdata.phase = Phase1.prepare.byte :=
      phase.resolve_right fun hpc => (hguard hset).2 hpc hpre.symm
    refine ⟨⟨_, hself, just, rfl, rfl, cert, hp, rfl, view⟩, ?_⟩
    simp [view]

/-- **The phase chain.**  Along every sequence of calls with arbitrary arguments from the initial
state in which the accepted calls are in phase, `commit` data is signed for a block only with a
verified `precommit` quorum and the lock on it, `precommit` data only with a verified `prepare`
quorum and the block prepared. -/
theorem phaseChain_of_inPhase {Key : Type} (cr : Crypto Key) (comp : Component Key)
    (l : List CallRecord) (st : CombState) (hrun : comp.Run cr l st)
    (hin : ∀ r ∈ l, r.InPhase) : PhaseChain (comp.env cr) l := by
  intro l₁ r l₂ hl
  have hr : r ∈ l := by
    rw [hl]
    exact List.mem_append_right _ List.mem_cons_self
  exact chainedAt_of_inPhase (hrun.valid hr) (hin r hr)

/-! ### Calls out of phase -/

section PrepareTwice

/-- A block without transactions that extends the genesis block, as leader 1 makes it in view 1. -/
def emptyBlock (id : ℕ) : Block :=
  ⟨id, true, newHash, 0, Vector.replicate _ Transaction.dummy⟩

/-- SHA-256 of the text of `emptyBlock 11`. -/
def emptyBlockDigest : Digest :=
  #v[241, 73, 248, 199, 68, 45, 0, 192, 208, 76, 48, 88, 1, 28, 143, 27, 41, 176, 110, 177, 38, 86,
    10, 33, 164, 249, 255, 25, 189, 8, 186, 39]

/-- The new-view data that every component signs first. -/
def firstNewView : RData := ⟨noHash, 1, newHash, 0, Phase1.newview.byte⟩

/-- The accumulator of leader 1 over three first new-views. -/
def firstAccum : Accum := ⟨⟨true, 1, 0, newHash, 3⟩, idealSign 1⟩

/-- Replicas 0, 1 and 2 have signed their new-views, replica 1 also the accumulator. -/
def firstSigned : PID → List SignedText
  | 0 => [.rdata firstNewView]
  | 1 => [.rdata firstNewView, .accum firstAccum.toAccumData]
  | 2 => [.rdata firstNewView]
  | _ => []

/-- The proof made of these three new-views. -/
def firstProof : NewViews :=
  setNewViews (.ofMsgs [⟨firstNewView, idealSign 0⟩, ⟨firstNewView, idealSign 1⟩,
    ⟨firstNewView, idealSign 2⟩])

def prepareTwiceCrypto : Crypto Unit :=
  idealCrypto (fun t => if t = (emptyBlock 11).toText then emptyBlockDigest
    else Vector.replicate _ 255) firstSigned

/-- The enclave of replica 3 in a system of four TEE replicas. -/
def prepareTwiceEnclave : Component Unit :=
  .enclave (initializeVariables () () 3 [0, 1, 2, 3] 3 3
    [⟨0, true⟩, ⟨1, true⟩, ⟨2, true⟩, ⟨3, true⟩])

/-- The record of a call made in state `st`. -/
def Component.record {Key : Type} (cr : Crypto Key) (comp : Component Key) (st : CombState)
    (c : Call) : CallRecord :=
  ⟨st, c, (comp.call cr st c).1, (comp.call cr st c).2, none⟩

theorem Component.Run.snoc_record {Key : Type} {cr : Crypto Key} {comp : Component Key}
    {l : List CallRecord} {st : CombState} (h : comp.Run cr l st) (c : Call) :
    comp.Run cr (l ++ [comp.record cr st c]) (comp.record cr st c).post :=
  Lib.Trace.snoc h rfl rfl

/-- `TEEsign`, then `TEEprepare` on the same block twice. -/
def prepareTwiceRecords : List CallRecord :=
  let r₁ := prepareTwiceEnclave.record prepareTwiceCrypto .init .sign
  let c : Call := .prepare (emptyBlock 11) firstAccum firstProof
  let r₂ := prepareTwiceEnclave.record prepareTwiceCrypto r₁.post c
  [r₁, r₂, prepareTwiceEnclave.record prepareTwiceCrypto r₂.post c]

theorem prepareTwice_run : ∃ st,
    prepareTwiceEnclave.Run prepareTwiceCrypto prepareTwiceRecords st :=
  ⟨_, ((Component.Run.snoc_record (.nil) _).snoc_record _).snoc_record _⟩

/-- **Preparing a block twice breaks the chain.**  The second call signs `precommit` data for the
block; the enclave has been shown no certificate at all. -/
theorem not_phaseChain_prepare_twice :
    (∃ st, prepareTwiceEnclave.Run prepareTwiceCrypto prepareTwiceRecords st) ∧
      ¬ PhaseChain (prepareTwiceEnclave.env prepareTwiceCrypto) prepareTwiceRecords := by
  refine ⟨prepareTwice_run, fun h => ?_⟩
  obtain ⟨-, hpre⟩ := h _ _ [] (prepareTwiceRecords.dropLast_append_getLast (by decide)).symm
  have hsigned : (prepareTwiceRecords.getLast (by decide)).rdata? =
      some ⟨(emptyBlock 11).hash prepareTwiceCrypto.sha256, 1, newHash, 0,
        Phase1.precommit.byte⟩ := by
    decide +kernel
  obtain ⟨⟨r, hr, just, hcall, -⟩, -⟩ := hpre _ hsigned rfl rfl
  rw [List.dropLast_append_getLast] at hr
  rcases List.mem_cons.mp hr with rfl | hr
  · exact absurd hcall (by simp [Component.record])
  · simp only [List.mem_cons, List.not_mem_nil, or_false] at hr
    rcases hr with rfl | rfl <;> exact absurd hcall (by simp [Component.record])

end PrepareTwice

/-! ### A whole view -/

section FullView

/-- The records of calls that are made one after the other. -/
def Component.records {Key : Type} (cr : Crypto Key) (comp : Component Key) (cs : List Call) :
    List CallRecord × CombState :=
  cs.foldl (fun (l, st) c => (l ++ [comp.record cr st c], (comp.record cr st c).post)) ([], .init)

theorem Component.run_records {Key : Type} (cr : Crypto Key) (comp : Component Key) (cs : List Call) :
    comp.Run cr (comp.records cr cs).1 (comp.records cr cs).2 := by
  induction cs using List.reverseRecOn with
  | nil => exact .nil
  | append_singleton cs c ih =>
    unfold Component.records
    rw [List.foldl_append]
    exact Component.Run.snoc_record ih c

/-- The vote for the block in a phase. -/
def emptyBlockVote (ph : Phase1) : RData := ⟨⟨emptyBlockDigest, true⟩, 1, newHash, 0, ph.byte⟩

/-- The votes of replicas 0, 1 and 2. -/
def emptyBlockCertificate (ph : Phase1) : Just :=
  ⟨true, emptyBlockVote ph, .ofList [idealSign 0, idealSign 1, idealSign 2]⟩

/-- The three replicas have signed these votes too. -/
def fullViewCrypto : Crypto Unit :=
  idealCrypto prepareTwiceCrypto.sha256 fun p =>
    if p ≤ 2 then firstSigned p ++ [.rdata (emptyBlockVote .prepare), .rdata (emptyBlockVote .precommit)]
    else []

/-- The calls of a view, and the new-view of the next one. -/
def fullViewRecords : List CallRecord :=
  (prepareTwiceEnclave.records fullViewCrypto [.sign, .prepare (emptyBlock 11) firstAccum firstProof,
    .store (emptyBlockCertificate .prepare), .store (emptyBlockCertificate .precommit), .sign]).1

theorem fullView_run : ∃ st, prepareTwiceEnclave.Run fullViewCrypto fullViewRecords st :=
  ⟨_, prepareTwiceEnclave.run_records fullViewCrypto _⟩

/-- In a view without detours the enclave signs in every phase. -/
theorem phaseChain_full_view :
    (fullViewRecords.map fun r => r.rdata?.map RData.phase) = [some 0, some 1, some 2, some 3, some 0] ∧
      PhaseChain (prepareTwiceEnclave.env fullViewCrypto) fullViewRecords := by
  have hin : ∀ r ∈ fullViewRecords, r.InPhase := by decide +kernel
  obtain ⟨st, hrun⟩ := fullView_run
  exact ⟨by decide +kernel, phaseChain_of_inPhase fullViewCrypto prepareTwiceEnclave _ st hrun hin⟩

end FullView

end Raftel
