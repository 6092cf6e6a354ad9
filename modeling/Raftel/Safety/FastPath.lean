import Raftel.Safety.Certificates

/-!
# The block of a TEE-led view

A block whose accumulator is signed by a TEE replica is prepared at once, because such a leader cannot
propose two blocks.  The enclave looks at the accumulator only: whether its signer is the leader and
whether the leader proposed this very block is left to the host, and a Byzantine host does not ask.

* `fastPathUnique_of_proposed` : one block for each TEE-led view, as long as the enclaves are called
  with proposals of its leader
* `not_fastPathUnique_second_call` : a Byzantine leader that calls its own enclave a second time
-/

namespace Raftel

/-- The call set the prepared pair to `(h, v)` through the branch for a TEE leader. -/
def CallRecord.FastPrepares (sys : System) (r : CallRecord) (h : Hash) (v : View) : Prop :=
  ∃ x ∈ r.proposal?, x.acc.sign.signer ∈ sys.tee ∧ r.post.preph = h ∧ r.post.prepv = v

/-- Enclaves that prepare a block of one view at once prepare the same one. -/
def FastPathUnique (sys : System) (st : SystemState) : Prop :=
  ∀ p ∈ sys.tee, ∀ p' ∈ sys.tee, ∀ r ∈ (st.replica p).host.calls, ∀ r' ∈ (st.replica p').host.calls,
    ∀ h h' v, r.FastPrepares sys h v → r'.FastPrepares sys h' v → h = h'

/-- An accepted proposal with an accumulator of a TEE replica is the one of the view's leader, whose
enclave has signed `prepare` data for it. -/
def CallRecord.Proposed (sys : System) (st : SystemState) (leader : View → PID) (r : CallRecord) :
    Prop :=
  ∀ x ∈ r.proposal?, x.acc.sign.signer ∈ sys.tee →
    x.acc.sign.signer = leader r.pre.view ∧
      SignedText.rdata (x.rdata sys.sha256 r.pre.view) ∈ (st.replica (leader r.pre.view)).signed

instance (sys : System) (st : SystemState) (leader : View → PID) (r : CallRecord) :
    Decidable (r.Proposed sys st leader) :=
  inferInstanceAs (Decidable (∀ x ∈ r.proposal?, _))

theorem CallRecord.FastPrepares.eq {sys : System} {net : Net} {r : CallRecord} {h : Hash} {v : View}
    (hfast : r.FastPrepares sys h v) (hvalid : r.Valid (sys.env net)) :
    ∃ x ∈ r.proposal?, x.acc.sign.signer ∈ sys.tee ∧ r.pre.view = v ∧ x.block.hash sys.sha256 = h := by
  obtain ⟨x, hx, htee, hpreph, hprepv⟩ := hfast
  obtain ⟨-, -, -, hpost⟩ := hvalid.proposal hx
  have hbranch : (sys.env net).isTEE x.acc.sign.signer = some true := by
    have hlt : x.acc.sign.signer < sys.n := Finset.mem_range.mp (sys.tee_sub htee)
    simp [System.env, hlt, htee]
  rw [hpost, CombState.increment_preph, CombState.prepared, if_pos hbranch] at hpreph
  rw [hpost, CombState.increment_prepv, CombState.prepared, if_pos hbranch] at hprepv
  exact ⟨x, hx, htee, hprepv, hpreph⟩

/-- **One block for each TEE-led view.**  In every reachable state in which no view counter has wrapped
and the enclaves have accepted, from TEE leaders, only what the leader of the view proposed, all
enclaves that prepared a block of a view at once prepared the same one. -/
theorem fastPathUnique_of_proposed (sys : System) (acts : List Action) (leader : View → PID)
    (hwrap : (sys.run acts).NoWrap sys)
    (hprop : ∀ p ∈ sys.tee, ∀ r ∈ ((sys.run acts).replica p).host.calls,
      r.Proposed sys (sys.run acts) leader) :
    FastPathUnique sys (sys.run acts) := by
  have hinv := (run_reachable sys acts).netInv
  have hintact : ∀ p ∈ sys.tee, sys.Intact p := fun p hp =>
    ⟨Finset.mem_range.mp (sys.tee_sub hp), Or.inl hp⟩
  intro p hp p' hp' r hr r' hr' h h' v hfast hfast'
  obtain ⟨x, hx, htee, rfl, rfl⟩ := hfast.eq ((hinv.trace p (hintact p hp)).ok_of_mem hr)
  obtain ⟨x', hx', htee', hview, rfl⟩ := hfast'.eq ((hinv.trace p' (hintact p' hp')).ok_of_mem hr')
  obtain ⟨hleader, hsigned⟩ := hprop p hp r hr x hx htee
  obtain ⟨-, hsigned'⟩ := hprop p' hp' r' hr' x' hx' htee'
  rw [hview] at hsigned'
  -- the leader is a TEE replica: its enclave signed one proposal for the view
  have heq := hinv.signed_unique hwrap.net (hintact _ (hleader ▸ htee)) hsigned hsigned' rfl rfl
  exact congrArg RData.proph heq

/-! ### A second call -/

section SecondCall

/-- In view 1 of the system with two TEE replicas the enclaves follow leader 1. -/
theorem fastPathUnique_first_view :
    (hybridSystem.run firstViewActions).NoWrap hybridSystem ∧
      (∀ p ∈ hybridSystem.tee, ∀ r ∈ ((hybridSystem.run firstViewActions).replica p).host.calls,
        r.Proposed hybridSystem (hybridSystem.run firstViewActions) fun _ => 1) ∧
      FastPathUnique hybridSystem (hybridSystem.run firstViewActions) := by
  have hwrap : (hybridSystem.run firstViewActions).NoWrap hybridSystem := by decide +kernel
  have hprop : ∀ p ∈ hybridSystem.tee,
      ∀ r ∈ ((hybridSystem.run firstViewActions).replica p).host.calls,
        r.Proposed hybridSystem (hybridSystem.run firstViewActions) fun _ => 1 := by
    decide +kernel
  exact ⟨hwrap, hprop, fastPathUnique_of_proposed hybridSystem firstViewActions _ hwrap hprop⟩

/-- Four TEE replicas; the host of replica 1, the first leader, is Byzantine. -/
def allTEESystem : System where
  f := 1
  f_pos := Nat.one_pos
  tee := {0, 1, 2, 3}
  tee_sub := by decide
  byz := {1}
  byz_sub := noTEESystem.byz_sub
  byz_card := noTEESystem.byz_card
  sha256 := twoBlocksSha
  maxViews := 0
  fixedLeaderMode := false
  fixedLeader := 0

/-- The leader has its enclave accumulate the new-views and prepare a block, which it proposes to
replica 2; then it has its enclave prepare another block. -/
def secondCallActions : List Action :=
  [.input 0 9 (.start 0), .ecall 1 .sign, .input 2 9 (.start 0),
    .ecall 1 (.accumSp ⟨true, firstNewView, .ofList [idealSign 0, idealSign 1, idealSign 2]⟩),
    .ecall 1 (.prepare (emptyBlock 11) firstAccum firstProof),
    .input 2 9 (.peer (.ldrprepare (firstLdrPrepare 11))),
    .ecall 1 (.prepare (emptyBlock 22) firstAccum firstProof)]

/-- **The enclave of a Byzantine leader prepares a second block.**  Replica 2 has prepared the first
one. -/
theorem not_fastPathUnique_second_call :
    ¬ FastPathUnique allTEESystem (allTEESystem.run secondCallActions) := by
  intro h
  obtain ⟨r, hr, hfast⟩ : ∃ r ∈ ((allTEESystem.run secondCallActions).replica 2).host.calls,
      ∃ x ∈ r.proposal?, x.acc.sign.signer ∈ allTEESystem.tee ∧
        r.post.preph = (emptyBlock 11).hash twoBlocksSha ∧ r.post.prepv = 1 := by
    decide +kernel
  obtain ⟨r', hr', hfast'⟩ : ∃ r ∈ ((allTEESystem.run secondCallActions).replica 1).host.calls,
      ∃ x ∈ r.proposal?, x.acc.sign.signer ∈ allTEESystem.tee ∧
        r.post.preph = (emptyBlock 22).hash twoBlocksSha ∧ r.post.prepv = 1 := by
    decide +kernel
  have heq := h 2 (by decide) 1 (by decide) r hr r' hr' _ _ 1 hfast hfast'
  exact absurd heq (by decide +kernel)

end SecondCall

end Raftel
