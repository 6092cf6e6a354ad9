import Raftel.Equiv.DamysusSystem

/-!
# Damysus executes once for each view

Any number of hosts may be Byzantine: such a host makes any `DAMYSUS_*` calls of its enclave, and no others.
What a replica executes, `f+1` enclaves have signed in the phase `prepare`, under a leader that is a TEE
node (`damysus_executions_justified`); the phase `commit` is signed by none, so that the other two phases of
the protocol never lead to an execution.  Two sets of `f+1` signers meet, and an enclave signs once for
each view and phase, so two replicas execute the same in a view (`damysus_agreement`).
-/

namespace Raftel.Damysus

variable {sys : System} {st st' : SystemState}

/-! ### Certificates -/

/-- What a replica has signed, its enclave has signed in an accepted call. -/
theorem exists_call {s : State} {rd : RData} (h : .rdata rd ∈ s.signed) :
    ∃ r ∈ s.calls, r.rdata? = some rd := by
  obtain ⟨r, hr, hsigned⟩ := List.mem_flatMap.mp h
  exact ⟨r, hr, Reply.rdata_mem_signed.mp hsigned⟩

/-- A certificate has a signer. -/
theorem Certified.exists_signer {data : RData} (h : Certified sys st data) :
    ∃ q, .rdata data ∈ (st.replica q).signed := by
  obtain ⟨S, -, hcard, hsigned⟩ := h
  obtain ⟨q, hq⟩ : S.Nonempty := Finset.card_pos.mp (by omega)
  exact ⟨q, hsigned q hq⟩

/-- Two certificates have a signer in common. -/
theorem Certified.exists_inter {data data' : RData} (h : Certified sys st data)
    (h' : Certified sys st data') :
    ∃ q < sys.n, .rdata data ∈ (st.replica q).signed ∧ .rdata data' ∈ (st.replica q).signed := by
  obtain ⟨S, hsub, hcard, hsigned⟩ := h
  obtain ⟨S', hsub', hcard', hsigned'⟩ := h'
  have hlt : (Finset.range sys.n).card < S.card + S'.card := by
    rw [Finset.card_range, hcard, hcard', System.n]
    omega
  obtain ⟨q, hq⟩ := Finset.inter_nonempty_of_card_lt_card_add_card hsub hsub' hlt
  obtain ⟨hqS, hqS'⟩ := Finset.mem_inter.mp hq
  exact ⟨q, Finset.mem_range.mp (hsub hqS), hsigned q hqS, hsigned' q hqS'⟩

/-- There is no certificate of the phase `commit`. -/
theorem Certified.phase_ne (hst : sys.Reachable st) {data : RData} (h : Certified sys st data) :
    data.phase ≠ Phase1.commit.byte := by
  obtain ⟨q, hq⟩ := h.exists_signer
  obtain ⟨r, hr, hrd⟩ := exists_call hq
  exact (hst.history q).phase_ne hr hrd

/-- **Certificates are unique** for their view and phase. -/
theorem Certified.unique (hst : sys.Reachable st) (hwrap : st.NoWrap sys) {data data' : RData}
    (h : Certified sys st data) (h' : Certified sys st data') (hpropv : data.propv = data'.propv)
    (hphase : data.phase = data'.phase) : data = data' := by
  obtain ⟨q, hq, hsigned, hsigned'⟩ := h.exists_inter h'
  obtain ⟨r, hr, hrd⟩ := exists_call hsigned
  obtain ⟨r', hr', hrd'⟩ := exists_call hsigned'
  exact (hst.history q).eq_of_counter_eq (hwrap q hq) hr hr' hrd hrd' hpropv hphase

/-! ### Executions -/

/-- What an execution rests on. -/
structure Justified (sys : System) (st : SystemState) (e : Execution) : Prop where
  phase : e.data.phase = Phase1.prepare.byte
  leader : e.leader < sys.n ∧ e.leader ∈ sys.tee
  cert : Certified sys st e.data
  hash : (e.block.hash sys.sha256).hash = e.data.proph.hash

theorem Justified.micro {e : Execution} (h : Justified sys st e) (hmicro : Micro sys st st') :
    Justified sys st' e :=
  ⟨h.phase, h.leader, h.cert.micro hmicro, h.hash⟩

/-- An atom executes nothing, or one block with a certificate that the handlers accept. -/
theorem Atom.executed {Key : Type} {cfg : HandlerConfig Key} {o : Oracle Key} {s s' : State}
    (h : Atom cfg o s s') :
    (s'.executed = s.executed ∧ s'.processedCommit = s.processedCommit) ∨
      ∃ data block, AcceptedQC cfg o data s ∧ data.propv ∉ s.processedCommit ∧
        s.blocks.lookup data.propv = some block ∧ (block.hash o.sha256).hash = data.proph.hash ∧
        s' = s.committed cfg o data block := by
  cases h with
  | frame h => exact Or.inl ⟨h.executed, h.processedCommit⟩
  | prepare =>
    unfold State.preparedWith
    dsimp only
    split <;> exact Or.inl ⟨rfl, rfl⟩
  | @execute data block hqc hnew hblock hhash =>
    exact Or.inr ⟨data, block, hqc, hnew, hblock, hhash, rfl⟩
  | sign => exact Or.inl ⟨rfl, rfl⟩
  | accum => exact Or.inl ⟨rfl, rfl⟩
  | accumSp => exact Or.inl ⟨rfl, rfl⟩
  | store => exact Or.inl ⟨rfl, rfl⟩
  | logNewView => exact Or.inl ⟨rfl, rfl⟩
  | logProposal => exact Or.inl ⟨rfl, rfl⟩
  | keepQC => exact Or.inl ⟨rfl, rfl⟩

/-- So does an act. -/
theorem Micro.executed (h : Micro sys st st') (q : PID) :
    ((st'.replica q).executed = (st.replica q).executed ∧
        (st'.replica q).processedCommit = (st.replica q).processedCommit) ∨
      ∃ data block, AcceptedQC (sys.config q) (sys.oracle st q) data (st.replica q) ∧
        data.propv ∉ (st.replica q).processedCommit ∧
        (st.replica q).blocks.lookup data.propv = some block ∧
        (block.hash sys.sha256).hash = data.proph.hash ∧
        st'.replica q = (st.replica q).committed (sys.config q) (sys.oracle st q) data block := by
  cases h with
  | @atom p s hp hatom =>
    by_cases hq : q = p
    · subst hq
      rw [st.replica_update_self]
      exact hatom.executed
    · rw [st.replica_update_of_ne p s hq]
      exact Or.inl ⟨rfl, rfl⟩
  | @ecall p c hp =>
    by_cases hq : q = p
    · subst hq
      rw [st.replica_update_self]
      exact Or.inl ⟨rfl, rfl⟩
    · rw [st.replica_update_of_ne p _ hq]
      exact Or.inl ⟨rfl, rfl⟩

/-- An accepted certificate is one of phase `prepare` under a TEE leader. -/
theorem AcceptedQC.justified (hst : sys.Reachable st) {p : PID} {data : RData}
    (h : AcceptedQC (sys.config p) (sys.oracle st p) data (st.replica p)) :
    data.phase = Phase1.prepare.byte ∧
      ((st.replica p).leader (sys.config p) < sys.n ∧ (st.replica p).leader (sys.config p) ∈ sys.tee) ∧
      Certified sys st data := by
  obtain ⟨-, signs, ⟨hqc, htee⟩ | hqc⟩ := h
  · obtain ⟨hphase, hcert⟩ := certified_of_verifyCombQC hqc
    rw [sys.isTEE_config, decide_eq_true_eq] at htee
    exact ⟨hphase, htee, hcert⟩
  · obtain ⟨hphase, hcert⟩ := certified_of_verifyCombQC hqc
    exact absurd hphase (hcert.phase_ne hst)

theorem System.Reachable.justified (h : sys.Reachable st) (q : PID) :
    ∀ e ∈ (st.replica q).executed, Justified sys st e := by
  refine h.keeps (J := fun st => ∀ e ∈ (st.replica q).executed, Justified sys st e) nofun ?_
  intro st st' hreach hmicro hst e he
  rcases hmicro.executed q with ⟨hsame, -⟩ | ⟨data, block, hqc, -, -, hhash, hcommit⟩
  · exact (hst e (hsame ▸ he)).micro hmicro
  · rw [hcommit] at he
    rcases List.mem_append.mp he with he | he
    · exact (hst e he).micro hmicro
    · rw [List.mem_singleton.mp he]
      obtain ⟨hphase, hleader, hcert⟩ := hqc.justified hreach
      exact ⟨hphase, hleader, hcert.micro hmicro, hhash⟩

/-- The views that have been executed are marked. -/
structure Marked (s : State) : Prop where
  nodup : (s.executed.map fun e => e.data.propv).Nodup
  mem : ∀ e ∈ s.executed, e.data.propv ∈ s.processedCommit

theorem System.Reachable.marked (h : sys.Reachable st) (q : PID) : Marked (st.replica q) := by
  refine h.keeps (J := fun st => Marked (st.replica q)) ⟨List.nodup_nil, nofun⟩ ?_
  intro st st' _ hmicro hst
  rcases hmicro.executed q with ⟨hsame, hmarks⟩ | ⟨data, block, -, hnew, -, -, hcommit⟩
  · exact ⟨hsame ▸ hst.nodup, fun e he => hmarks ▸ hst.mem e (hsame ▸ he)⟩
  · rw [hcommit]
    constructor
    · show (((st.replica q).executed ++ [_]).map _).Nodup
      rw [List.map_append, List.nodup_append]
      refine ⟨hst.nodup, List.nodup_singleton _, fun v hv w hw => ?_⟩
      obtain ⟨e, he, rfl⟩ := List.mem_map.mp hv
      rw [List.map_singleton, List.mem_singleton] at hw
      rintro rfl
      exact hnew (hw ▸ hst.mem e he)
    · intro e he
      rcases List.mem_append.mp he with he | he
      · exact mem_viewInsert_of_mem _ (hst.mem e he)
      · rw [List.mem_singleton.mp he]
        exact mem_viewInsert _ _

/-- **Executions are certified**, whatever `DAMYSUS_*` calls the Byzantine hosts make: what a replica executes,
`f+1` enclaves have signed in the phase `prepare`, under a leader that is a TEE node, and it executes
nothing twice in one view. -/
theorem damysus_executions_justified (sys : System) (acts : List Action) (p : PID) :
    (∀ e ∈ ((sys.run acts).replica p).executed, Justified sys (sys.run acts) e) ∧
      (((sys.run acts).replica p).executed.map fun e => e.data.propv).Nodup :=
  ⟨(run_reachable sys acts).justified p, ((run_reachable sys acts).marked p).nodup⟩

/-- **Agreement in a view**, whatever `DAMYSUS_*` calls the Byzantine hosts make: what two replicas execute in
one view is the same. -/
theorem damysus_agreement (sys : System) (acts : List Action) (hwrap : (sys.run acts).NoWrap sys)
    {p p' : PID} {e e' : Execution} (he : e ∈ ((sys.run acts).replica p).executed)
    (he' : e' ∈ ((sys.run acts).replica p').executed) (hview : e.data.propv = e'.data.propv) :
    e.data = e'.data ∧ (e.block.hash sys.sha256).hash = (e'.block.hash sys.sha256).hash := by
  have hreach := run_reachable sys acts
  have hjust := hreach.justified p e he
  have hjust' := hreach.justified p' e' he'
  have hdata : e.data = e'.data :=
    hjust.cert.unique hreach hwrap hjust'.cert hview (hjust.phase.trans hjust'.phase.symm)
  refine ⟨hdata, ?_⟩
  rw [hjust.hash, hjust'.hash, hdata]

/-! ### Two views -/

section TwoViews

/-- SHA-256 of the text of `emptyBlock 0`. -/
def zeroBlockDigest : Digest :=
  #v[237, 39, 1, 170, 91, 140, 40, 155, 0, 79, 108, 232, 81, 83, 245, 42, 65, 49, 77, 183, 211, 79, 247,
    148, 45, 37, 40, 52, 105, 0, 170, 15]

/-- SHA-256 on the texts of the first two blocks. -/
def firstBlocksSha (t : Text) : Digest :=
  if t = (emptyBlock 0).toText then zeroBlockDigest
  else if t = (emptyBlock 11).toText then emptyBlockDigest
  else Vector.replicate _ 255

/-- Three replicas, all of them TEE nodes. -/
def threeReplicas (byz : Finset PID) : System where
  f := 1
  f_pos := Nat.one_pos
  tee := {0, 1, 2}
  tee_sub := by decide
  byz := byz
  sha256 := firstBlocksSha
  maxViews := 0
  fixedLeaderMode := false
  fixedLeader := 0

/-- What an enclave that has stored nothing signs first in a view. -/
def newViewIn (view : View) : RData := ⟨noHash, view, newHash, 0, Phase1.newview.byte⟩

/-- What the enclaves sign to vote for a block without transactions. -/
def voteFor (view : View) (id : ℕ) : RData :=
  ⟨(emptyBlock id).hash firstBlocksSha, view, newHash, 0, Phase1.prepare.byte⟩

/-- The view in which replica 0 and replica 1 follow the leader among them, from the new-view of the
other one on. -/
def viewActions (view : View) (leader backup : PID) (id : ℕ) : List Action :=
  [.input leader 9 (.peer (.newview ⟨newViewIn view, idealSign backup⟩)),
    .input backup 9 (.peer (.ldrprepare
      ⟨⟨⟨true, view, 0, newHash, 2⟩, idealSign leader⟩, emptyBlock id, idealSign leader⟩)),
    .input leader 9 (.peer (.prepare ⟨voteFor view id, .one (idealSign backup)⟩)),
    .input backup 9 (.peer (.prepare ⟨voteFor view id, .ofList [idealSign 0, idealSign 1]⟩))]

/-- The first two views; the host of replica 2 only calls its enclave. -/
def twoViewsActions : List Action :=
  [.input 0 9 (.start 0), .input 1 9 (.start 0), .ecall 2 .sign] ++ viewActions 0 0 1 0
    ++ viewActions 1 1 0 11

/-- Replicas 0 and 1 agree in view 1. -/
theorem damysus_agreement_two_views :
    let st := (threeReplicas {2}).run twoViewsActions
    ∃ e ∈ (st.replica 0).executed, ∃ e' ∈ (st.replica 1).executed,
      e.data.propv = 1 ∧ e'.data.propv = 1 ∧ e.data = e'.data := by
  have hfirst : ∃ e ∈ (((threeReplicas {2}).run twoViewsActions).replica 0).executed,
      e.data.propv = 1 := by decide +kernel
  have hsecond : ∃ e ∈ (((threeReplicas {2}).run twoViewsActions).replica 1).executed,
      e.data.propv = 1 := by decide +kernel
  obtain ⟨e, he, hview⟩ := hfirst
  obtain ⟨e', he', hview'⟩ := hsecond
  exact ⟨e, he, e', he', hview, hview', (damysus_agreement (threeReplicas {2}) twoViewsActions
    (by decide +kernel) he he' (hview.trans hview'.symm)).1⟩

end TwoViews

end Raftel.Damysus
