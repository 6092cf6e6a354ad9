import Raftel.Equiv.DamysusTriples
import Raftel.Safety.Certificates

/-!
# The acts of the Damysus system

Every run of the system is a sequence of acts: an atom of a correct replica, or a call of the enclave of
a Byzantine host (`run_reachable`).  `Reachable.keeps` is the rule for what every act keeps.
-/

namespace Raftel.Damysus

/-! ### Configurations -/

namespace System

variable (sys : System)

theorem lookup_nodes (p : PID) :
    sys.nodes.lookup p = if p < sys.n then some ⟨(), decide (p ∈ sys.tee)⟩ else none := by
  unfold nodes
  rw [lookup_foldl_insert, AList.lookup_empty]
  simp only [List.mem_range]

theorem isTEE_config (p j : PID) :
    (sys.config p).isTEE j = decide (j < sys.n ∧ j ∈ sys.tee) := by
  show (sys.nodes.lookup j).any (·.isTEE) = _
  rw [sys.lookup_nodes]
  split <;> simp_all

/-- Both kinds of certificates have `f+1` signatures. -/
theorem tqsize_config (p : PID) : (sys.config p).tqsize = sys.f + 1 := by
  have hcard : sys.tee.card ≤ 2 * sys.f + 1 := by
    simpa using Finset.card_le_card sys.tee_sub
  show max (sys.tee.card / 2 + 1) (sys.f + 1) = _
  omega

theorem qsize_config (p : PID) : qsize (sys.config p) = sys.f + 1 := by
  show 2 * sys.f + 1 - sys.f = _
  omega

end System

/-! ### Signatures -/

section Signatures

variable {sys : System} {st : SystemState} {p : PID}

/-- A signature verifies only if its signer has signed. -/
theorem System.verify_oracle {s : Sign} {key : Unit} {t : SignedText}
    (h : ((sys.oracle st p).crypto (st.replica p).calls).verifySign s key t = true) :
    t ∈ (st.replica s.signer).signed := by
  have hmem : t ∈ if s.signer = p then (st.replica p).calls.flatMap CallRecord.signed
      else (st.replica s.signer).signed := of_decide_eq_true h
  by_cases hp : s.signer = p
  · rw [if_pos hp] at hmem
    rw [hp]
    exact hmem
  · rwa [if_neg hp] at hmem

theorem System.verifies_oracle {s : Sign} {t : SignedText}
    (h : Verifies ((sys.oracle st p).crypto (st.replica p).calls) s t) :
    t ∈ (st.replica s.signer).signed :=
  h.elim fun _ h => System.verify_oracle h

/-- What the handlers verify of a set of signatures. -/
theorem verifies_of_verifyCombSigns {Key : Type} {cfg : HandlerConfig Key} {cr : Crypto Key} {data : RData}
    {signs : Signs} {size : ℕ} {teeOnly : Bool}
    (h : verifyCombSigns cfg cr data signs size teeOnly = true) :
    signs.entries.length = size ∧ (signs.entries.map Sign.signer).Nodup ∧
      ∀ s ∈ signs.entries, (cfg.nodes.lookup s.signer).isSome ∧ Verifies cr s (.rdata data) := by
  unfold verifyCombSigns at h
  split at h
  · cases h
  next hsize =>
  split at h
  · cases h
  next allTEE hr =>
  obtain ⟨hnodup, -, hknown, -⟩ := hostSignersFrom_eq_some.mp hr
  split at h
  · cases h
  refine ⟨?_, hnodup, fun s hs => ⟨(hknown s hs).2, ?_⟩⟩
  · rw [Signs.length_entries (by omega)]
    omega
  · obtain ⟨nd, -, hver⟩ := Signs.verify_eq_true.mp h s hs
    exact ⟨nd.pub, hver⟩

/-- `f+1` different replicas have signed the data. -/
def Certified (sys : System) (st : SystemState) (data : RData) : Prop :=
  ∃ S ⊆ Finset.range sys.n, S.card = sys.f + 1 ∧ ∀ q ∈ S, .rdata data ∈ (st.replica q).signed

/-- The certificates that the handlers accept. -/
theorem certified_of_verifyCombQC {data : RData} {signs : Signs} {ph : Phase1}
    (h : verifyCombQC (sys.config p) ((sys.oracle st p).crypto (st.replica p).calls) data signs ph =
      true) : data.phase = ph.byte ∧ Certified sys st data := by
  refine ⟨phase_of_verifyCombQC h, signersOf signs.entries, ?_⟩
  unfold verifyCombQC at h
  rw [Bool.and_eq_true, Bool.or_eq_true, Bool.and_eq_true, Bool.and_eq_true, sys.tqsize_config,
    sys.qsize_config] at h
  obtain ⟨hlen, hnodup, hall⟩ : signs.entries.length = sys.f + 1 ∧
      (signs.entries.map Sign.signer).Nodup ∧ ∀ s ∈ signs.entries,
        ((sys.config p).nodes.lookup s.signer).isSome ∧
          Verifies ((sys.oracle st p).crypto (st.replica p).calls) s (.rdata data) := by
    rcases h.2 with h | h
    · exact verifies_of_verifyCombSigns h.2
    · exact verifies_of_verifyCombSigns h.2
  refine ⟨fun q hq => ?_, ?_, fun q hq => ?_⟩
  · obtain ⟨s, hs, rfl⟩ := mem_signersOf.mp hq
    have hknown : (sys.nodes.lookup s.signer).isSome := (hall s hs).1
    rw [sys.lookup_nodes] at hknown
    split at hknown
    · next hlt => exact Finset.mem_range.mpr hlt
    · cases hknown
  · rw [signersOf, List.toFinset_card_of_nodup hnodup, List.length_map, hlen]
  · obtain ⟨s, hs, rfl⟩ := mem_signersOf.mp hq
    exact System.verifies_oracle (hall s hs).2

/-- The new-views that the handlers accept. -/
theorem signed_of_verifyNewViewComb {msg : MsgNewViewComb}
    (h : verifyNewViewComb (sys.config p) ((sys.oracle st p).crypto (st.replica p).calls) msg = true) :
    .rdata msg.data ∈ (st.replica msg.sign.signer).signed := by
  unfold verifyNewViewComb at h
  rw [Bool.and_eq_true] at h
  obtain ⟨hlen, -, hall⟩ := verifies_of_verifyCombSigns h.2
  have hentries : (Signs.one msg.sign).entries = [msg.sign] := rfl
  exact System.verifies_oracle (hall msg.sign (hentries ▸ List.mem_singleton_self _)).2

end Signatures

/-! ### Acts -/

/-- One act of the system. -/
inductive Micro (sys : System) (st : SystemState) : SystemState → Prop
  | atom {p : PID} {s : State} (hp : sys.Correct p)
      (h : Atom (sys.config p) (sys.oracle st p) (st.replica p) s) : Micro sys st (st.update p s)
  | ecall {p : PID} {c : Call} (hp : p < sys.n ∧ p ∈ sys.byz) :
      Micro sys st (st.update p ((st.replica p).called (sys.config p) (sys.oracle st p) c).2)

/-- The states that the acts reach. -/
def System.Reachable (sys : System) (st : SystemState) : Prop :=
  Relation.ReflTransGen (Micro sys) .init st

/-- The rule for what every act keeps. -/
theorem System.Reachable.keeps {sys : System} {st : SystemState} {J : SystemState → Prop}
    (h : sys.Reachable st) (hinit : J .init)
    (hstep : ∀ st st', sys.Reachable st → Micro sys st st' → J st → J st') : J st := by
  induction h with
  | refl => exact hinit
  | tail hst hmicro ih => exact hstep _ _ hst hmicro ih

section Update

variable (st : SystemState) (p : PID) (s : State)

@[simp] theorem SystemState.replica_update_self : (st.update p s).replica p = s :=
  Function.update_self ..

theorem SystemState.replica_update_of_ne {q : PID} (h : q ≠ p) :
    (st.update p s).replica q = st.replica q :=
  Function.update_of_ne h ..

theorem SystemState.update_self : st.update p (st.replica p) = st :=
  congrArg SystemState.mk (Function.update_eq_self p st.replica)

theorem SystemState.update_idem (s' : State) : (st.update p s).update p s' = st.update p s' :=
  congrArg SystemState.mk (Function.update_idem ..)

/-- What a replica sees of the others does not depend on its own state. -/
theorem System.oracle_update (sys : System) : sys.oracle (st.update p s) p = sys.oracle st p := by
  unfold System.oracle
  congr 1
  funext calls sg key t
  by_cases h : sg.signer = p
  · rw [if_pos h, if_pos h]
  · rw [if_neg h, if_neg h, st.replica_update_of_ne p s h]

end Update

variable {sys : System} {st st' : SystemState}

/-- What is kept for later views. -/
theorem System.Reachable.kept (h : sys.Reachable st) (p : PID) : Kept (st.replica p) := by
  refine h.keeps (J := fun st => ∀ p, Kept (st.replica p)) (fun _ => ⟨nofun, nofun⟩) ?_ p
  intro st st' _ hmicro hst q
  cases hmicro with
  | @atom p s hp hatom =>
    by_cases hq : q = p
    · subst hq
      rw [st.replica_update_self]
      exact hatom.kept (hst q)
    · rw [st.replica_update_of_ne p s hq]
      exact hst q
  | @ecall p c hp =>
    by_cases hq : q = p
    · subst hq
      rw [st.replica_update_self]
      exact ⟨(hst q).proposals, (hst q).qcs⟩
    · rw [st.replica_update_of_ne p _ hq]
      exact hst q

/-- The reaction of a correct replica is made of acts. -/
theorem reachable_react {p : PID} (hp : sys.Correct p) (fuel : ℕ) (i : Input) (hst : sys.Reachable st) :
    sys.Reachable (st.update p ((st.replica p).react (sys.config p) (sys.oracle st p) fuel i)) := by
  have hkeeps : KeepsAtoms (sys.config p) (sys.oracle st p)
      fun s => sys.Reachable (st.update p s) := by
    constructor
    · intro s s' hatom hs
      rw [← st.update_idem p s s']
      refine hs.tail (.atom hp ?_)
      rw [sys.oracle_update, st.replica_update_self]
      exact hatom
    · intro s hs
      have hkept := hs.kept p
      rwa [st.replica_update_self] at hkept
  refine react_keeps hkeeps fuel i ?_
  rwa [st.update_self]

/-- **Refinement.**  Every state that the system reaches is one that the acts reach. -/
theorem run_reachable (sys : System) (acts : List Action) : sys.Reachable (sys.run acts) := by
  induction acts using List.reverseRecOn with
  | nil => exact Relation.ReflTransGen.refl
  | append_singleton acts act ih =>
    have hrun : sys.run (acts ++ [act]) = sys.step (sys.run acts) act := List.foldl_concat _ _ _ _
    rw [hrun]
    cases act with
    | input p fuel i =>
      simp only [System.step]
      split
      · next hp => exact reachable_react hp fuel i ih
      · exact ih
    | ecall p c =>
      simp only [System.step]
      split
      · next hp => exact ih.tail (.ecall hp)
      · exact ih

/-! ### What an act does to the enclaves -/

/-- What a correct host checks before it makes a call. -/
def Guarded {Key : Type} (cfg : HandlerConfig Key) (s : State) : Call → Prop
  | .store just => just.rdata.phase = Phase1.prepare.byte → cfg.isTEE (s.leader cfg) = false
  | .accumSp just => ∃ m, HasNewView s.log m ∧ just.rdata = m.data
  | _ => True

/-- An atom makes at most one call. -/
theorem Atom.calls {Key : Type} {cfg : HandlerConfig Key} {o : Oracle Key} {s s' : State}
    (h : Atom cfg o s s') :
    (s'.tee = s.tee ∧ s'.calls = s.calls) ∨
      ∃ c, Guarded cfg s c ∧ s'.tee = (s.called cfg o c).2.tee ∧
        s'.calls = (s.called cfg o c).2.calls := by
  cases h with
  | frame h => exact Or.inl ⟨h.tee, h.calls⟩
  | sign => exact Or.inr ⟨.sign, trivial, rfl, rfl⟩
  | accum => exact Or.inr ⟨.accum _, trivial, rfl, rfl⟩
  | accumSp hlog hdata => exact Or.inr ⟨.accumSp _, ⟨_, hlog, hdata⟩, rfl, rfl⟩
  | @prepare block acc =>
    refine Or.inr ⟨.prepare (block.hash o.sha256) acc, trivial, ?_⟩
    unfold State.preparedWith
    dsimp only
    split <;> exact ⟨rfl, rfl⟩
  | store hleader => exact Or.inr ⟨.store _, hleader, rfl, rfl⟩
  | logNewView => exact Or.inl ⟨rfl, rfl⟩
  | logProposal => exact Or.inl ⟨rfl, rfl⟩
  | keepQC => exact Or.inl ⟨rfl, rfl⟩
  | execute => exact Or.inl ⟨rfl, rfl⟩

/-- So does an act; a Byzantine host checks nothing before it. -/
theorem Micro.calls (h : Micro sys st st') (q : PID) :
    ((st'.replica q).tee = (st.replica q).tee ∧ (st'.replica q).calls = (st.replica q).calls) ∨
      q < sys.n ∧ ∃ c, (q ∉ sys.byz → Guarded (sys.config q) (st.replica q) c) ∧
        (st'.replica q).tee = ((st.replica q).called (sys.config q) (sys.oracle st q) c).2.tee ∧
        (st'.replica q).calls = ((st.replica q).called (sys.config q) (sys.oracle st q) c).2.calls := by
  cases h with
  | @atom p s hp hatom =>
    by_cases hq : q = p
    · subst hq
      rw [st.replica_update_self]
      refine hatom.calls.imp_right fun ⟨c, hguard, hcall⟩ => ⟨hp.1, c, fun _ => hguard, hcall⟩
    · rw [st.replica_update_of_ne p s hq]
      exact Or.inl ⟨rfl, rfl⟩
  | @ecall p c hp =>
    by_cases hq : q = p
    · subst hq
      rw [st.replica_update_self]
      exact Or.inr ⟨hp.1, c, fun hcorrect => absurd hp.2 hcorrect, rfl, rfl⟩
    · rw [st.replica_update_of_ne p _ hq]
      exact Or.inl ⟨rfl, rfl⟩

/-- What has been signed stays signed. -/
theorem Micro.signed (h : Micro sys st st') {q : PID} {t : SignedText}
    (ht : t ∈ (st.replica q).signed) : t ∈ (st'.replica q).signed := by
  unfold State.signed at ht ⊢
  rcases h.calls q with ⟨-, hcalls⟩ | ⟨-, c, -, -, hcalls⟩
  · rwa [hcalls]
  · rw [hcalls]
    exact List.mem_flatMap.mpr ((List.mem_flatMap.mp ht).imp fun r hr =>
      ⟨List.mem_append_left _ hr.1, hr.2⟩)

theorem Certified.micro {data : RData} (h : Certified sys st data) (hmicro : Micro sys st st') :
    Certified sys st' data := by
  obtain ⟨S, hsub, hcard, hsigned⟩ := h
  exact ⟨S, hsub, hcard, fun q hq => hmicro.signed (hsigned q hq)⟩

/-- The enclaves go through histories of their own, also at a Byzantine host. -/
theorem System.Reachable.history (h : sys.Reachable st) (q : PID) :
    History (sys.f + 1) (st.replica q).calls (st.replica q).tee := by
  refine h.keeps (J := fun st => History (sys.f + 1) (st.replica q).calls (st.replica q).tee) .nil ?_
  intro st st' _ hmicro hst
  rcases hmicro.calls q with ⟨htee, hcalls⟩ | ⟨-, c, -, htee, hcalls⟩
  · rwa [htee, hcalls]
  · rw [htee, hcalls]
    refine hst.snoc rfl ⟨(sys.oracle st q).crypto (st.replica q).calls, ?_⟩
    have hout := call_outcome ((sys.oracle st q).crypto (st.replica q).calls)
      (enclave (sys.config q)) (st.replica q).tee c
    have hq : (enclave (sys.config q)).qsize = sys.f + 1 := sys.qsize_config q
    rwa [hq] at hout

end Raftel.Damysus
