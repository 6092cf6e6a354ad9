import Raftel.Equiv.Handler
import Raftel.Equiv.Runs
import Raftel.Protocol

/-!
# The system refines the protocol

Every run of the system, handlers and all, is a sequence of acts of the protocol: `run_reachable`.  A
correct replica's reaction to an input is one act for each call of its component and each execution
(`react_keeps`), made with the signatures that exist at that moment.
-/

namespace Raftel

/-- What the protocol sees of a replica. -/
def Replica.party (r : Replica) : Party := ⟨r.host.calls, r.host.tc, r.forged, r.host.executed⟩

def SystemState.net (st : SystemState) : Net := fun p => (st.replica p).party

theorem SystemState.mem_calls_net {st : SystemState} {p : PID} {r : CallRecord}
    (h : r ∈ (st.replica p).host.calls) : r ∈ (st.net p).calls := h

theorem SystemState.net_update (st : SystemState) (p : PID) (r : Replica) :
    (st.update p r).net = Function.update st.net p r.party := by
  funext q
  show (Function.update st.replica p r q).party = Function.update st.net p r.party q
  by_cases hq : q = p
  · subst hq
    rw [Function.update_self, Function.update_self]
  · rw [Function.update_of_ne hq, Function.update_of_ne hq]
    rfl

/-! ### The tables of nodes -/

theorem System.lookup_nodes (sys : System) (p : PID) :
    sys.nodes.lookup p = if p < sys.n then some ⟨(), decide (p ∈ sys.tee)⟩ else none := by
  unfold System.nodes
  rw [lookup_foldl_insert, AList.lookup_empty]
  simp only [List.mem_range]

theorem System.mem_keys_nodes (sys : System) (p : PID) : p ∈ sys.nodes.keys ↔ p < sys.n := by
  rw [← AList.mem_keys, ← AList.lookup_isSome, sys.lookup_nodes]
  split <;> simp_all

theorem System.isTEE_config (sys : System) (p j : PID) :
    (sys.config p).isTEE j = decide (j < sys.n ∧ j ∈ sys.tee) := by
  show (sys.nodes.lookup j).any (·.isTEE) = _
  rw [sys.lookup_nodes]
  split <;> simp_all

/-! ### Environments -/

section Env

variable {sys : System} {net : Net} {cr : Crypto Unit}

/-- The handlers verify certificates as the protocol does. -/
theorem config_env_le (p : PID) (hsha : cr.sha256 = sys.sha256)
    (hver : ∀ s key t, cr.verifySign s key t = true → t ∈ (net s.signer).signed) :
    ((sys.config p).env cr).Le (sys.env net) := by
  refine ⟨rfl, rfl, ?_, hsha.symm, ?_⟩
  · funext j
    show _ = (sys.nodes.lookup j).map HostNode.isTEE
    rw [sys.lookup_nodes]
    show (if j < sys.n then _ else _) = _
    split <;> rfl
  · rintro s t ⟨nd, -, h⟩
    exact hver s _ t h

/-- Both kinds of components check as the protocol does. -/
theorem component_env_le (p : PID) (hsha : cr.sha256 = sys.sha256)
    (hver : ∀ s key t, cr.verifySign s key t = true → t ∈ (net s.signer).signed) :
    ((sys.config p).component.env cr).Le (sys.env net) := by
  unfold HandlerConfig.component
  split
  · refine ⟨rfl, rfl, ?_, hsha.symm, ?_⟩
    · funext j
      show _ = AList.lookup j ((sys.nodes.keys.map fun j => ⟨j, (sys.config p).isTEE j⟩).foldl
        (fun (m : StdMap PID Bool) (nd : NodeInfo) => m.insert nd.pid nd.isTEE) ∅)
      rw [List.foldl_map, lookup_foldl_insert, sys.isTEE_config]
      simp only [sys.mem_keys_nodes]
      show (if j < sys.n then _ else _) = _
      split <;> simp_all
    · rintro s t ⟨-, key, -, h⟩
      exact hver s key t h
  · exact config_env_le p hsha hver

end Env

/-! ### Steps -/

/-- The state of the protocol while replica `p` reacts to an input. -/
def SystemState.netWith (st : SystemState) (p : PID) (s : HandlerState) : Net :=
  Function.update st.net p (Replica.party { st.replica p with host := s })

theorem System.verify_oracle {sys : System} {st : SystemState} {p : PID} {s : HandlerState}
    (sg : Sign) (key : Unit) (t : SignedText)
    (h : ((sys.oracle st p).crypto s.calls).verifySign sg key t = true) :
    t ∈ (st.netWith p s sg.signer).signed := by
  have hmem : t ∈ if sg.signer = p then s.calls.flatMap CallRecord.signed ++ (st.replica p).forged
      else (st.replica sg.signer).signed := of_decide_eq_true h
  unfold SystemState.netWith
  by_cases hp : sg.signer = p
  · rw [if_pos hp] at hmem
    rw [hp, Function.update_self]
    exact hmem
  · rw [if_neg hp] at hmem
    rw [Function.update_of_ne hp]
    exact hmem

/-- A call of the component of `p` is an act. -/
theorem micro_called {sys : System} (st : SystemState) {p : PID} (hp : sys.Intact p)
    (s : HandlerState) (c : Call) :
    Micro sys (st.netWith p s)
      (st.netWith p (s.called (sys.config p) (sys.oracle st p) c).2) := by
  have hvalid : CallRecord.Valid (sys.env (st.netWith p s))
      ⟨s.tc, c, (s.called (sys.config p) (sys.oracle st p) c).1,
        (s.called (sys.config p) (sys.oracle st p) c).2.tc, s.blocks.lookup s.tc.view⟩ :=
    CallRecord.Valid.mono (component_env_le p rfl fun sg key t => System.verify_oracle sg key t)
      ((sys.config p).component.call_outcome _ s.tc c)
  have hself : st.netWith p s p = Replica.party { st.replica p with host := s } :=
    Function.update_self ..
  have hcall := Micro.call hp (by rw [hself]; rfl) hvalid
  rw [hself] at hcall
  unfold SystemState.netWith at hcall ⊢
  rw [Function.update_idem] at hcall
  exact hcall

/-- Atoms are acts. -/
theorem reachable_atom {sys : System} {st : SystemState} {p : PID} (hp : sys.Correct p)
    (s s' : HandlerState) (hatom : Atom (sys.config p) (sys.oracle st p) s s')
    (hs : sys.Reachable (st.netWith p s)) : sys.Reachable (st.netWith p s') := by
  have hintact : sys.Intact p := ⟨hp.1, Or.inr hp.2⟩
  cases hatom with
  | call hc => exact hs.tail (micro_called st hintact s _)
  | @prepare block acc nvs hview =>
    have hstep := hs.tail (micro_called st hintact s (.prepare block acc nvs))
    unfold HandlerState.preparedWith
    dsimp only
    -- the stored block is no part of the protocol's state
    split
    · exact hstep
    · exact hstep
  | @execute data block hexec hblock hhash =>
    obtain ⟨-, signs, hcert, hfinal⟩ := hexec
    have hle : ((sys.config p).env ((sys.oracle st p).crypto s.calls)).Le
        (sys.env (st.netWith p s)) :=
      config_env_le p rfl fun sg key t => System.verify_oracle sg key t
    have hjust : Execution.Justified (sys.env (st.netWith p s))
        ⟨data, block, ((sys.config p).leaderOf s.skippedLeaders s.view).1⟩ := by
      refine ⟨⟨signs, hcert.mono hle⟩, hfinal.imp_left fun h => ⟨h.1, ?_⟩, hhash⟩
      rw [hle.isTEE]
      exact HandlerConfig.isTEE_eq_true.mp h.2
    have hself : st.netWith p s p = Replica.party { st.replica p with host := s } :=
      Function.update_self ..
    have hstep := Micro.execute hp hjust
    rw [hself] at hstep
    unfold SystemState.netWith at hstep hs ⊢
    rw [Function.update_idem] at hstep
    exact hs.tail hstep
  | frame tc calls blocks executed =>
    have hsame : Replica.party { st.replica p with host := s' } =
        Replica.party { st.replica p with host := s } := by
      simp only [Replica.party, tc, calls, executed]
    unfold SystemState.netWith at hs ⊢
    rw [hsame]
    exact hs

theorem SystemState.netWith_self (st : SystemState) (p : PID) :
    st.netWith p (st.replica p).host = st.net :=
  Function.update_eq_self p st.net

/-- **Refinement.**  Every state that the system reaches is one that the acts of the protocol reach. -/
theorem run_reachable (sys : System) (acts : List Action) : sys.Reachable (sys.run acts).net := by
  have hstep : ∀ (acts : List Action) (st : SystemState), sys.Reachable st.net →
      sys.Reachable (acts.foldl sys.step st).net := by
    intro acts
    induction acts with
    | nil => exact fun _ h => h
    | cons act acts ih =>
      intro st hst
      refine ih _ ?_
      cases act with
      | input p fuel i =>
        simp only [System.step]
        split
        · next hp =>
          rw [SystemState.net_update]
          refine react_keeps (I := fun s => sys.Reachable (st.netWith p s)) (reachable_atom hp)
            fuel i ?_
          rw [SystemState.netWith_self]
          exact hst
        · exact hst
      | ecall p c =>
        simp only [System.step]
        split
        · next hp =>
          rw [SystemState.net_update]
          have hintact : sys.Intact p := ⟨Finset.mem_range.mp (sys.tee_sub hp.2), Or.inl hp.2⟩
          have hmicro := micro_called st hintact (st.replica p).host c
          rw [SystemState.netWith_self] at hmicro
          exact hst.tail hmicro
        · exact hst
      | forge p t =>
        simp only [System.step]
        split
        · next hp =>
          rw [SystemState.net_update]
          exact hst.tail (Micro.forge hp)
        · exact hst
  exact hstep acts _ Relation.ReflTransGen.refl

/-! ### Invariants of a replica -/

/-- What holds of a replica at first, what its atoms keep and what bare calls of its component keep
holds of it in every run. -/
theorem replica_keeps {sys : System} {I : HandlerState → Prop} (hinit : I .init)
    (hatom : ∀ p o s s', Atom (sys.config p) o s s' → I s → I s')
    (hcall : ∀ p o s c, I s → I (s.called (sys.config p) o c).2) (acts : List Action) (p : PID) :
    I ((sys.run acts).replica p).host := by
  have hstep : ∀ (st : SystemState) (act : Action), (∀ q, I (st.replica q).host) →
      ∀ q, I ((sys.step st act).replica q).host := by
    intro st act hst
    have hupdate : ∀ q r, I r.host → ∀ q', I ((st.update q r).replica q').host := by
      intro q r hr q'
      show I (Function.update st.replica q r q').host
      by_cases hq : q' = q
      · rw [hq, Function.update_self]
        exact hr
      · rw [Function.update_of_ne hq]
        exact hst q'
    cases act with
    | input q fuel i =>
      simp only [System.step]
      split
      · exact hupdate q _ (react_keeps (hatom q _) fuel i (hst q))
      · exact hst
    | ecall q c =>
      simp only [System.step]
      split
      · exact hupdate q _ (hcall q _ _ c (hst q))
      · exact hst
    | forge q t =>
      simp only [System.step]
      split
      · exact hupdate q _ (hst q)
      · exact hst
  have hrun : ∀ (acts : List Action) (st : SystemState), (∀ q, I (st.replica q).host) →
      ∀ q, I ((acts.foldl sys.step st).replica q).host := by
    intro acts
    induction acts with
    | nil => exact fun _ h => h
    | cons act acts ih => exact fun st hst => ih _ (hstep st act hst)
  exact hrun acts _ (fun _ => hinit) p

/-- A correct replica of a system goes through a run of its own, with the inputs of the system's
run. -/
theorem run_hostRunWhere {sys : System} {p : PID} (hp : sys.Correct p)
    {ok : HandlerState → Input → Prop} (acts : List Action)
    (hok : ∀ l fuel i l', acts = l ++ .input p fuel i :: l' → ok ((sys.run l).replica p).host i) :
    HostRunWhere (sys.config p) sys.sha256 ok ((sys.run acts).replica p).host := by
  induction acts using List.reverseRecOn with
  | nil => exact .init
  | append_singleton acts act ih =>
    have hrun : sys.run (acts ++ [act]) = sys.step (sys.run acts) act := List.foldl_concat _ _ _ _
    have hs : HostRunWhere (sys.config p) sys.sha256 ok ((sys.run acts).replica p).host := by
      refine ih fun l fuel i l' heq => hok l fuel i (l' ++ [act]) ?_
      rw [heq, List.append_assoc, List.cons_append]
    -- what happens to another replica does not matter
    have hother : ∀ q r, q ≠ p → (((sys.run acts).update q r).replica p).host =
        ((sys.run acts).replica p).host := by
      intro q r hne
      show (Function.update (sys.run acts).replica q r p).host = _
      rw [Function.update_of_ne hne.symm]
    rw [hrun]
    cases act with
    | input q fuel i =>
      simp only [System.step]
      split
      · by_cases hq : q = p
        · subst hq
          show HostRunWhere _ _ _ (Function.update (sys.run acts).replica q _ q).host
          rw [Function.update_self]
          exact hs.step rfl fuel (hok acts fuel i [] rfl)
        · rw [hother q _ hq]
          exact hs
      · exact hs
    | ecall q c =>
      simp only [System.step]
      split
      · next hbyz =>
        have hq : q ≠ p := by
          rintro rfl
          exact hp.2 hbyz.1
        rw [hother q _ hq]
        exact hs
      · exact hs
    | forge q t =>
      simp only [System.step]
      split
      · next hbyz =>
        have hq : q ≠ p := by
          rintro rfl
          exact hp.2 hbyz.1
        rw [hother q _ hq]
        exact hs
      · exact hs

end Raftel
