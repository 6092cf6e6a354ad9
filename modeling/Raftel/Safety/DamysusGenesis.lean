import Raftel.Safety.DamysusCertificates

/-!
# Damysus with TEE nodes only never stores a block

The run script lists every node as a TEE node.  Then every leader is one, its `prepare` certificate is
final, and nobody gives it to an enclave: no enclave of a correct host stores a block
(`damysus_never_stores`), so its new-views name the genesis block for ever.  Without Byzantine hosts
every block that is executed extends the genesis block, also the second one and all that follow
(`damysus_extends_genesis`).  So the blocks of different views are not chained, whatever is executed
(`chainsBlocks_iff`).
-/

namespace Raftel.Damysus

variable {sys : System} {st st' : SystemState}

/-- Every replica is listed as a TEE node, and the fixed leader, if there is one, is a replica. -/
structure System.AllTEE (sys : System) : Prop where
  tee : sys.tee = Finset.range sys.n
  fixedLeader : sys.fixedLeaderMode = true → sys.fixedLeader < sys.n

/-- Every leader is a TEE node. -/
theorem System.AllTEE.isTEE_leader (h : sys.AllTEE) (p : PID) (s : State) :
    (sys.config p).isTEE (s.leader (sys.config p)) = true := by
  have hlt : s.leader (sys.config p) < sys.n := by
    cases hfixed : sys.fixedLeaderMode with
    | false => exact leaderOf_lt hfixed s.skippedLeaders s.view
    | true =>
      have hleader : s.leader (sys.config p) = sys.fixedLeader := by
        unfold State.leader leaderOf
        rw [if_pos (show (sys.config p).fixedLeaderMode = true from hfixed)]
        rfl
      rw [hleader]
      exact h.fixedLeader hfixed
  rw [sys.isTEE_config, decide_eq_true_eq]
  exact ⟨hlt, h.tee ▸ Finset.mem_range.mpr hlt⟩

/-! ### Nothing is stored -/

/-- The enclave has stored no block. -/
structure Unprepared (s : State) : Prop where
  preph : s.tee.preph = newHash
  prepv : s.tee.prepv = 0
  refused : ∀ r ∈ s.calls, ∀ just, r.call = .store just → r.rdata? = none

/-- Only an accepted `TEEstore` changes what is prepared, and it needs `prepare` data. -/
theorem call_prepared {Key : Type} (cr : Crypto Key) (vars : EnclaveVars Key) (st : PrepState) {c : Call}
    (hstore : ∀ just, c = .store just → just.rdata.phase ≠ Phase1.prepare.byte) :
    (call cr vars st c).2.preph = st.preph ∧ (call cr vars st c).2.prepv = st.prepv ∧
      ∀ just, c = .store just → (call cr vars st c).1.rdata? = none := by
  have hincrement : st.damysusIncrement.preph = st.preph ∧ st.damysusIncrement.prepv = st.prepv := by
    unfold PrepState.damysusIncrement
    cases st.phase <;> exact ⟨rfl, rfl⟩
  have hout := call_outcome cr vars st c
  cases hout with
  | accepted j hreply set acc =>
    cases acc with
    | sign data next =>
      rw [next]
      exact ⟨hincrement.1, hincrement.2, nofun⟩
    | prepare verified view size data next =>
      rw [next]
      exact ⟨hincrement.1, hincrement.2, nofun⟩
    | store size nodup verified view phase data next => exact absurd phase (hstore _ rfl)
  | refused j hreply set same =>
    rw [same, hreply]
    exact ⟨rfl, rfl, fun _ _ => by simp [Reply.rdata?, set]⟩
  | accum a hreply from' same =>
    rw [same, hreply]
    exact ⟨rfl, rfl, fun _ _ => rfl⟩

/-- Under a TEE leader a correct host has no `prepare` data stored. -/
theorem Guarded.phase_ne {p : PID} {s : State} {c : Call} (hall : sys.AllTEE)
    (h : Guarded (sys.config p) s c) {just : Just} (hc : c = .store just) :
    just.rdata.phase ≠ Phase1.prepare.byte := by
  subst hc
  intro hphase
  have hleader := h hphase
  rw [hall.isTEE_leader p s] at hleader
  cases hleader

theorem System.Reachable.unprepared (h : sys.Reachable st) (hall : sys.AllTEE) {p : PID}
    (hp : p ∉ sys.byz) : Unprepared (st.replica p) := by
  refine h.keeps (J := fun st => Unprepared (st.replica p)) ⟨rfl, rfl, fun _ hr => ?_⟩ ?_
  · exact absurd hr List.not_mem_nil
  intro st st' _ hmicro hst
  rcases hmicro.calls p with ⟨htee, hcalls⟩ | ⟨-, c, hguard, htee, hcalls⟩
  · exact ⟨htee ▸ hst.preph, htee ▸ hst.prepv, hcalls ▸ hst.refused⟩
  · obtain ⟨hpreph, hprepv, hrefused⟩ := call_prepared
      ((sys.oracle st p).crypto (st.replica p).calls) (enclave (sys.config p))
      (st.replica p).tee fun just hc => (hguard hp).phase_ne hall hc
    refine ⟨?_, ?_, fun r hr just hjust => ?_⟩
    · rw [htee]
      exact hpreph.trans hst.preph
    · rw [htee]
      exact hprepv.trans hst.prepv
    · rw [hcalls] at hr
      rcases List.mem_append.mp hr with hr | hr
      · exact hst.refused r hr just hjust
      · rw [List.mem_singleton] at hr
        subst hr
        exact hrefused just hjust

/-! ### Every block extends the genesis block -/

/-- The new-view or the proposal names the genesis block, or the accumulator picks it. -/
def FromGenesis : SignedText → Prop
  | .rdata rd => rd.justh = newHash ∧ rd.justv = 0
  | .accum a => a.hash = newHash ∧ a.prepv = 0

/-- Nothing in the system names another block than the genesis block as a parent. -/
structure Flat (sys : System) (st : SystemState) : Prop where
  signed : ∀ q, ∀ t ∈ (st.replica q).signed, FromGenesis t
  newviews : ∀ q m, HasNewView (st.replica q).log m → FromGenesis (.rdata m.data)
  blocks : ∀ q v block, (st.replica q).blocks.lookup v = some block →
    block.prevHash.hash = newHash.hash
  executed : ∀ q, ∀ e ∈ (st.replica q).executed, e.block.prevHash.hash = newHash.hash

theorem Flat.verified {p : PID} {s : Sign} {t : SignedText} (h : Flat sys st)
    (hver : Verifies ((sys.oracle st p).crypto (st.replica p).calls) s t) : FromGenesis t :=
  h.signed s.signer t (System.verifies_oracle hver)

/-- A call of a correct host signs nothing else. -/
theorem Flat.call (h : Flat sys st) {p : PID} (hprep : Unprepared (st.replica p)) {c : Call}
    (hguard : Guarded (sys.config p) (st.replica p) c) :
    ∀ t ∈ ((st.replica p).called (sys.config p) (sys.oracle st p) c).1.signed, FromGenesis t := by
  intro t ht
  have hout := call_outcome ((sys.oracle st p).crypto (st.replica p).calls)
    (enclave (sys.config p)) (st.replica p).tee c
  unfold State.called at ht
  cases hout with
  | accepted j hreply set acc =>
    dsimp only at ht
    rw [hreply, Reply.signed, if_pos set, List.mem_singleton] at ht
    rw [ht]
    cases acc with
    | sign data next =>
      rw [data]
      exact ⟨hprep.preph, hprep.prepv⟩
    | @prepare hash acc verified view size data next =>
      have hacc : FromGenesis (.accum acc.toAccumData) := h.verified verified
      rw [data]
      exact hacc
    | store size nodup verified view phase data next =>
      rw [data]
      exact ⟨rfl, rfl⟩
  | refused j hreply set same =>
    dsimp only at ht
    rw [hreply, Reply.signed, if_neg (by rw [set]; decide)] at ht
    exact absurd ht List.not_mem_nil
  | accum a hreply from' same =>
    dsimp only at ht
    rw [hreply, Reply.signed, List.mem_singleton] at ht
    rw [ht]
    cases c with
    | accum js =>
      rcases from' with ⟨hprepv, hhash⟩ | ⟨e, -, -, hver, hprepv, hhash⟩
      · exact ⟨hhash, hprepv⟩
      · have he : FromGenesis (.rdata e.rdata) := h.verified hver
        exact ⟨hhash.trans he.1, hprepv.trans he.2⟩
    | accumSp just =>
      -- the first new-view of the log that has been chosen
      obtain ⟨m, hlog, hdata⟩ := hguard
      have hm : FromGenesis (.rdata m.data) := h.newviews p m hlog
      rw [← hdata] at hm
      exact ⟨from'.2.trans hm.1, from'.1.trans hm.2⟩
    | sign => exact from'.elim
    | prepare => exact from'.elim
    | store => exact from'.elim

/-- An atom logs a new-view that has been verified, or none. -/
theorem Atom.hasNewView {Key : Type} {cfg : HandlerConfig Key} {o : Oracle Key} {s s' : State}
    (h : Atom cfg o s s') {m : MsgNewViewComb} (hm : HasNewView s'.log m) :
    HasNewView s.log m ∨ verifyNewViewComb cfg (o.crypto s.calls) m = true := by
  cases h with
  | frame h =>
    unfold HasNewView at hm
    rw [h.newviews, h.teeNewviews] at hm
    exact Or.inl hm
  | prepare =>
    unfold State.preparedWith at hm
    dsimp only at hm
    split at hm <;> exact Or.inl hm
  | @logNewView msg hverify =>
    obtain ⟨v, hm⟩ := hm
    unfold storeNewView at hm
    split at hm
    · refine hm.elim (fun hm => Or.inl ⟨v, Or.inl hm⟩) fun hm => ?_
      rcases ViewLog.mem_of_mem_store hm with hm | rfl
      · exact Or.inl ⟨v, Or.inr hm⟩
      · exact Or.inr hverify
    · refine hm.elim (fun hm => ?_) fun hm => Or.inl ⟨v, Or.inr hm⟩
      rcases ViewLog.mem_of_mem_store hm with hm | rfl
      · exact Or.inl ⟨v, Or.inl hm⟩
      · exact Or.inr hverify
  | sign => exact Or.inl hm
  | accum => exact Or.inl hm
  | accumSp => exact Or.inl hm
  | store => exact Or.inl hm
  | logProposal => exact Or.inl hm
  | keepQC => exact Or.inl hm
  | execute => exact Or.inl hm

/-- An atom stores a block that extends that of an accumulator that the enclave has accepted, or
none. -/
theorem Atom.lookup_blocks {Key : Type} {cfg : HandlerConfig Key} {o : Oracle Key} {s s' : State}
    (h : Atom cfg o s s') {v : View} {block : Block} (hblock : s'.blocks.lookup v = some block) :
    s.blocks.lookup v = some block ∨
      ∃ acc : Accum, block.prevHash.hash = acc.hash.hash ∧
        Verifies (o.crypto s.calls) acc.sign (.accum acc.toAccumData) := by
  cases h with
  | frame h =>
    rw [h.blocks] at hblock
    exact Or.inl hblock
  | @prepare block' acc hparent =>
    unfold State.preparedWith at hblock
    dsimp only at hblock
    split at hblock
    · next hset =>
      change (s.blocks.insert s.view block').lookup v = some block at hblock
      by_cases hv : v = s.view
      · subst hv
        have hsame : block' = block := by simpa using hblock
        subst hsame
        have hout := call_outcome (o.crypto s.calls) (enclave cfg) s.tee
          (.prepare (block'.hash o.sha256) acc)
        refine Or.inr ⟨acc, hparent, ?_⟩
        unfold State.called at hset
        dsimp only at hset
        cases hout with
        | accepted j hreply set hacc =>
          cases hacc with
          | prepare verified => exact verified
        | refused j hreply set =>
          rw [hreply] at hset
          exact absurd (set.symm.trans hset) Bool.false_ne_true
        | accum a hreply from' => exact from'.elim
      · have hold : s.blocks.lookup v = some block := by
          rwa [AList.lookup_insert_ne hv] at hblock
        exact Or.inl hold
    · exact Or.inl hblock
  | sign => exact Or.inl hblock
  | accum => exact Or.inl hblock
  | accumSp => exact Or.inl hblock
  | store => exact Or.inl hblock
  | logNewView => exact Or.inl hblock
  | logProposal => exact Or.inl hblock
  | keepQC => exact Or.inl hblock
  | execute => exact Or.inl hblock

theorem System.Reachable.flat (h : sys.Reachable st) (hall : sys.AllTEE) (hbyz : sys.byz = ∅) :
    Flat sys st := by
  have hcorrect : ∀ p, p ∉ sys.byz := fun p => hbyz ▸ Finset.notMem_empty p
  refine h.keeps (J := Flat sys) ⟨nofun, ?_, nofun, nofun⟩ ?_
  · rintro q m ⟨v, hm | hm⟩
    · exact absurd hm List.not_mem_nil
    · exact absurd hm List.not_mem_nil
  intro st st' hreach hmicro hst
  constructor
  · intro q t ht
    rcases hmicro.calls q with ⟨-, hcalls⟩ | ⟨-, c, hguard, -, hcalls⟩
    · refine hst.signed q t ?_
      unfold State.signed at ht ⊢
      rwa [hcalls] at ht
    · unfold State.signed at ht
      rw [hcalls] at ht
      obtain ⟨r, hr, ht⟩ := List.mem_flatMap.mp ht
      rcases List.mem_append.mp hr with hr | hr
      · exact hst.signed q t (List.mem_flatMap.mpr ⟨r, hr, ht⟩)
      · rw [List.mem_singleton] at hr
        subst hr
        exact hst.call (hreach.unprepared hall (hcorrect q)) (hguard (hcorrect q)) t ht
  · intro q m hm
    cases hmicro with
    | ecall hp => exact absurd hp.2 (hcorrect _)
    | @atom p s hp hatom =>
      by_cases hq : q = p
      · subst hq
        rw [st.replica_update_self] at hm
        rcases hatom.hasNewView hm with hm | hver
        · exact hst.newviews q m hm
        · exact hst.signed _ _ (signed_of_verifyNewViewComb hver)
      · rw [st.replica_update_of_ne p s hq] at hm
        exact hst.newviews q m hm
  · intro q v block hblock
    cases hmicro with
    | ecall hp => exact absurd hp.2 (hcorrect _)
    | @atom p s hp hatom =>
      by_cases hq : q = p
      · subst hq
        rw [st.replica_update_self] at hblock
        rcases hatom.lookup_blocks hblock with hblock | ⟨acc, hparent, hver⟩
        · exact hst.blocks q v block hblock
        · have hacc : FromGenesis (.accum acc.toAccumData) := hst.verified hver
          exact hparent.trans (congrArg Hash.hash hacc.1)
      · rw [st.replica_update_of_ne p s hq] at hblock
        exact hst.blocks q v block hblock
  · intro q e he
    rcases hmicro.executed q with ⟨hsame, -⟩ | ⟨data, block, -, -, hblock, -, hcommit⟩
    · exact hst.executed q e (hsame ▸ he)
    · rw [hcommit] at he
      rcases List.mem_append.mp he with he | he
      · exact hst.executed q e he
      · rw [List.mem_singleton.mp he]
        exact hst.blocks q _ _ hblock

/-- **With TEE nodes only, a correct host never makes its enclave store a block**, whatever the Byzantine
hosts do: the block that the enclave puts into its new-views is the genesis block for ever. -/
theorem damysus_never_stores (sys : System) (hall : sys.AllTEE) (acts : List Action) {p : PID}
    (hp : sys.Correct p) : Unprepared ((sys.run acts).replica p) :=
  (run_reachable sys acts).unprepared hall hp.2

/-- Replica 0 has executed two blocks of TEE leaders, and its enclave has stored none. -/
theorem damysus_never_stores_two_views :
    let s := ((threeReplicas {2}).run twoViewsActions).replica 0
    s.executed.length = 2 ∧ Unprepared s := by
  refine ⟨by decide +kernel, ?_⟩
  exact damysus_never_stores (threeReplicas {2}) ⟨by decide, nofun⟩ twoViewsActions (p := 0) (by decide)

/-- **Every executed block extends the genesis block** when there are TEE nodes only and no Byzantine
hosts: what has been executed in one view is not extended in a later one. -/
theorem damysus_extends_genesis (sys : System) (hall : sys.AllTEE) (hbyz : sys.byz = ∅)
    (acts : List Action) (p : PID) {e : Execution} (he : e ∈ ((sys.run acts).replica p).executed) :
    e.block.prevHash.hash = newHash.hash :=
  ((run_reachable sys acts).flat hall hbyz).executed p e he

/-- The second block that replica 0 executes extends the genesis block too, and not the first one. -/
theorem damysus_extends_genesis_two_views :
    let s := ((threeReplicas ∅).run twoViewsActions).replica 0
    ∃ e ∈ s.executed, ∃ e' ∈ s.executed, e.data.propv = 0 ∧ e'.data.propv = 1 ∧
      e.data.proph.hash ≠ newHash.hash ∧ e'.block.prevHash.hash = newHash.hash := by
  have hfirst : ∃ e ∈ (((threeReplicas ∅).run twoViewsActions).replica 0).executed,
      e.data.propv = 0 ∧ e.data.proph.hash ≠ newHash.hash := by decide +kernel
  have hsecond : ∃ e ∈ (((threeReplicas ∅).run twoViewsActions).replica 0).executed,
      e.data.propv = 1 := by decide +kernel
  obtain ⟨e, he, hview, hne⟩ := hfirst
  obtain ⟨e', he', hview'⟩ := hsecond
  exact ⟨e, he, e', he', hview, hview', hne,
    damysus_extends_genesis (threeReplicas ∅) ⟨by decide, nofun⟩ rfl twoViewsActions 0 he'⟩

/-! ### What is executed later does not extend it -/

/-- The `prevHash` link of `c` leads to `b`. -/
def Parent (sha : Text → Digest) (c b : Block) : Prop := c.prevHash.hash = (b.hash sha).hash

/-- Links lead from one block to the other. -/
def Extends (sha : Text → Digest) : Block → Block → Prop := Relation.TransGen (Parent sha)

/-- Of two blocks that correct replicas have executed in different views, the one of the later view extends the
other. -/
def ChainsBlocks (sys : System) (st : SystemState) : Prop :=
  ∀ p p', sys.Correct p → sys.Correct p' → ∀ e ∈ (st.replica p).executed, ∀ e' ∈ (st.replica p').executed,
    e.data.propv < e'.data.propv → Extends sys.sha256 e'.block e.block

/-- Links lead to the block from one with the hash of the genesis block: from itself, or from one that extends
it. -/
def GenesisHashed (sha : Text → Digest) (b : Block) : Prop :=
  ∃ c : Block, (c.hash sha).hash = newHash.hash ∧ Relation.ReflTransGen (Parent sha) c b

/-- A block on the genesis block extends those to which links lead from a block with the same hash. -/
theorem extends_iff_of_prevHash {sha : Text → Digest} {b b' : Block} (h : b'.prevHash.hash = newHash.hash) :
    Extends sha b' b ↔ GenesisHashed sha b := by
  unfold Extends GenesisHashed
  rw [Relation.TransGen.head'_iff]
  constructor
  · rintro ⟨c, hparent, hlinks⟩
    exact ⟨c, hparent.symm.trans h, hlinks⟩
  · rintro ⟨c, hhash, hlinks⟩
    exact ⟨c, h.trans hhash.symm, hlinks⟩

/-- **Blocks are not chained** when there are TEE nodes only and no Byzantine hosts: in every run, blocks that
are executed in later views extend an executed one exactly when links lead to it from a block with the hash of
the genesis block, since that hash is the one that they name. -/
theorem chainsBlocks_iff (sys : System) (hall : sys.AllTEE) (hbyz : sys.byz = ∅) (acts : List Action) :
    ChainsBlocks sys (sys.run acts) ↔
      ∀ p p', sys.Correct p → sys.Correct p' → ∀ e ∈ ((sys.run acts).replica p).executed,
        ∀ e' ∈ ((sys.run acts).replica p').executed, e.data.propv < e'.data.propv →
          GenesisHashed sys.sha256 e.block := by
  have hgenesis : ∀ p', ∀ e' ∈ ((sys.run acts).replica p').executed, e'.block.prevHash.hash = newHash.hash :=
    fun p' e' he' => ((run_reachable sys acts).flat hall hbyz).executed p' e' he'
  constructor
  · intro h p p' hp hp' e he e' he' hlt
    exact (extends_iff_of_prevHash (hgenesis p' e' he')).mp (h p p' hp hp' e he e' he' hlt)
  · intro h p p' hp hp' e he e' he' hlt
    exact (extends_iff_of_prevHash (hgenesis p' e' he')).mpr (h p p' hp hp' e he e' he' hlt)

/-- After the first view there is nothing to chain. -/
theorem chainsBlocks_first_view :
    let st := (threeReplicas ∅).run (twoViewsActions.take 7)
    (st.replica 0).executed.length = 1 ∧ ChainsBlocks (threeReplicas ∅) st := by
  have hviews : ∀ p < 3, ∀ e ∈ (((threeReplicas ∅).run (twoViewsActions.take 7)).replica p).executed,
      e.data.propv = 0 := by decide +kernel
  refine ⟨by decide +kernel, (chainsBlocks_iff (threeReplicas ∅) ⟨by decide, nofun⟩ rfl _).mpr ?_⟩
  intro p p' hp hp' e he e' he' hlt
  rw [hviews p' hp'.1 e' he'] at hlt
  exact absurd hlt (Nat.not_lt_zero _)

/-- The hash of no block is that of the genesis block. -/
theorem firstBlocksSha_ne (t : Text) : firstBlocksSha t ≠ newHash.hash := by
  unfold firstBlocksSha
  split
  · decide
  · split
    · decide
    · decide

/-- **The block of view 1 does not extend that of view 0.** -/
theorem not_chainsBlocks_two_views :
    (threeReplicas ∅).AllTEE ∧ ¬ ∀ acts, ChainsBlocks (threeReplicas ∅) ((threeReplicas ∅).run acts) := by
  refine ⟨⟨by decide, nofun⟩, fun h => ?_⟩
  have hfirst : ∃ e ∈ (((threeReplicas ∅).run twoViewsActions).replica 0).executed, e.data.propv = 0 := by
    decide +kernel
  have hsecond : ∃ e ∈ (((threeReplicas ∅).run twoViewsActions).replica 0).executed,
      e.data.propv = 1 ∧ e.block.prevHash.hash = newHash.hash := by decide +kernel
  obtain ⟨e, he, hview⟩ := hfirst
  obtain ⟨e', he', hview', hprev⟩ := hsecond
  have hlt : e.data.propv < e'.data.propv := by
    rw [hview, hview']
    decide
  have hext := h twoViewsActions 0 0 (by decide) (by decide) e he e' he' hlt
  obtain ⟨c, hhash, -⟩ := (extends_iff_of_prevHash hprev).mp hext
  exact firstBlocksSha_ne c.toText hhash

end Raftel.Damysus
