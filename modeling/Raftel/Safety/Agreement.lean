import Raftel.Safety.Discipline

/-!
# Agreement

Two correct replicas execute blocks of one chain.  When a block is executed, every intact signer of its
certificate has prepared it.  A proposal of a later view has the new-views of a quorum behind it, among
them one of these signers, so that the accumulated view is not below the view of the execution; and the
accumulated block is the executed one or, by induction on the view, extends it.

* `agreement_of_disciplined` : agreement, in every run whose calls are disciplined
* `not_agreement_liar` : one false new-view, and two blocks that extend genesis are executed
-/

namespace Raftel

/-! ### Chains of blocks -/

/-- The blocks of the proposals that intact components accepted. -/
def Net.accepted (sys : System) (net : Net) : List Block :=
  (List.range sys.n).flatMap fun p =>
    if sys.Intact p then (net p).calls.filterMap fun r => r.proposal?.map Proposal.block else []

/-- The `prevHash` link of `c` leads to the accepted block `b`. -/
def Net.Parent (sys : System) (net : Net) (c b : Block) : Prop :=
  b ∈ net.accepted sys ∧ c.prevHash.hash = (b.hash sys.sha256).hash

/-- Links lead from `c` to `b`. -/
def Net.Extends (sys : System) (net : Net) : Block → Block → Prop :=
  Relation.TransGen (net.Parent sys)

/-- **Agreement.**  Of two blocks that correct replicas executed, the one of the later view is or extends
the other. -/
def Agreement (sys : System) (net : Net) : Prop :=
  ∀ p p', sys.Correct p → sys.Correct p' → ∀ e ∈ (net p).executed, ∀ e' ∈ (net p').executed,
    e.data.propv ≤ e'.data.propv → e'.block = e.block ∨ net.Extends sys e'.block e.block

/-- The hash function does not collide on the accepted blocks; genesis is no block of the run. -/
def CollisionFree (sys : System) (net : Net) : Prop :=
  ∀ b ∈ net.accepted sys, (b.hash sys.sha256).hash ≠ newHash.hash ∧
    ∀ b' ∈ net.accepted sys, (b.hash sys.sha256).hash = (b'.hash sys.sha256).hash →
      b.toText = b'.toText

instance (sys : System) (net : Net) : Decidable (CollisionFree sys net) :=
  inferInstanceAs (Decidable (∀ b ∈ net.accepted sys, _))

/-- A block is executed after the `prepare` phase only by replicas that know the view's leader. -/
def Net.LeadersKnown (sys : System) (net : Net) (leader : View → PID) : Prop :=
  ∀ p < sys.n, ∀ e ∈ (net p).executed, e.data.phase = Phase1.prepare.byte →
    e.leader = leader e.data.propv

instance (sys : System) (net : Net) (leader : View → PID) : Decidable (net.LeadersKnown sys leader) :=
  inferInstanceAs (Decidable (∀ p < sys.n, _))

/-- The blocks that replicas executed. -/
def Net.executedBlocks (sys : System) (net : Net) : List Block :=
  (List.range sys.n).flatMap fun p => (net p).executed.map Execution.block

/-- Different executed blocks have different texts. -/
def Net.TextsDiffer (sys : System) (net : Net) : Prop :=
  (net.executedBlocks sys).Pairwise fun b b' => b.toText = b'.toText → b = b'

instance (sys : System) (net : Net) : Decidable (net.TextsDiffer sys) :=
  inferInstanceAs (Decidable (List.Pairwise _ _))

theorem Net.TextsDiffer.eq {sys : System} {net : Net} (h : net.TextsDiffer sys) {p p' : PID}
    (hp : p < sys.n) (hp' : p' < sys.n) {e e' : Execution} (he : e ∈ (net p).executed)
    (he' : e' ∈ (net p').executed) (htext : e.block.toText = e'.block.toText) :
    e.block = e'.block := by
  have hmem : ∀ q < sys.n, ∀ d ∈ (net q).executed, d.block ∈ net.executedBlocks sys :=
    fun q hq d hd => List.mem_flatMap.mpr ⟨q, List.mem_range.mpr hq, List.mem_map_of_mem hd⟩
  have hall := List.Pairwise.forall_of_forall_of_flip (fun _ _ _ => rfl) h
    (List.Pairwise.imp (fun hbb' ht => (hbb' ht.symm).symm) h)
  exact hall (hmem p hp e he) (hmem p' hp' e' he') htext

theorem Net.mem_accepted {sys : System} {net : Net} {b : Block} :
    b ∈ net.accepted sys ↔
      ∃ p, sys.Intact p ∧ ∃ r ∈ (net p).calls, ∃ x ∈ r.proposal?, x.block = b := by
  unfold Net.accepted
  rw [List.mem_flatMap]
  constructor
  · rintro ⟨p, -, h⟩
    split at h
    · next hp =>
      obtain ⟨r, hr, hb⟩ := List.mem_filterMap.mp h
      obtain ⟨x, hx, hxb⟩ := Option.map_eq_some_iff.mp hb
      exact ⟨p, hp, r, hr, x, hx, hxb⟩
    · exact absurd h List.not_mem_nil
  · rintro ⟨p, hp, r, hr, x, hx, rfl⟩
    refine ⟨p, List.mem_range.mpr hp.1, ?_⟩
    rw [if_pos hp]
    exact List.mem_filterMap.mpr ⟨r, hr, by rw [hx]; rfl⟩

/-! ### Executed blocks are accepted -/

/-- The component accepted the block in view `v`. -/
def AcceptedIn (calls : List CallRecord) (v : View) (b : Block) : Prop :=
  ∃ r ∈ calls, ∃ x ∈ r.proposal?, r.pre.view = v ∧ x.block = b

/-- What a replica stores and executes, its component has accepted. -/
structure HandlerState.OwnBlocks (s : HandlerState) : Prop where
  stored : ∀ v b, s.blocks.lookup v = some b → AcceptedIn s.calls v b
  executed : ∀ e ∈ s.executed, AcceptedIn s.calls e.data.propv e.block

theorem AcceptedIn.mono {calls calls' : List CallRecord} (h : calls ⊆ calls') {v : View} {b : Block}
    (ha : AcceptedIn calls v b) : AcceptedIn calls' v b := by
  obtain ⟨r, hr, hx⟩ := ha
  exact ⟨r, h hr, hx⟩

section OwnBlocks

variable {Key : Type} {cfg : HandlerConfig Key} {o : Oracle Key}

theorem HandlerState.OwnBlocks.called {s : HandlerState} (h : s.OwnBlocks) (c : Call) :
    (s.called cfg o c).2.OwnBlocks := by
  have hsub : s.calls ⊆ (s.called cfg o c).2.calls := List.subset_append_left _ _
  exact ⟨fun v b hb => (h.stored v b hb).mono hsub, fun e he => (h.executed e he).mono hsub⟩

/-- The block that a call accepts may be stored. -/
theorem HandlerState.OwnBlocks.insert {s : HandlerState} (h : s.OwnBlocks) {v : View} {b : Block}
    (hb : AcceptedIn s.calls v b) : OwnBlocks { s with blocks := s.blocks.insert v b } := by
  refine ⟨fun v' b' hb' => ?_, h.executed⟩
  by_cases hv : v' = v
  · subst hv
    rw [AList.lookup_insert, Option.some.injEq] at hb'
    exact hb' ▸ hb
  · rw [AList.lookup_insert_ne hv] at hb'
    exact h.stored v' b' hb'

theorem ownBlocks_atom (s s' : HandlerState) (hatom : Atom cfg o s s') (h : s.OwnBlocks) :
    s'.OwnBlocks := by
  cases hatom with
  | @call c hc => exact h.called c
  | @prepare block acc nvs hview =>
    have hcalled : (s.called cfg o (.prepare block acc nvs)).2.OwnBlocks := h.called _
    unfold HandlerState.preparedWith
    dsimp only
    split
    · next hset =>
      refine hcalled.insert ?_
      have hsome := (s.called cfg o (.prepare block acc nvs)).1.isSome_rdata?.trans hset
      -- the record of the call is the last one of the history
      refine ⟨_, List.mem_append_right s.calls (List.mem_singleton_self _), ⟨block, acc, nvs⟩, ?_,
        hview hset, rfl⟩
      exact CallRecord.proposal?_eq_some.mpr ⟨Option.isSome_iff_exists.mp hsome, rfl⟩
    · exact hcalled
  | @execute data block hexec hblock hhash =>
    refine ⟨h.stored, fun e he => ?_⟩
    rcases List.mem_append.mp he with he | he
    · exact h.executed e he
    · rw [List.mem_singleton.mp he]
      exact h.stored _ _ hblock
  | frame tc calls blocks executed =>
    refine ⟨?_, ?_⟩
    · rw [calls, blocks]
      exact h.stored
    · rw [calls, executed]
      exact h.executed

theorem run_ownBlocks (sys : System) (acts : List Action) (p : PID) :
    ((sys.run acts).replica p).host.OwnBlocks :=
  replica_keeps ⟨fun _ _ h => absurd h (by simp [HandlerState.init]), fun _ h => absurd h (by
    simp [HandlerState.init])⟩ (fun _ _ => ownBlocks_atom) (fun _ _ _ c h => h.called c) acts p

end OwnBlocks

/-! ### What an execution leaves behind -/

section Agreement

variable {sys : System} {net : Net} {leader : View → PID}

/-- Every intact member of a quorum has prepared a block of view `v` or of a later one, in a call that
it accepted in view `v`. -/
def Locked (sys : System) (net : Net) (v : View) : Prop :=
  ∃ S, sys.quorums.IsQuorum S ∧ ∀ q ∈ S, sys.Intact q →
    ∃ r ∈ (net q).calls, r.pre.view = v ∧ v ≤ r.post.prepv

/-- The call in which an intact signer signed the data of a final certificate prepared its block. -/
theorem CallRecord.Disciplined.post_prepv {r : CallRecord} (h : r.Disciplined sys net leader)
    (hvalid : r.Valid (sys.env net)) {rd : RData} (hrd : r.rdata? = some rd) (hne : rd.proph ≠ noHash)
    (hfinal : (rd.phase = Phase1.prepare.byte ∧ leader rd.propv ∈ sys.tee) ∨
      rd.phase = Phase1.commit.byte) : r.pre.view = rd.propv ∧ rd.propv ≤ r.post.prepv := by
  obtain ⟨hpropv, hphase, -⟩ := (hvalid.accepts hrd).counter
  refine ⟨hpropv.symm, ?_⟩
  rcases h.cases hvalid hrd with ⟨rfl, -⟩ | ⟨x, hx, hp, -, hpost⟩ | ⟨j, -, hview, -, -, -, hpost⟩
  · exact absurd rfl hne
  · -- a vote for a proposal of the TEE leader, who signed the accumulator
    rcases hfinal with ⟨-, htee⟩ | hcommit
    · obtain ⟨-, -, hleader, -⟩ := h.2.1 x hx
      rw [hpropv, ← hleader] at htee
      have hlt : x.acc.sign.signer < sys.n := Finset.mem_range.mp (sys.tee_sub htee)
      have hbranch : (sys.env net).isTEE x.acc.sign.signer = some true := by
        simp [System.env, hlt, htee]
      rw [hpost, CombState.increment_prepv, CombState.prepared, if_pos hbranch, hpropv]
    · rw [hphase, hp] at hcommit
      exact absurd hcommit (by decide)
  · rw [hpost, CombState.increment_prepv, CombState.stored_prepv, hview, hpropv]

/-- An executed block is not the dummy one. -/
theorem Execution.Justified.proph_ne (hcoll : CollisionFree sys net) {e : Execution}
    (he : e.Justified (sys.env net)) (hacc : e.block ∈ net.accepted sys) :
    e.data.proph ≠ noHash := by
  intro heq
  have hhash := he.hash
  rw [heq] at hhash
  exact (hcoll e.block hacc).1 hhash

/-- **An executed block is locked**: it is the prepared block of its view, and a quorum holds it. -/
theorem Execution.Justified.locked (hinv : NetInv sys net) (hdis : net.Disciplined sys leader)
    {e : Execution} (he : e.Justified (sys.env net)) (hne : e.data.proph ≠ noHash)
    (hleader : e.data.phase = Phase1.prepare.byte → e.leader = leader e.data.propv) :
    PreparedAt sys net leader e.data.propv (e.block.hash sys.sha256).hash ∧
      Locked sys net e.data.propv := by
  obtain ⟨⟨signs, hcert⟩, hfinal, hhash⟩ := he
  have hfinal' : (e.data.phase = Phase1.prepare.byte ∧ leader e.data.propv ∈ sys.tee) ∨
      e.data.phase = Phase1.commit.byte := by
    refine hfinal.imp_left fun h => ⟨h.1, ?_⟩
    rw [← hleader h.1]
    exact mem_tee_of_isTEE h.2
  refine ⟨Or.inr ?_, signersOf signs.entries, hcert.isQuorum, fun q hq hintact => ?_⟩
  · rcases hfinal with h | h
    · exact ⟨_, _, hcert, h.1, rfl, hne, hhash.symm⟩
    · have hcommit : HasCertificate sys net .commit e.data.propv (e.block.hash sys.sha256).hash :=
        ⟨_, _, hcert, h, rfl, hne, hhash.symm⟩
      exact hcommit.prepare hinv hdis
  · obtain ⟨r, hr, hrd⟩ := hinv.exists_call hintact (hcert.signed hq)
    exact ⟨r, hr, (hdis.mem hintact hr).post_prepv ((hinv.trace q hintact).ok_of_mem hr) hrd hne
      hfinal'⟩

/-! ### Later proposals -/

/-- The accumulated view is not below any of the reported ones. -/
theorem le_highestJust (v : View) (h : Hash) (ds : List RData) :
    v ≤ (highestJust v h ds).1 ∧ ∀ d ∈ ds, d.justv ≤ (highestJust v h ds).1 := by
  induction ds generalizing v h with
  | nil => exact ⟨le_rfl, fun d hd => absurd hd List.not_mem_nil⟩
  | cons d ds ih =>
    unfold highestJust
    split
    · next hle =>
      obtain ⟨hd, hall⟩ := ih d.justv d.justh
      exact ⟨hle.trans hd, List.forall_mem_cons.mpr ⟨hd, hall⟩⟩
    · next hlt =>
      obtain ⟨hv, hall⟩ := ih v h
      exact ⟨hv, List.forall_mem_cons.mpr ⟨(not_le.mp hlt).le.trans hv, hall⟩⟩

/-- The new-views of a proof are from a quorum. -/
theorem ValidProof.isQuorum {v : View} {nvs : NewViews} {acc : Accum}
    (h : ValidProof (sys.env net) v nvs acc) :
    sys.quorums.IsQuorum (signersOf (nvs.entries.map OneJust.sign)) := by
  have hlen : (nvs.entries.map OneJust.sign).length = nvs.size := by
    unfold NewViews.entries
    rw [List.length_map, List.length_take, Vector.length_toList]
    exact min_eq_left h.size_le
  refine isQuorum_signersOf ?_ (List.forall_mem_map.mpr h.known) ?_
  · rw [List.map_map]
    exact h.nodup
  · rw [hlen]
    exact h.kind.symm.imp_left fun hk => ⟨hk.1, List.forall_mem_map.mpr hk.2⟩

/-- The prepared view of a component does not decrease. -/
theorem NetInv.prepv_le (hinv : NetInv sys net) (hwrap : net.NoWrap sys) {p : PID}
    (hp : sys.Intact p) {r : CallRecord} (hr : r ∈ (net p).calls) : r.pre.prepv ≤ r.post.prepv := by
  have hvalid := (hinv.trace p hp).ok_of_mem hr
  cases hrd : r.rdata? with
  | none => rw [hvalid.post_eq hrd]
  | some rd =>
    rcases (hvalid.accepts hrd).pairs.1 with ⟨-, h⟩ | h
    · exact h.ge
    · exact h ▸ ((hinv.ordered hwrap hp).2 r hr).1.prepv_le

/-- What an intact component held after a call of view `v` it still reports in a later view. -/
theorem NetInv.le_prepv (hinv : NetInv sys net) (hwrap : net.NoWrap sys) {p : PID}
    (hp : sys.Intact p) {r r' : CallRecord} (hr : r ∈ (net p).calls) (hr' : r' ∈ (net p).calls)
    (hlt : r.pre.view < r'.pre.view) {v : View} (hv : v ≤ r.post.prepv) : v ≤ r'.pre.prepv := by
  have htrace := hinv.trace p hp
  have hrank : r.pre.rank < r'.pre.rank := by
    have hidx : r.pre.phase.index < 4 := by cases r.pre.phase <;> decide
    calc r.pre.rank < 4 * r.pre.view + 4 := Nat.add_lt_add_left hidx _
      _ = 4 * (r.pre.view + 1) := rfl
      _ ≤ 4 * r'.pre.view := Nat.mul_le_mul_left 4 hlt
      _ ≤ r'.pre.rank := Nat.le_add_right _ _
  exact htrace.later CombState.rank (P := fun st => v ≤ st.prepv)
    (fun d hd => (hwrap p hp d hd).rank_le (htrace.ok_of_mem hd))
    (fun d hd _ h => h.trans (hinv.prepv_le hwrap hp hd)) hr hr' hrank hv

/-- A proposal of a later view reports a view that is not below the locked one. -/
theorem Locked.le_prepv (hinv : NetInv sys net) (hdis : net.Disciplined sys leader) {v v' : View}
    (hlock : Locked sys net v) (hlt : v < v') {nvs : NewViews} {acc : Accum}
    (hproof : ValidProof (sys.env net) v' nvs acc) : v ≤ acc.prepv := by
  obtain ⟨S, hS, hheld⟩ := hlock
  obtain ⟨q, hqS, hq, hrel⟩ := Lib.Quorums.exists_reliable_inter hS hproof.isQuorum
  have hintact := sys.reliable_iff.mp hrel
  -- the new-view of the common member
  obtain ⟨s, hs, rfl⟩ := mem_signersOf.mp hq
  obtain ⟨nv, hnv, rfl⟩ := List.mem_map.mp hs
  obtain ⟨hphase, hpropv⟩ := hproof.newview nv hnv
  obtain ⟨r', hr', hrd⟩ := hinv.exists_call hintact (hproof.verified nv hnv)
  have hvalid := (hinv.trace _ hintact).ok_of_mem hr'
  obtain ⟨-, -, hjustv⟩ := (hdis.mem hintact hr').newview hvalid hrd hphase
  obtain ⟨r, hr, hview, hprepv⟩ := hheld _ hqS hintact
  have hview' : r'.pre.view = v' := (hvalid.accepts hrd).counter.1.symm.trans hpropv
  calc v ≤ r'.pre.prepv := hinv.le_prepv hdis.noWrap hintact hr hr'
        (by rw [hview, hview']; exact hlt) hprepv
    _ = nv.rdata.justv := hjustv.symm
    _ ≤ acc.prepv := by
      rw [hproof.acc_prepv]
      exact (le_highestJust 0 newHash _).2 _ (List.mem_map_of_mem hnv)

/-- The accumulated pair of a truthful proposal is prepared, in an earlier view. -/
theorem Proposal.Truthful.preparedAt (hinv : NetInv sys net) (hdis : net.Disciplined sys leader)
    {x : Proposal} (hx : x.Truthful sys) {v : View}
    (hproof : ValidProof (sys.env net) v x.newviews x.acc) (hpos : 0 < x.acc.prepv) :
    x.acc.prepv < v ∧ PreparedAt sys net leader x.acc.prepv x.acc.hash.hash := by
  rcases hx with ⟨hzero, -⟩ | ⟨nv, hnv, hintact, hjustv, hjusth⟩
  · rw [hzero] at hpos
    exact absurd hpos (lt_irrefl 0)
  · obtain ⟨hphase, hpropv⟩ := hproof.newview nv hnv
    obtain ⟨r, hr, hrd⟩ := hinv.exists_call hintact (hproof.verified nv hnv)
    have hvalid := (hinv.trace _ hintact).ok_of_mem hr
    obtain ⟨hnew, hpreph, hprepv⟩ := (hdis.mem hintact hr).newview hvalid hrd hphase
    have hview : r.pre.view = v := (hvalid.accepts hrd).counter.1.symm.trans hpropv
    have hord := ((hinv.ordered hdis.noWrap hintact).2 r hr).1
    rw [← hjustv, ← hjusth, hprepv, hpreph, ← hview]
    refine ⟨hord.prepv_lt hnew, (hinv.holdsPrepared hdis hintact hr).resolve_left fun hzero => ?_⟩
    rw [← hjustv, hprepv, hzero] at hpos
    exact absurd hpos (lt_irrefl 0)

/-- **Later proposals extend a locked block.**  Induction on the view of the proposal: the block that it
extends is of an earlier view, and not of one before the lock. -/
theorem extends_of_locked (hinv : NetInv sys net) (hdis : net.Disciplined sys leader) {v : View}
    {b : Block} (hv : 0 < v) (hlock : Locked sys net v) (hb : b ∈ net.accepted sys)
    (hprep : PreparedAt sys net leader v (b.hash sys.sha256).hash) (v' : View) (hlt : v < v')
    {p : PID} (hp : sys.Intact p) {r : CallRecord} (hr : r ∈ (net p).calls) {x : Proposal}
    (hx : r.proposal? = some x) (hview : r.pre.view = v') : net.Extends sys x.block b := by
  induction v' using Nat.strong_induction_on generalizing p r x with
  | _ v' ih =>
    obtain ⟨hproof, hparent, -⟩ := ((hinv.trace p hp).ok_of_mem hr).proposal hx
    rw [hview] at hproof
    have hle : v ≤ x.acc.prepv := hlock.le_prepv hinv hdis hlt hproof
    obtain ⟨hlt', hacc⟩ :=
      ((hdis.mem hp hr).2.1 x hx).2.1.preparedAt hinv hdis hproof (hv.trans_le hle)
    rcases hle.eq_or_lt with heq | hlt''
    · -- the parent is the prepared block of the locked view
      rw [← heq] at hacc
      exact .single ⟨hb, by rw [hparent, hacc.unique hinv hdis hprep]⟩
    · obtain ⟨q, hq, rq, hrq, y, hy, hyview, hyhash⟩ := hacc.proposed hinv hdis
      have hext : net.Extends sys y.block b := ih _ hlt' hlt'' hq hrq hy hyview
      exact .head ⟨Net.mem_accepted.mpr ⟨q, hq, rq, hrq, y, hy, rfl⟩, by rw [hparent, hyhash]⟩ hext

/-- What is known of an executed block: the component of the replica accepted it in the view of the
execution, which is a real one, and the block is locked. -/
structure ExecutedLocked (sys : System) (net : Net) (leader : View → PID) (p : PID) (e : Execution) :
    Prop where
  accepted : ∃ r ∈ (net p).calls, ∃ x, r.proposal? = some x ∧ r.pre.view = e.data.propv ∧
    x.block = e.block
  view_pos : 0 < e.data.propv
  prepared : PreparedAt sys net leader e.data.propv (e.block.hash sys.sha256).hash
  locked : Locked sys net e.data.propv

theorem ExecutedLocked.mem_accepted {p : PID} {e : Execution} (h : ExecutedLocked sys net leader p e)
    (hp : sys.Correct p) : e.block ∈ net.accepted sys := by
  obtain ⟨r, hr, x, hx, -, hxb⟩ := h.accepted
  exact Net.mem_accepted.mpr ⟨p, ⟨hp.1, Or.inr hp.2⟩, r, hr, x, hx, hxb⟩

/-- Executed blocks are accepted and locked. -/
theorem run_executedLocked (sys : System) (acts : List Action) (leader : View → PID)
    (hcoll : CollisionFree sys (sys.run acts).net)
    (hdis : (sys.run acts).net.Disciplined sys leader)
    (hleader : (sys.run acts).net.LeadersKnown sys leader) {p : PID} (hp : sys.Correct p)
    {e : Execution} (he : e ∈ ((sys.run acts).net p).executed) :
    ExecutedLocked sys (sys.run acts).net leader p e := by
  have hinv := (run_reachable sys acts).netInv
  have hintact : sys.Intact p := ⟨hp.1, Or.inr hp.2⟩
  obtain ⟨r, hr, x, hx, hview, hxb⟩ := (run_ownBlocks sys acts p).executed e he
  have hacc : e.block ∈ (sys.run acts).net.accepted sys :=
    Net.mem_accepted.mpr ⟨p, hintact, r, hr, x, hx, hxb⟩
  have hjust := hinv.executed p e he
  obtain ⟨hprep, hlock⟩ :=
    hjust.locked hinv hdis (hjust.proph_ne hcoll hacc) (hleader p hp.1 e he)
  exact ⟨⟨r, hr, x, hx, hview, hxb⟩,
    hview ▸ ((hinv.ordered hdis.noWrap hintact).2 r hr).1.view_pos, hprep, hlock⟩

/-- **Agreement.**  In every reachable state of the system in which all calls of intact components were
disciplined, replicas that executed a block after its `prepare` phase knew the leader, and different
executed blocks have different texts: of two blocks that correct replicas executed, the one of the later
view is or extends the other. -/
theorem agreement_of_disciplined (sys : System) (acts : List Action) (leader : View → PID)
    (hcoll : CollisionFree sys (sys.run acts).net)
    (hdis : (sys.run acts).net.Disciplined sys leader)
    (hleader : (sys.run acts).net.LeadersKnown sys leader)
    (htext : (sys.run acts).net.TextsDiffer sys) : Agreement sys (sys.run acts).net := by
  have hinv := (run_reachable sys acts).netInv
  intro p p' hp hp' e he e' he' hle
  have hlocked := run_executedLocked sys acts leader hcoll hdis hleader hp he
  have hlocked' := run_executedLocked sys acts leader hcoll hdis hleader hp' he'
  rcases hle.eq_or_lt with heq | hlt
  · -- one view: one prepared hash, one text, one block
    have hprep' := hlocked'.prepared
    rw [← heq] at hprep'
    have hhash := hprep'.unique hinv hdis hlocked.prepared
    exact Or.inl (htext.eq hp'.1 hp.1 he' he
      ((hcoll _ (hlocked'.mem_accepted hp')).2 _ (hlocked.mem_accepted hp) hhash))
  · obtain ⟨r, hr, x, hx, hview, hxb⟩ := hlocked'.accepted
    rw [← hxb]
    exact Or.inr (extends_of_locked hinv hdis hlocked.view_pos hlocked.locked
      (hlocked.mem_accepted hp) hlocked.prepared _ hlt ⟨hp'.1, Or.inr hp'.2⟩ hr hx hview)

end Agreement

/-! ### Two views of one chain -/

section TwoViews

/-- In two disciplined views two blocks are executed, and they agree. -/
theorem agreement_two_views :
    (CollisionFree chainSystem (chainSystem.run chainActions).net ∧
      (chainSystem.run chainActions).net.Disciplined chainSystem (fun v => v) ∧
      (chainSystem.run chainActions).net.LeadersKnown chainSystem (fun v => v) ∧
      (chainSystem.run chainActions).net.TextsDiffer chainSystem) ∧
    ((chainSystem.run chainActions).net.executedBlocks chainSystem).map Block.id = [11, 22] ∧
      Agreement chainSystem (chainSystem.run chainActions).net := by
  -- the run is evaluated once for all that is decided about it
  obtain ⟨hcoll, hdis, hleader, htext, hexecuted⟩ :
      CollisionFree chainSystem (chainSystem.run chainActions).net ∧
        (chainSystem.run chainActions).net.Disciplined chainSystem (fun v => v) ∧
        (chainSystem.run chainActions).net.LeadersKnown chainSystem (fun v => v) ∧
        (chainSystem.run chainActions).net.TextsDiffer chainSystem ∧
        ((chainSystem.run chainActions).net.executedBlocks chainSystem).map Block.id = [11, 22] := by
    decide +kernel
  exact ⟨⟨hcoll, hdis, hleader, htext⟩, hexecuted,
    agreement_of_disciplined chainSystem chainActions _ hcoll hdis hleader htext⟩

end TwoViews

/-! ### A false new-view breaks the chain -/

section BrokenChain

/-- The proposal of the correct leader 2 after the false new-view: it extends genesis. -/
def misledLdrPrepare : MsgLdrPrepareComb :=
  ⟨⟨⟨true, 2, 7, newHash, 3⟩, idealSign 2⟩, emptyBlock 22,
    .ofMsgs [⟨falseNewView, idealSign 0⟩, ⟨secondNewView, idealSign 2⟩, ⟨secondNewView, idealSign 3⟩],
    idealSign 2⟩

/-- The votes for it. -/
def misledProposal : RData :=
  ⟨(emptyBlock 22).hash twoBlocksSha, 2, newHash, 7, Phase1.prepare.byte⟩

/-- Replica 3 and the liar vote for the block of leader 2. -/
def brokenChainActions : List Action :=
  liarActions ++ [.input 3 9 (.peer (.ldrprepare misledLdrPrepare)),
    .input 2 9 (.peer (.prepare ⟨misledProposal, .one (idealSign 3)⟩)),
    .forge 0 (.rdata misledProposal),
    .input 2 9 (.peer (.prepare ⟨misledProposal, .one (idealSign 0)⟩))]

/-- **A false new-view breaks agreement.**  Replica 1 has executed the block of view 1; in view 2, whose
leader is correct, replica 2 executes a block that extends genesis. -/
theorem not_agreement_liar :
    CollisionFree hybridSystem (hybridSystem.run brokenChainActions).net ∧
      ¬ Agreement hybridSystem (hybridSystem.run brokenChainActions).net := by
  obtain ⟨hcoll, ⟨e, he, hid, hview⟩, e', he', hid', hview', hprev⟩ :
      CollisionFree hybridSystem (hybridSystem.run brokenChainActions).net ∧
        (∃ e ∈ ((hybridSystem.run brokenChainActions).net 1).executed,
          e.block.id = 11 ∧ e.data.propv = 1) ∧
        ∃ e ∈ ((hybridSystem.run brokenChainActions).net 2).executed,
          e.block.id = 22 ∧ e.data.propv = 2 ∧ e.block.prevHash.hash = newHash.hash := by
    decide +kernel
  refine ⟨hcoll, fun h => ?_⟩
  have hle : e.data.propv ≤ e'.data.propv := by rw [hview, hview']; decide
  rcases h 1 2 (by decide) (by decide) e he e' he' hle with heq | hext
  · rw [heq, hid] at hid'
    exact absurd hid' (by decide)
  · -- no accepted block has the hash of genesis
    obtain ⟨b, ⟨hb, hlink⟩, -⟩ := Relation.TransGen.head'_iff.mp hext
    exact (hcoll b hb).1 (hlink.symm.trans hprev)

end BrokenChain

end Raftel
