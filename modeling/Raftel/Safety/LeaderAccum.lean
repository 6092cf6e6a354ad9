import Raftel.Equiv.Accum
import Raftel.Equiv.Text
import Mathlib.Tactic.IntervalCases

/-!
# The leader's accumulator and its proof

The leader accumulates a quorum of new-views and sends them along as the proof.  Every component computes
the accumulated pair again from the proof.  `matchesProof_iff`: the leader's accumulator passes exactly
when the new-views are not equal for `RData::operator==` while two of them differ.  That equality does not
look at the flags of the hashes, which the signed texts include.
-/

namespace Raftel

variable {Key : Type}

/-! ### The components of a configuration -/

namespace HandlerConfig

variable (cfg : HandlerConfig Key)

/-- The variables of the enclave of the replica. -/
def enclaveVars : EnclaveVars Key :=
  initializeVariables cfg.enclavePriv cfg.enclavePub cfg.myid cfg.nodes.keys cfg.qsize cfg.tqsize
    (cfg.nodes.keys.map fun j => ⟨j, cfg.isTEE j⟩)

/-- The variables of the host's component. -/
def hostVars : TrustedVars Key := ⟨cfg.myid, cfg.priv, cfg.qsize, cfg.tqsize, cfg.nodes⟩

theorem component_eq :
    cfg.component = if cfg.nodeType then .enclave cfg.enclaveVars else .host cfg.hostVars := rfl

/-- The key that the replica's component signs with. -/
def signKey : Key := if cfg.nodeType then cfg.enclavePriv else cfg.priv

/-- The accumulator of the replica's component. -/
def accumOf (cr : Crypto Key) (data : AccumData) : Accum :=
  ⟨data, ⟨true, cfg.myid, cr.signBuf cfg.signKey (.accum data)⟩⟩

/-- What a deployment keeps: the TEE replicas are among the replicas, a quorum fits into the arrays, the
nodes have the key that is compiled into the enclaves, and the replica's own signatures verify. -/
structure Deployed (cr : Crypto Key) : Prop where
  tee_le : cfg.totalTEE ≤ cfg.total
  qsize_le : cfg.qsize ≤ maxNumSignatures
  pub : ∀ j nd, cfg.nodes.lookup j = some nd → nd.pub = cfg.enclavePub
  signs : ∀ data, ∃ nd, cfg.nodes.lookup cfg.myid = some nd ∧
    cr.verifySign (cfg.accumOf cr data).sign nd.pub (.accum data) = true

variable {cfg} {cr : Crypto Key}

theorem qsize_pos : 0 < cfg.qsize := by
  unfold qsize total
  omega

theorem Deployed.tqsize_le (h : cfg.Deployed cr) : cfg.tqsize ≤ cfg.qsize := by
  have htee := h.tee_le
  unfold total at htee
  unfold tqsize qsize total
  omega

theorem tqsize_pos : 0 < cfg.tqsize := by
  unfold tqsize
  omega

/-- A table with an entry for each known node. -/
theorem lookup_foldl_keys {V : Type} (v : PID → V) (j : PID) :
    AList.lookup j (cfg.nodes.keys.foldl (fun (m : StdMap PID V) j => m.insert j (v j)) ∅) =
      (cfg.nodes.lookup j).map fun _ => v j := by
  rw [lookup_foldl_insert]
  cases hl : cfg.nodes.lookup j with
  | none =>
    have hj : j ∉ cfg.nodes.keys := by
      rw [← AList.mem_keys, ← AList.lookup_isSome, hl]
      exact Bool.false_ne_true
    rw [if_neg hj]
    rfl
  | some nd =>
    have hj : j ∈ cfg.nodes.keys := by
      rw [← AList.mem_keys, ← AList.lookup_isSome, hl]
      rfl
    rw [if_pos hj]
    rfl

/-- The two components of a replica know the same nodes. -/
theorem Deployed.sameConfig (h : cfg.Deployed cr) : SameConfig cfg.enclaveVars cfg.hostVars where
  id := rfl
  qsize := rfl
  tqsize := rfl
  pubs j := by
    apply (lookup_foldl_keys (fun _ => cfg.enclavePub) j).trans
    show _ = (cfg.nodes.lookup j).map HostNode.pub
    cases hl : cfg.nodes.lookup j with
    | none => rfl
    | some nd => exact congrArg some (h.pub j nd hl).symm
  nodeIsTEE j := by
    show AList.lookup j ((cfg.nodes.keys.map fun j => ⟨j, cfg.isTEE j⟩).foldl
      (fun (m : StdMap PID Bool) (nd : NodeInfo) => m.insert nd.pid nd.isTEE) ∅) =
        (cfg.nodes.lookup j).map HostNode.isTEE
    rw [List.foldl_map]
    apply (lookup_foldl_keys cfg.isTEE j).trans
    unfold isTEE
    cases hl : cfg.nodes.lookup j with
    | none => rfl
    | some nd => rfl

end HandlerConfig

/-! ### The new-views of the leader -/

/-- The new-views that a leader accumulates in view `v`: of different signers, each accepted by
`verifyNewViewComb`, `qsize` of any nodes or `tqsize` of TEE nodes. -/
structure NewViewQuorum (cfg : HandlerConfig Key) (cr : Crypto Key) (v : View)
    (newviews : List MsgNewViewComb) : Prop where
  nodup : (newviews.map fun m => m.sign.signer).Nodup
  accepted : ∀ m ∈ newviews, verifyNewViewComb cfg cr m = true
  view : ∀ m ∈ newviews, m.data.propv = v
  size : newviews.length = cfg.qsize ∨
    (newviews.length = cfg.tqsize ∧ ∀ m ∈ newviews, cfg.isTEE m.sign.signer = true)

section Quorum

variable {cfg : HandlerConfig Key} {cr : Crypto Key} {v : View} {newviews : List MsgNewViewComb}

theorem of_verifyNewViewComb {m : MsgNewViewComb} (h : verifyNewViewComb cfg cr m = true) :
    m.data.phase = Phase1.newview.byte ∧ m.sign.set = true ∧
      ((cfg.hostVars.env cr).isTEE m.sign.signer).isSome ∧
      (cfg.hostVars.env cr).verified m.sign (.rdata m.data) := by
  unfold verifyNewViewComb at h
  rw [Bool.and_eq_true, decide_eq_true_eq] at h
  obtain ⟨hphase, hsigns⟩ := h
  unfold verifyCombSigns at hsigns
  split at hsigns
  · exact absurd hsigns (by decide)
  · rw [Signs.entries_one] at hsigns
    cases hr : hostSignersFrom cfg.nodes [m.sign] [] true with
    | none => simp [hr] at hsigns
    | some allTEE =>
      obtain ⟨-, -, hset, -⟩ := hostSignersFrom_eq_some.mp hr
      have hverify : (Signs.one m.sign).verify cr.verifySign cfg.nodes (.rdata m.data) = true := by
        simpa [hr] using hsigns
      rw [Signs.verify_eq_true] at hverify
      obtain ⟨hflag, hknown⟩ := hset m.sign (List.mem_singleton_self _)
      refine ⟨hphase, hflag, ?_, hverify m.sign (List.mem_singleton_self _)⟩
      simpa [TrustedVars.env, HandlerConfig.hostVars] using hknown

theorem NewViewQuorum.verified (h : NewViewQuorum cfg cr v newviews) :
    VerifiedNewViews (cfg.hostVars.env cr) v newviews where
  nodup := h.nodup
  known m hm := (of_verifyNewViewComb (h.accepted m hm)).2.imp_right And.left
  verified m hm := (of_verifyNewViewComb (h.accepted m hm)).2.2.2
  newview m hm := ⟨(of_verifyNewViewComb (h.accepted m hm)).1, h.view m hm⟩

theorem NewViewQuorum.length_le (h : NewViewQuorum cfg cr v newviews) (hcfg : cfg.Deployed cr) :
    newviews.length ≤ cfg.qsize := by
  have htq := hcfg.tqsize_le
  rcases h.size with hq | ⟨htq', -⟩
  · omega
  · omega

theorem NewViewQuorum.length_pos (h : NewViewQuorum cfg cr v newviews) : 0 < newviews.length := by
  have hq := cfg.qsize_pos
  have htq := cfg.tqsize_pos
  rcases h.size with hq' | ⟨htq', -⟩
  · omega
  · omega

/-! ### The equal-payload path -/

/-- The equal-payload path is taken: the first new-view's data is, for `RData::operator==`, that of as
many new-views as are required. -/
def SamePayload (newviews : List MsgNewViewComb) : Prop :=
  (sameNewViewSigns newviews).size ≥ newviews.length

/-- A loop that adds the signatures of messages. -/
theorem foldl_add_sign (msgs : List MsgNewViewComb) {ss : Signs}
    (hle : ss.size + msgs.length ≤ maxNumSignatures) :
    (msgs.foldl (fun ss m => ss.add m.sign) ss).size = ss.size + msgs.length ∧
      (msgs.foldl (fun ss m => ss.add m.sign) ss).entries =
        ss.entries ++ msgs.map MsgNewViewComb.sign := by
  induction msgs generalizing ss with
  | nil => simp
  | cons m msgs ih =>
    rw [List.length_cons] at hle
    have hsize : (ss.add m.sign).size = ss.size + 1 := rfl
    have hle' : (ss.add m.sign).size + msgs.length ≤ maxNumSignatures := by
      rw [hsize]
      omega
    obtain ⟨h₁, h₂⟩ := ih hle'
    rw [List.foldl_cons, h₁, h₂, hsize, Signs.entries_add (by omega), List.length_cons]
    constructor
    · omega
    · simp

/-- The path is taken when all new-views are equal, for that equality, to the first one. -/
theorem samePayload_cons {m : MsgNewViewComb} {ms : List MsgNewViewComb}
    (hle : (m :: ms).length ≤ maxNumSignatures) :
    (SamePayload (m :: ms) ↔ ∀ m' ∈ ms, eqRData m'.data m.data = true) ∧
      (SamePayload (m :: ms) → (sameNewViewSigns (m :: ms)).size = (m :: ms).length ∧
        (sameNewViewSigns (m :: ms)).entries = (m :: ms).map MsgNewViewComb.sign) := by
  have hsigns : sameNewViewSigns (m :: ms) = (m :: ms.filter fun m' =>
      eqRData m'.data m.data).foldl (fun ss m => ss.add m.sign) .empty := by
    unfold sameNewViewSigns
    rw [List.take_of_length_le hle]
  have hfilter := List.length_filter_le (fun m' => eqRData m'.data m.data) ms
  rw [List.length_cons] at hle
  have hroom : Signs.empty.size + (m :: ms.filter fun m' => eqRData m'.data m.data).length ≤
      maxNumSignatures := by
    rw [List.length_cons]
    show 0 + _ ≤ _
    omega
  obtain ⟨hsize, hentries⟩ := foldl_add_sign _ hroom
  have hempty : Signs.empty.size = 0 := rfl
  rw [← hsigns, List.length_cons, hempty, Nat.zero_add] at hsize
  rw [← hsigns] at hentries
  have hiff : SamePayload (m :: ms) ↔ ∀ m' ∈ ms, eqRData m'.data m.data = true := by
    unfold SamePayload
    rw [hsize, List.length_cons, ← List.length_filter_eq_length_iff]
    omega
  refine ⟨hiff, fun hsame => ?_⟩
  have hall : ms.filter (fun m' => eqRData m'.data m.data) = ms :=
    List.filter_eq_self.mpr (hiff.mp hsame)
  rw [hall] at hsize hentries
  exact ⟨hsize, hentries⟩

theorem eqRData_eq_true {d d' : RData} : eqRData d d' = true ↔
    d.proph.hash = d'.proph.hash ∧ d.propv = d'.propv ∧ d.justh.hash = d'.justh.hash ∧
      d.justv = d'.justv ∧ d.phase = d'.phase := by
  unfold eqRData
  simp only [Bool.and_eq_true, eqHashes_eq_true, decide_eq_true_eq, and_assoc]

/-- Data that is equal up to the flags of its hashes has the same text only when it is the same. -/
theorem eq_of_eqRData {d d' : RData} (heq : eqRData d d' = true)
    (htext : rdata2string d = rdata2string d') : d = d' := by
  obtain ⟨-, hpropv, -, hjustv, hphase⟩ := eqRData_eq_true.mp heq
  unfold rdata2string at htext
  rw [hpropv, hjustv, hphase, List.append_cancel_right_eq, List.append_cancel_right_eq] at htext
  simp only [List.append_assoc] at htext
  obtain ⟨hproph, hrest⟩ := hash2string_append_inj.mp htext
  have hjusth := hash2string_injective (List.append_cancel_left hrest)
  cases d
  cases d'
  rw [RData.mk.injEq]
  exact ⟨hproph, hpropv, hjusth, hjustv, hphase⟩

/-! ### What the leader's component returns -/

/-- The general path: all new-views, and the highest pair. -/
theorem accum_newViews (h : NewViewQuorum cfg cr v newviews) (hcfg : cfg.Deployed cr)
    (st : CombState) :
    (cfg.component.call cr st (.accum (newViewJusts newviews))).1.toAccum =
      cfg.accumOf cr ⟨true, v, (highestNewView newviews).1, (highestNewView newviews).2,
        newviews.length⟩ := by
  have hne : newviews ≠ [] := List.length_pos_iff.mp h.length_pos
  rw [HandlerConfig.component_eq]
  unfold HandlerConfig.accumOf HandlerConfig.signKey
  cases hn : cfg.nodeType with
  | true => exact combTEEaccum_newViews hcfg.sameConfig h.verified hne (h.length_le hcfg) hcfg.qsize_le
  | false => exact trustedTEEaccum_newViews h.verified hne (h.length_le hcfg) hcfg.qsize_le

/-- The equal-payload path: the pair of the first new-view.  All are counted when all signatures verify
for the data of the first. -/
theorem accumSp_samePayload {m : MsgNewViewComb} {ms : List MsgNewViewComb}
    (h : NewViewQuorum cfg cr v (m :: ms)) (hcfg : cfg.Deployed cr) (hsame : SamePayload (m :: ms))
    (st : CombState) :
    ∃ size, (cfg.component.call cr st
        (.accumSp ⟨true, m.data, sameNewViewSigns (m :: ms)⟩)).1.toAccum =
          cfg.accumOf cr ⟨true, v, m.data.justv, m.data.justh, size⟩ ∧
      (size = (m :: ms).length ↔
        ∀ m' ∈ m :: ms, (cfg.hostVars.env cr).verified m'.sign (.rdata m.data)) := by
  have hle := h.length_le hcfg
  have hver := h.verified
  obtain ⟨hsize, hentries⟩ := (samePayload_cons (hle.trans hcfg.qsize_le)).2 hsame
  have hphase : m.data.phase = Phase1.newview.byte := (hver.newview m List.mem_cons_self).1
  have hview : m.data.propv = v := (hver.newview m List.mem_cons_self).2
  have hnodup : ((sameNewViewSigns (m :: ms)).entries.map Sign.signer).Nodup := by
    rw [hentries, List.map_map]
    exact hver.nodup
  have hset : ∀ s ∈ (sameNewViewSigns (m :: ms)).entries, s.set = true := by
    rw [hentries, List.forall_mem_map]
    exact fun m' hm' => (hver.known m' hm').1
  have hall : (∀ s ∈ (sameNewViewSigns (m :: ms)).entries,
      (cfg.hostVars.env cr).verified s (.rdata m.data)) ↔
        ∀ m' ∈ m :: ms, (cfg.hostVars.env cr).verified m'.sign (.rdata m.data) := by
    rw [hentries, List.forall_mem_map]
  rw [HandlerConfig.component_eq, ← hall, ← hsize, ← hview]
  unfold HandlerConfig.accumOf HandlerConfig.signKey
  rw [← hsize] at hle
  cases hn : cfg.nodeType with
  | true =>
    have hpos : 0 < (sameNewViewSigns (m :: ms)).size := hsize ▸ h.length_pos
    exact combTEEaccumSp_size hcfg.sameConfig hphase hnodup hset hpos hle hcfg.qsize_le
  | false => exact trustedTEEaccumSp_size hphase hnodup hle hcfg.qsize_le

/-! ### What the components check -/

/-- Two components that know the nodes of the configuration. -/
structure Checkers (cfg : HandlerConfig Key) (ev : EnclaveVars Key) (tv : TrustedVars Key) :
    Prop where
  same : SameConfig ev tv
  qsize : tv.qsize = cfg.qsize
  tqsize : tv.tqsize = cfg.tqsize
  nodes : tv.nodes = cfg.nodes

/-- An accumulator passes with the proof: `COMB_validateNewViews`, and the proof and signature checks of
`TrustedComb::TEEprepare`. -/
def Passes (cr : Crypto Key) (ev : EnclaveVars Key) (tv : TrustedVars Key) (v : View)
    (newviews : List MsgNewViewComb) (acc : Accum) : Prop :=
  combValidateNewViews cr ev v (setNewViews (.ofMsgs newviews)) acc = true ∧
    trustedValidProof cr tv v (setNewViews (.ofMsgs newviews)) acc = true ∧
      (Signs.one acc.sign).verify cr.verifySign tv.nodes (.accum acc.toAccumData) = true

theorem trustedValidProof_iff (h : NewViewQuorum cfg cr v newviews) (hcfg : cfg.Deployed cr)
    {ev : EnclaveVars Key} {tv : TrustedVars Key} (hc : Checkers cfg ev tv) {acc : Accum} :
    trustedValidProof cr tv v (setNewViews (.ofMsgs newviews)) acc = true ↔
      acc.size = newviews.length ∧ acc.view = v ∧ acc.prepv = (highestNewView newviews).1 ∧
        acc.hash.hash = (highestNewView newviews).2.hash := by
  have henv : tv.env cr = cfg.hostVars.env cr := by
    unfold TrustedVars.env
    rw [hc.qsize, hc.tqsize, hc.nodes]
    rfl
  have hver := h.verified
  rw [← henv] at hver
  obtain ⟨hsize, hentries⟩ := setNewViews_ofMsgs ((h.length_le hcfg).trans hcfg.qsize_le)
  have hloop : trustedProofFrom cr tv v (newviews.map MsgNewViewComb.entry) true [] 0 newHash =
      some (newviews.all fun m => (tv.env cr).isTEE m.sign.signer = some true,
        highestNewView newviews) := by
    apply trustedProofFrom_eq_some.mpr
    refine ⟨?_, fun _ _ => List.not_mem_nil, ?_, ?_, ?_⟩
    · rw [List.map_map]
      exact hver.nodup
    · rw [List.forall_mem_map]
      exact fun m hm => ⟨rfl, (hver.known m hm).1, (hver.known m hm).2, (hver.newview m hm).1,
        (hver.newview m hm).2, hver.verified m hm⟩
    · rw [List.all_map, Bool.true_and]
      rfl
    · rw [List.map_map]
      rfl
  have hkind : newviews.length = tv.qsize ∨ (newviews.length = tv.tqsize ∧
      (newviews.all fun m => (tv.env cr).isTEE m.sign.signer = some true) = true) := by
    rw [hc.qsize, hc.tqsize, henv, List.all_eq_true]
    refine h.size.imp_right (And.imp_right fun htee m hm => decide_eq_true ?_)
    exact any_isTEE_iff.mp (htee m hm)
  have hpos := h.length_pos
  have hle := (h.length_le hcfg).trans hcfg.qsize_le
  unfold trustedValidProof
  rw [hsize, hentries, hloop, if_pos ⟨hpos, hle, hkind.imp_right And.left⟩]
  simp only [Bool.and_eq_true, Bool.or_eq_true, decide_eq_true_eq, eqHashes_eq_true, hkind,
    true_and, and_assoc]

theorem passes_accumOf_iff (h : NewViewQuorum cfg cr v newviews) (hcfg : cfg.Deployed cr)
    {ev : EnclaveVars Key} {tv : TrustedVars Key} (hc : Checkers cfg ev tv) {data : AccumData}
    (hset : data.set = true) :
    Passes cr ev tv v newviews (cfg.accumOf cr data) ↔
      data.size = newviews.length ∧ data.view = v ∧ data.prepv = (highestNewView newviews).1 ∧
        data.hash.hash = (highestNewView newviews).2.hash := by
  have hverify : (Signs.one (cfg.accumOf cr data).sign).verify cr.verifySign tv.nodes
      (.accum (cfg.accumOf cr data).toAccumData) = true := by
    rw [Signs.verify_eq_true, hc.nodes]
    exact List.forall_mem_singleton.mpr (hcfg.signs data)
  unfold Passes
  rw [hc.same.validateNewViews_eq, hverify, trustedValidProof_iff h hcfg hc]
  have hflags : ((cfg.accumOf cr data).set && (cfg.accumOf cr data).sign.set) = true := by
    rw [Bool.and_eq_true]
    exact ⟨hset, rfl⟩
  rw [hflags, Bool.and_true, Bool.and_true, trustedValidProof_iff h hcfg hc]
  exact ⟨And.left, fun hdata => ⟨hdata, hdata, rfl⟩⟩

end Quorum

/-! ### The match -/

section Match

variable {cfg : HandlerConfig Key} {o : Oracle Key} {s : HandlerState}
  {newviews : List MsgNewViewComb}

/-- The leader's accumulator matches its proof: what `newviews2accComb` returns passes, with the proof of
the same new-views, at every component that knows the nodes; and the equal-payload path returns the same
data as the general one. -/
structure MatchesProof (cfg : HandlerConfig Key) (o : Oracle Key) (s : HandlerState)
    (newviews : List MsgNewViewComb) : Prop where
  passes : ∃ acc s', newviews2accComb cfg o newviews newviews.length s = .ok acc s' ∧
    ∀ ev tv, Checkers cfg ev tv → Passes (o.crypto s.calls) ev tv s.view newviews acc
  fast : SamePayload newviews → ∃ acc s₁ acc' s₂,
    newviews2accComb cfg o newviews newviews.length s = .ok acc s₁ ∧
      callTEEaccumComb cfg o (newViewJusts newviews) s = .ok acc' s₂ ∧
        acc.toAccumData = acc'.toAccumData

theorem newviews2accComb_of_not_same (h : ¬ SamePayload newviews) :
    newviews2accComb cfg o newviews newviews.length =
      callTEEaccumComb cfg o (newViewJusts newviews) := by
  refine (if_neg h).trans ?_
  unfold newViewJusts
  congr 2
  funext i
  cases newviews[i.val]? <;> rfl

theorem newviews2accComb_of_same {m : MsgNewViewComb} {ms : List MsgNewViewComb}
    (h : SamePayload (m :: ms)) :
    newviews2accComb cfg o (m :: ms) (m :: ms).length =
      callTEEaccumCombSp cfg o ⟨true, m.data, sameNewViewSigns (m :: ms)⟩ :=
  if_pos h

theorem callTEEaccumComb_eq (justs : Vector Just maxNumSignatures) :
    callTEEaccumComb cfg o justs s =
      .ok (cfg.component.call (o.crypto s.calls) s.tc (.accum justs)).1.toAccum
        (s.called cfg o (.accum justs)).2 := rfl

theorem callTEEaccumCombSp_eq (just : Just) :
    callTEEaccumCombSp cfg o just s =
      .ok (cfg.component.call (o.crypto s.calls) s.tc (.accumSp just)).1.toAccum
        (s.called cfg o (.accumSp just)).2 := rfl

/-- New-views with the same data report its pair. -/
theorem highestNewView_of_same {m : MsgNewViewComb} {ms : List MsgNewViewComb}
    (h : ∀ m' ∈ ms, m'.data = m.data) :
    highestNewView (m :: ms) = (m.data.justv, m.data.justh) := by
  have hconst : ∀ l : List MsgNewViewComb, (∀ m' ∈ l, m'.data = m.data) →
      highestJust m.data.justv m.data.justh (l.map MsgNewViewComb.data) =
        (m.data.justv, m.data.justh) := by
    intro l
    induction l with
    | nil => exact fun _ => rfl
    | cons m' l ih =>
      intro hl
      rw [List.map_cons, hl m' List.mem_cons_self, highestJust, if_pos le_rfl]
      exact ih fun m'' hm'' => hl m'' (List.mem_cons_of_mem m' hm'')
  unfold highestNewView
  rw [List.map_cons, highestJust, if_pos (Nat.zero_le _)]
  exact hconst ms h

theorem checkers_self (hcfg : cfg.Deployed (o.crypto s.calls)) :
    Checkers cfg cfg.enclaveVars cfg.hostVars := ⟨hcfg.sameConfig, rfl, rfl, rfl⟩

/-- The new-views are all equal, for `RData::operator==`, while two of them differ. -/
def EqualButDifferent (newviews : List MsgNewViewComb) : Prop :=
  (∀ m ∈ newviews, ∀ m' ∈ newviews, eqRData m.data m'.data = true) ∧
    ∃ m ∈ newviews, ∃ m' ∈ newviews, m.data ≠ m'.data

theorem equalButDifferent_cons {m : MsgNewViewComb} {ms : List MsgNewViewComb} :
    EqualButDifferent (m :: ms) ↔
      (∀ m' ∈ ms, eqRData m'.data m.data = true) ∧ ¬ ∀ m' ∈ ms, m'.data = m.data := by
  constructor
  · rintro ⟨heq, m₁, hm₁, m₂, hm₂, hne⟩
    refine ⟨fun m' hm' => heq m' (List.mem_cons_of_mem m hm') m List.mem_cons_self, fun hall => hne ?_⟩
    have hfirst : ∀ m' ∈ m :: ms, m'.data = m.data := List.forall_mem_cons.mpr ⟨rfl, hall⟩
    rw [hfirst m₁ hm₁, hfirst m₂ hm₂]
  · rintro ⟨heq, hdiff⟩
    have hfirst : ∀ m' ∈ m :: ms, eqRData m'.data m.data = true :=
      List.forall_mem_cons.mpr ⟨eqRData_eq_true.mpr ⟨rfl, rfl, rfl, rfl, rfl⟩, heq⟩
    constructor
    · intro m₁ hm₁ m₂ hm₂
      obtain ⟨h₁, h₂, h₃, h₄, h₅⟩ := eqRData_eq_true.mp (hfirst m₁ hm₁)
      obtain ⟨k₁, k₂, k₃, k₄, k₅⟩ := eqRData_eq_true.mp (hfirst m₂ hm₂)
      exact eqRData_eq_true.mpr ⟨h₁.trans k₁.symm, h₂.trans k₂.symm, h₃.trans k₃.symm,
        h₄.trans k₄.symm, h₅.trans k₅.symm⟩
    · obtain ⟨m', hm'⟩ := not_forall.mp hdiff
      obtain ⟨hm', hne⟩ := Classical.not_imp.mp hm'
      exact ⟨m', List.mem_cons_of_mem m hm', m, List.mem_cons_self, hne⟩

/-- **The general path always matches.** -/
theorem matchesProof_of_not_same (hcfg : cfg.Deployed (o.crypto s.calls))
    (h : NewViewQuorum cfg (o.crypto s.calls) s.view newviews) (hsame : ¬ SamePayload newviews) :
    MatchesProof cfg o s newviews := by
  refine ⟨?_, fun hs => absurd hs hsame⟩
  rw [newviews2accComb_of_not_same hsame]
  refine ⟨_, _, callTEEaccumComb_eq (newViewJusts newviews), fun ev tv hc => ?_⟩
  rw [accum_newViews h hcfg]
  exact (passes_accumOf_iff h hcfg hc rfl).mpr ⟨rfl, rfl, rfl, rfl⟩

/-- On the equal-payload path the accumulator matches exactly when every signature is one of the data of
the first new-view. -/
theorem matchesProof_of_same {m : MsgNewViewComb} {ms : List MsgNewViewComb}
    (hcfg : cfg.Deployed (o.crypto s.calls))
    (h : NewViewQuorum cfg (o.crypto s.calls) s.view (m :: ms)) (hsame : SamePayload (m :: ms))
    (hverified : (∀ m' ∈ m :: ms,
      (cfg.hostVars.env (o.crypto s.calls)).verified m'.sign (.rdata m.data)) ↔
        ∀ m' ∈ ms, m'.data = m.data) :
    MatchesProof cfg o s (m :: ms) ↔ ∀ m' ∈ ms, m'.data = m.data := by
  obtain ⟨size, hacc, hsize⟩ := accumSp_samePayload h hcfg hsame s.tc
  have hrun : newviews2accComb cfg o (m :: ms) (m :: ms).length =
      callTEEaccumCombSp cfg o ⟨true, m.data, sameNewViewSigns (m :: ms)⟩ :=
    newviews2accComb_of_same hsame
  constructor
  · rintro ⟨⟨acc, s', hok, hpasses⟩, -⟩
    rw [hrun, callTEEaccumCombSp_eq, hacc] at hok
    obtain rfl : cfg.accumOf (o.crypto s.calls) ⟨true, s.view, m.data.justv, m.data.justh, size⟩ =
        acc := (EStateM.Result.ok.inj hok).1
    have hpass := (passes_accumOf_iff h hcfg (checkers_self hcfg) rfl).mp
      (hpasses _ _ (checkers_self hcfg))
    exact hverified.mp (hsize.mp hpass.1)
  · intro hall
    have hlength : size = (m :: ms).length := hsize.mpr (hverified.mpr hall)
    have hhighest := highestNewView_of_same hall
    rw [hlength] at hacc
    constructor
    · rw [hrun]
      refine ⟨_, _, callTEEaccumCombSp_eq _, fun ev tv hc => ?_⟩
      rw [hacc]
      refine (passes_accumOf_iff h hcfg hc rfl).mpr ⟨rfl, rfl, ?_, ?_⟩
      · rw [hhighest]
      · rw [hhighest]
    · intro _
      rw [hrun]
      refine ⟨_, _, _, _, callTEEaccumCombSp_eq _, callTEEaccumComb_eq _, ?_⟩
      rw [hacc, accum_newViews h hcfg, hhighest]

/-- **The leader's accumulator matches its proof** exactly when the new-views are not all equal for
`RData::operator==` while two of them differ (in the flag of a hash).  A signature is valid for the text
of one vote only. -/
theorem matchesProof_iff (cfg : HandlerConfig Key) (o : Oracle Key) (s : HandlerState)
    (newviews : List MsgNewViewComb) (hcfg : cfg.Deployed (o.crypto s.calls))
    (hunique : ∀ t key d d', o.verify s.calls t key (.rdata d) = true →
      o.verify s.calls t key (.rdata d') = true → rdata2string d = rdata2string d')
    (h : NewViewQuorum cfg (o.crypto s.calls) s.view newviews) :
    MatchesProof cfg o s newviews ↔ ¬ EqualButDifferent newviews := by
  cases newviews with
  | nil => exact absurd h.length_pos (Nat.lt_irrefl 0)
  | cons m ms =>
    have hiff := (samePayload_cons ((h.length_le hcfg).trans hcfg.qsize_le)).1
    by_cases hsame : SamePayload (m :: ms)
    · have heq := hiff.mp hsame
      rw [equalButDifferent_cons, not_and, not_not]
      have hverified : (∀ m' ∈ m :: ms,
          (cfg.hostVars.env (o.crypto s.calls)).verified m'.sign (.rdata m.data)) ↔
            ∀ m' ∈ ms, m'.data = m.data := by
        constructor
        · intro hall m' hm'
          have hmem := List.mem_cons_of_mem m hm'
          obtain ⟨nd, hnd, hfirst⟩ := hall m' hmem
          obtain ⟨nd', hnd', hown⟩ := h.verified.verified m' hmem
          obtain rfl : nd = nd' := Option.some.inj (hnd.symm.trans hnd')
          exact eq_of_eqRData (heq m' hm') (hunique m'.sign nd.pub _ _ hown hfirst)
        · intro hall m' hm'
          have hdata : m'.data = m.data :=
            (List.forall_mem_cons.mpr ⟨rfl, hall⟩ : ∀ m' ∈ m :: ms, m'.data = m.data) m' hm'
          rw [← hdata]
          exact h.verified.verified m' hm'
      rw [matchesProof_of_same hcfg h hsame hverified]
      exact ⟨fun hall _ => hall, fun hall => hall heq⟩
    · refine iff_of_true (matchesProof_of_not_same hcfg h hsame) fun hdiff => hsame ?_
      exact hiff.mpr (equalButDifferent_cons.mp hdiff).1

end Match

/-! ### A new-view with the other flag -/

namespace FlaggedNewView

/-- The leader of view 1 of four replicas without TEEs. -/
def cfg : HandlerConfig Unit where
  myid := 1
  nodeType := false
  numFaults := 1
  totalTEE := 0
  maxViews := 0
  nodes := [0, 1, 2, 3].foldl (fun m j => m.insert j ⟨(), false⟩) ∅
  priv := ()
  enclavePriv := ()
  enclavePub := ()
  fixedLeaderMode := false
  fixedLeader := 0

/-- The new-view of view 1; replica 3 sets the flag of the dummy hash. -/
def vote (j : PID) : RData :=
  ⟨⟨newHash.hash, j = 3⟩, 1, newHash, 0, Phase1.newview.byte⟩

/-- Every replica has signed its new-view and any accumulator. -/
def verify (s : Sign) : SignedText → Bool
  | .rdata d => d = vote s.signer
  | .accum _ => true

def oracle : Oracle Unit where
  sha256 _ := Vector.replicate _ 0
  signBuf _ _ := idealBytes
  verify _ s _ t := verify s t

def newviews (signers : List PID) : List MsgNewViewComb :=
  signers.map fun j => ⟨vote j, idealSign j⟩

theorem deployed : cfg.Deployed (oracle.crypto []) where
  tee_le := by decide
  qsize_le := by decide
  pub _ _ _ := rfl
  signs _ := ⟨⟨(), false⟩, rfl, rfl⟩

theorem verify_unique (t : Sign) (key : Unit) (d d' : RData)
    (h : oracle.verify [] t key (.rdata d) = true) (h' : oracle.verify [] t key (.rdata d') = true) :
    rdata2string d = rdata2string d' := by
  have hd : d = vote t.signer := of_decide_eq_true h
  have hd' : d' = vote t.signer := of_decide_eq_true h'
  rw [hd, hd']

/-- Three new-views of different replicas. -/
theorem newViewQuorum {signers : List PID} (hnodup : signers.Nodup) (hlength : signers.length = 3)
    (hmem : ∀ j ∈ signers, j < 4) : NewViewQuorum cfg (oracle.crypto []) 1 (newviews signers) where
  nodup := by
    unfold newviews
    rw [List.map_map]
    exact (List.map_id signers).symm ▸ hnodup
  accepted := by
    unfold newviews
    rw [List.forall_mem_map]
    intro j hj
    have hj := hmem j hj
    interval_cases j
    all_goals decide +kernel
  view := by
    unfold newviews
    rw [List.forall_mem_map]
    exact fun _ _ => rfl
  size := Or.inl (by rw [newviews, List.length_map, hlength]; decide)

/-- **The other flag**: the new-views of replicas 1, 2 and 3 are accepted, and the leader's accumulator
of them does not pass with its proof. -/
theorem not_matchesProof_flagged :
    NewViewQuorum cfg (oracle.crypto []) 1 (newviews [1, 2, 3]) ∧
      ¬ MatchesProof cfg oracle HandlerState.init (newviews [1, 2, 3]) := by
  refine ⟨newViewQuorum (by decide) rfl (by decide), ?_⟩
  rintro ⟨⟨acc, s', hok, hpasses⟩, -⟩
  have hacc : acc = (trustedTEEaccumSp (oracle.crypto []) cfg.hostVars
      ⟨true, vote 1, sameNewViewSigns (newviews [1, 2, 3])⟩) := (EStateM.Result.ok.inj hok).1.symm
  have hpass := (hpasses _ _ (checkers_self (s := HandlerState.init) deployed)).2.1
  rw [hacc] at hpass
  revert hpass
  decide +kernel

/-- Three new-views with the same flag. -/
theorem matchesProof_same :
    MatchesProof cfg oracle HandlerState.init (newviews [0, 1, 2]) :=
  (matchesProof_iff cfg oracle HandlerState.init (newviews [0, 1, 2]) deployed verify_unique
    (newViewQuorum (by decide) rfl (by decide))).mpr fun hdiff => by
      obtain ⟨-, m, hm, m', hm', hne⟩ := hdiff
      have hall : ∀ m ∈ newviews [0, 1, 2], m.data = vote 0 := by decide +kernel
      exact hne ((hall m hm).trans (hall m' hm').symm)

end FlaggedNewView

end Raftel
