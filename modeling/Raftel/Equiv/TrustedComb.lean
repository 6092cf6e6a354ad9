import Raftel.Equiv.Comb

/-!
# The host's component refines the checker

`trustedCall_outcome`: the calls of `TrustedComb` have the outcomes of the abstract checker too.
The checks that the enclave makes and this copy leaves out (a set block, a set accumulator) are not
part of the checker.
-/

namespace Raftel

variable {Key : Type} {cr : Crypto Key} {vars : TrustedVars Key}

/-- The environment of a host's component. -/
def TrustedVars.env (vars : TrustedVars Key) (cr : Crypto Key) : CheckEnv where
  qsize := vars.qsize
  tqsize := vars.tqsize
  isTEE pid := (vars.nodes.lookup pid).map HostNode.isTEE
  verified s t := ∃ nd, vars.nodes.lookup s.signer = some nd ∧ cr.verifySign s nd.pub t = true
  sha256 := cr.sha256

theorem any_isTEE_iff {o : Option (HostNode Key)} :
    o.any (·.isTEE) = true ↔ o.map HostNode.isTEE = some true := by
  cases o <;> simp

/-! ### Certificates -/

/-- **Certificates in the host.**  `verifyQuorum` of `TrustedComb.cpp` holds exactly of the quorum
certificates. -/
theorem trustedVerifyQuorum_iff {rd : RData} {signs : Signs} :
    trustedVerifyQuorum cr vars rd signs = true ↔ Certified (vars.env cr) rd signs := by
  unfold trustedVerifyQuorum
  split
  · next h =>
    simp only [Bool.false_eq_true, false_iff]
    intro hc
    have hpos := hc.size_pos
    have hle := hc.size_le
    have hkind : signs.size = vars.tqsize ∨ signs.size = vars.qsize := hc.kind.imp And.left id
    omega
  · next hsize =>
    cases hr : hostSignersFrom vars.nodes signs.entries [] true with
    | none =>
      simp only [Bool.false_eq_true, false_iff]
      intro hc
      have hsome : hostSignersFrom vars.nodes signs.entries [] true = some _ :=
        hostSignersFrom_eq_some.mpr ⟨hc.nodup, fun _ _ => List.not_mem_nil, fun s hs => ⟨(hc.known s hs).1, by
          simpa [TrustedVars.env] using (hc.known s hs).2⟩, rfl⟩
      rw [hr] at hsome
      exact absurd hsome (by simp)
    | some allTEE =>
      obtain ⟨hnodup, -, hset, hall⟩ := hostSignersFrom_eq_some.mp hr
      have hknown : ∀ s ∈ signs.entries, s.set = true ∧ ((vars.env cr).isTEE s.signer).isSome := by
        simpa [TrustedVars.env] using hset
      have htee : allTEE = true ↔
          ∀ s ∈ signs.entries, (vars.env cr).isTEE s.signer = some true := by
        rw [hall, Bool.true_and, List.all_eq_true]
        exact forall₂_congr fun s _ => any_isTEE_iff
      dsimp only
      split
      · next hkind =>
        simp only [Bool.false_eq_true, false_iff]
        intro hc
        rcases hc.kind with ⟨htq, hall'⟩ | hq
        · exact hkind.2 ⟨htq, htee.mpr hall'⟩
        · exact hkind.1 hq
      · next hkind =>
        rw [Signs.verify_eq_true]
        refine ⟨fun hver => ⟨by omega, by omega, hnodup, hknown, hver, ?_⟩, fun hc => hc.verified⟩
        rw [not_and_or, not_not, not_not, htee] at hkind
        exact hkind.symm

/-! ### New-view proofs -/

theorem trustedProofFrom_eq_some {view : View} {es : List OneJust} {signers : List PID}
    {allTEE r : Bool} {v v' : View} {h h' : Hash} :
    trustedProofFrom cr vars view es allTEE signers v h = some (r, v', h') ↔
      (es.map fun e => e.sign.signer).Nodup ∧ (∀ e ∈ es, e.sign.signer ∉ signers) ∧
        (∀ e ∈ es, e.set = true ∧ e.sign.set = true ∧
          ((vars.env cr).isTEE e.sign.signer).isSome ∧
          e.rdata.phase = Phase1.newview.byte ∧ e.rdata.propv = view ∧
          (vars.env cr).verified e.sign (.rdata e.rdata)) ∧
        r = (allTEE && es.all fun e => (vars.env cr).isTEE e.sign.signer = some true) ∧
        (v', h') = highestJust v h (es.map OneJust.rdata) := by
  induction es generalizing allTEE signers v h with
  | nil =>
    simp only [trustedProofFrom, Option.some.injEq, Prod.mk.injEq, List.map_nil, List.nodup_nil,
      List.not_mem_nil, false_imp_iff, implies_true, true_and, List.all_nil, Bool.and_true,
      highestJust]
    grind
  | cons e es ih =>
    cases hl : vars.nodes.lookup e.sign.signer with
    | none => simp [trustedProofFrom, hl, TrustedVars.env]
    | some node =>
      have hver : (Signs.one e.sign).verify cr.verifySign vars.nodes (.rdata e.rdata) = true ↔
          (vars.env cr).verified e.sign (.rdata e.rdata) := by
        rw [Signs.verify_eq_true]
        simp [TrustedVars.env]
      have htee : (vars.env cr).isTEE e.sign.signer = some node.isTEE := by
        simp [TrustedVars.env, hl]
      have htail : (some node.isTEE = some true) = (node.isTEE = true) := by simp
      simp only [trustedProofFrom, hl]
      split
      · next hgood =>
        simp only [Bool.and_eq_true, decide_eq_true_eq, hver] at hgood
        obtain ⟨⟨⟨⟨⟨hset, hsign⟩, hnew⟩, hphase⟩, hview⟩, hverified⟩ := hgood
        by_cases hj : e.rdata.justv ≥ v
        all_goals
          simp only [hj, if_true, if_false, ih, List.map_cons, List.nodup_cons, List.mem_map,
            List.mem_cons, forall_eq_or_imp, not_or, htee, Option.isSome_some, List.all_cons,
            Bool.and_assoc, highestJust, htail, Bool.decide_eq_true]
          grind
      · next hbad =>
        simp only [reduceCtorEq, false_iff]
        rintro ⟨-, hnew, hok, -⟩
        obtain ⟨h1, h2, -, h3, h4, h5⟩ := hok e List.mem_cons_self
        have h6 := hnew e List.mem_cons_self
        simp [h1, h2, h3, h4, h6, hver.mpr h5] at hbad

/-- **New-view proofs in the host.** -/
theorem validProof_of_trustedValidProof {view : View} {nvs : NewViews} {acc : Accum}
    (h : trustedValidProof cr vars view nvs acc = true)
    (hacc : (Signs.one acc.sign).verify cr.verifySign vars.nodes (.accum acc.toAccumData) = true) :
    ValidProof (vars.env cr) view nvs acc := by
  unfold trustedValidProof at h
  split at h
  · next hsize =>
    cases hr : trustedProofFrom cr vars view nvs.entries true [] 0 newHash with
    | none => simp [hr] at h
    | some r =>
      obtain ⟨allTEE, highest, highestHash⟩ := r
      obtain ⟨hnodup, -, hok, hall, hhigh⟩ := trustedProofFrom_eq_some.mp hr
      obtain ⟨rfl, rfl⟩ := Prod.mk.injEq .. ▸ hhigh
      simp only [hr, Bool.and_eq_true, Bool.or_eq_true, decide_eq_true_eq, eqHashes_eq_true] at h
      obtain ⟨⟨⟨⟨htype, haccsize⟩, hview⟩, hprepv⟩, hhash⟩ := h
      refine ⟨hsize.1, hsize.2.1, hnodup, fun e he => (hok e he).2.2.1,
        fun e he => ⟨(hok e he).2.2.2.1, (hok e he).2.2.2.2.1⟩, fun e he => (hok e he).2.2.2.2.2,
        ?_, hview, haccsize, hprepv, hhash, ?_⟩
      · rcases htype with hq | ⟨htq, htee⟩
        · exact Or.inl hq
        · refine Or.inr ⟨htq, fun e he => ?_⟩
          rw [hall, Bool.true_and, List.all_eq_true] at htee
          exact of_decide_eq_true (htee e he)
      · rw [Signs.verify_eq_true] at hacc
        exact hacc acc.sign (by simp)
  · exact absurd h (by decide)

/-! ### The calls -/

theorem trustedSign_outcome {env : CheckEnv} {st : CombState} (st' : CombState) {c : Call}
    {h₁ h₂ : Hash} {v₂ : View}
    (hacc : Accepts env st ⟨h₁, st'.view, h₂, v₂, st'.phase.byte⟩ st'.increment c) :
    Outcome env st c (.just (trustedSign cr vars h₁ h₂ v₂ st').1)
      (trustedSign cr vars h₁ h₂ v₂ st').2 :=
  .accepted _ rfl rfl hacc

theorem trustedTEEprepare_outcome {block : Block} {acc : Accum} {nvs : NewViews}
    {st : CombState} :
    Outcome (vars.env cr) st (.prepare block acc nvs)
      (.just (trustedTEEprepare cr vars block acc nvs st).1)
      (trustedTEEprepare cr vars block acc nvs st).2 := by
  unfold trustedTEEprepare
  dsimp only
  split
  · next h =>
    simp only [Bool.and_eq_true, safeParent, eqHashes_eq_true, Bool.or_eq_true,
      decide_eq_true_eq] at h
    obtain ⟨⟨hproof, hparent, hsafe⟩, hverify⟩ := h
    simp only [any_isTEE_iff]
    refine trustedSign_outcome (st.prepared (vars.env cr) block acc) ?_
    rw [CombState.prepared_view, CombState.prepared_phase]
    exact .prepare (validProof_of_trustedValidProof hproof hverify) hparent hsafe rfl rfl
  · exact .refused _ rfl rfl rfl

theorem trustedTEEstore_outcome {just : Just} {st : CombState} :
    Outcome (vars.env cr) st (.store just) (.just (trustedTEEstore cr vars just st).1)
      (trustedTEEstore cr vars just st).2 := by
  unfold trustedTEEstore
  dsimp only
  split
  · next h =>
    simp only [Bool.and_eq_true, Bool.or_eq_true, decide_eq_true_eq] at h
    obtain ⟨⟨hqc, hview⟩, hphase⟩ := h
    refine trustedSign_outcome _ ?_
    exact .store (trustedVerifyQuorum_iff.mp hqc) hview.symm hphase (by simp) rfl
  · exact .refused _ rfl rfl rfl

/-- **The host's component refines the checker.** -/
theorem trustedCall_outcome (st : CombState) (c : Call) :
    Outcome (vars.env cr) st c (trustedCall cr vars st c).1 (trustedCall cr vars st c).2 := by
  cases c with
  | sign => exact .accepted _ rfl rfl (.sign rfl rfl)
  | prepare block acc nvs => exact trustedTEEprepare_outcome
  | store just => exact trustedTEEstore_outcome
  | accum justs => exact .accum _ rfl rfl
  | accumSp just => exact .accum _ rfl rfl

end Raftel
