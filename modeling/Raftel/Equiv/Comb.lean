import Raftel.Equiv.Share

/-!
# The enclave refines the checker

`enclaveCall_outcome`: whatever a call to the enclave replies, it is an outcome of the abstract
checker, in the environment that the enclave's variables describe.
-/

namespace Raftel

variable {Key : Type} {cr : Crypto Key} {vars : EnclaveVars Key}

/-- The environment of an enclave. -/
def EnclaveVars.env (vars : EnclaveVars Key) (cr : Crypto Key) : CheckEnv where
  qsize := vars.qsize
  tqsize := vars.tqsize
  isTEE pid := vars.nodeIsTEE.lookup pid
  verified s t := s.set = true ∧
    ∃ pub, vars.pubs.lookup s.signer = some pub ∧ cr.verifySign s pub t = true
  sha256 := cr.sha256

/-! ### Certificates -/

/-- **Certificates in the enclave.**  `validQC` of `COMB_TEEstore` holds exactly of the quorum
certificates. -/
theorem combValidQC_iff {just : Just} :
    combValidQC cr vars just = true ↔ Certified (vars.env cr) just.rdata just.signs := by
  simp only [combValidQC, Bool.or_eq_true, Bool.and_eq_true, decide_eq_true_eq,
    EnclaveVars.verifyQuorum_eq_true, EnclaveVars.verifyText_eq_true]
  constructor
  · rintro (⟨hsize, -, htee, hpos, hle, hnodup, hver⟩ | ⟨hsize, -, hany, hpos, hle, hnodup, hver⟩)
    · have hall : ∀ s ∈ just.signs.entries, vars.nodeIsTEE.lookup s.signer = some true := by
        intro s hs
        obtain ⟨isTEE, hl, htrue⟩ := htee s hs
        rw [hl, htrue trivial]
      refine ⟨hpos, hle, hnodup, fun s hs => ⟨(hver s hs).1, ?_⟩, hver, Or.inl ⟨hsize, hall⟩⟩
      simp [EnclaveVars.env, hall s hs]
    · refine ⟨hpos, hle, hnodup, fun s hs => ⟨(hver s hs).1, ?_⟩, hver, Or.inr hsize⟩
      obtain ⟨isTEE, hl, -⟩ := hany s hs
      simp [EnclaveVars.env, hl]
  · rintro ⟨hpos, hle, hnodup, hknown, hver, hkind⟩
    have hany : ∀ s ∈ just.signs.entries, ∃ isTEE, vars.nodeIsTEE.lookup s.signer = some isTEE :=
      fun s hs => Option.isSome_iff_exists.mp (hknown s hs).2
    rcases hkind with ⟨hsize, htee⟩ | hsize
    · exact Or.inl ⟨hsize, hsize, fun s hs => ⟨true, htee s hs, fun _ => rfl⟩, hpos, hle, hnodup,
        hver⟩
    · refine Or.inr ⟨hsize, hsize, fun s hs => ?_, hpos, hle, hnodup, hver⟩
      obtain ⟨isTEE, hl⟩ := hany s hs
      exact ⟨isTEE, hl, fun h => absurd h (by decide)⟩

/-! ### New-view proofs -/

theorem combValidateFrom_eq_some {view : View} {es : List OneJust} {signers : List PID}
    {allTEE r : Bool} {v v' : View} {h h' : Hash} :
    combValidateFrom cr vars view es allTEE signers v h = some (r, v', h') ↔
      (es.map fun e => e.sign.signer).Nodup ∧ (∀ e ∈ es, e.sign.signer ∉ signers) ∧
        (∀ e ∈ es, e.set = true ∧ (vars.nodeIsTEE.lookup e.sign.signer).isSome ∧
          e.rdata.phase = Phase1.newview.byte ∧ e.rdata.propv = view ∧
          (vars.env cr).verified e.sign (.rdata e.rdata)) ∧
        r = (allTEE && es.all fun e => vars.nodeIsTEE.lookup e.sign.signer = some true) ∧
        (v', h') = highestJust v h (es.map OneJust.rdata) := by
  induction es generalizing allTEE signers v h with
  | nil =>
    simp only [combValidateFrom, Option.some.injEq, Prod.mk.injEq, List.map_nil, List.nodup_nil,
      List.not_mem_nil, false_imp_iff, implies_true, true_and, List.all_nil, Bool.and_true,
      highestJust]
    grind
  | cons e es ih =>
    cases hl : vars.nodeIsTEE.lookup e.sign.signer with
    | none => simp [combValidateFrom, hl]
    | some isTEE =>
      have hver : vars.verifyText cr.verifySign (Signs.one e.sign) (.rdata e.rdata) = true ↔
          (vars.env cr).verified e.sign (.rdata e.rdata) := EnclaveVars.verifyText_one
      simp only [combValidateFrom, hl]
      split
      · next hbad =>
        simp only [reduceCtorEq, false_iff]
        rintro ⟨-, hnew, hok, -⟩
        obtain ⟨h1, -, h2, h3, h4⟩ := hok e List.mem_cons_self
        have h5 := hnew e List.mem_cons_self
        simp [h1, h2, h3, h5, hver.mpr h4] at hbad
      · next hgood =>
        simp only [Bool.or_eq_true, Bool.not_eq_true', decide_eq_true_eq, not_or, not_not,
          Bool.not_eq_false, hver] at hgood
        obtain ⟨⟨⟨⟨hset, hnew⟩, hphase⟩, hview⟩, hverified⟩ := hgood
        have htail : (some isTEE = some true) = (isTEE = true) := by simp
        by_cases hj : e.rdata.justv ≥ v
        all_goals
          simp only [hj, if_true, if_false, ih, List.map_cons, List.nodup_cons, List.mem_map,
            List.mem_cons, forall_eq_or_imp, not_or, hl, Option.isSome_some, List.all_cons,
            Bool.and_assoc, highestJust, htail, Bool.decide_eq_true]
          grind

/-- **New-view proofs in the enclave.** -/
theorem validProof_of_combValidateNewViews {view : View} {nvs : NewViews} {acc : Accum}
    (h : combValidateNewViews cr vars view nvs acc = true) :
    ValidProof (vars.env cr) view nvs acc := by
  unfold combValidateNewViews at h
  split at h
  · exact absurd h (by decide)
  · next hsize =>
    cases hr : combValidateFrom cr vars view nvs.entries true [] 0 newHash with
    | none => simp [hr] at h
    | some r =>
      obtain ⟨allTEE, highest, highestHash⟩ := r
      obtain ⟨hnodup, -, hok, hall, hhigh⟩ := combValidateFrom_eq_some.mp hr
      obtain ⟨rfl, rfl⟩ := Prod.mk.injEq .. ▸ hhigh
      simp only [hr, Bool.and_eq_true, decide_eq_true_eq, eqHashes_eq_true] at h
      obtain ⟨⟨⟨⟨⟨⟨htype, -⟩, hview⟩, haccsize⟩, hprepv⟩, hhash⟩, hacc⟩ := h
      refine ⟨by omega, by omega, hnodup, fun e he => (hok e he).2.1,
        fun e he => ⟨(hok e he).2.2.1, (hok e he).2.2.2.1⟩, fun e he => (hok e he).2.2.2.2, ?_,
        hview, haccsize, hprepv, hhash, EnclaveVars.verifyText_one.mp hacc⟩
      rcases htype with hq | ⟨htq, htee⟩
      · exact Or.inl hq
      · refine Or.inr ⟨htq, fun e he => ?_⟩
        rw [hall, Bool.true_and, List.all_eq_true] at htee
        exact of_decide_eq_true (htee e he)

/-! ### The calls -/

theorem combSign_outcome {env : CheckEnv} {st : CombState} (st' : CombState) {c : Call}
    {h₁ h₂ : Hash} {v₂ : View}
    (hacc : Accepts env st ⟨h₁, st'.view, h₂, v₂, st'.phase.byte⟩ st'.increment c) :
    Outcome env st c (.just (combSign cr vars h₁ h₂ v₂ st').1)
      (combSign cr vars h₁ h₂ v₂ st').2 :=
  .accepted _ rfl rfl hacc

theorem combTEEprepare_outcome {block : Block} {acc : Accum} {nvs : NewViews} {st : CombState} :
    Outcome (vars.env cr) st (.prepare block acc nvs)
      (.just (combTEEprepare cr vars block acc nvs st).1)
      (combTEEprepare cr vars block acc nvs st).2 := by
  unfold combTEEprepare
  dsimp only
  split
  · next h =>
    simp only [Bool.and_eq_true, safeParent, eqHashes_eq_true, Bool.or_eq_true,
      decide_eq_true_eq] at h
    obtain ⟨⟨hset, hproof⟩, hparent, hsafe⟩ := h
    rw [combHashBlock_of_set hset]
    refine combSign_outcome (st.prepared (vars.env cr) block acc) ?_
    rw [CombState.prepared_view, CombState.prepared_phase]
    exact .prepare (validProof_of_combValidateNewViews hproof) hparent hsafe rfl rfl
  · exact .refused _ rfl rfl rfl

theorem combTEEstore_outcome {just : Just} {st : CombState} :
    Outcome (vars.env cr) st (.store just) (.just (combTEEstore cr vars just st).1)
      (combTEEstore cr vars just st).2 := by
  unfold combTEEstore
  dsimp only
  split
  · next h =>
    simp only [Bool.and_eq_true, Bool.or_eq_true, decide_eq_true_eq] at h
    obtain ⟨⟨hqc, hview⟩, hphase⟩ := h
    refine combSign_outcome _ ?_
    exact .store (combValidQC_iff.mp hqc) hview.symm hphase (by simp) rfl
  · exact .refused _ rfl rfl rfl

/-- **The enclave refines the checker.** -/
theorem enclaveCall_outcome (st : CombState) (c : Call) :
    Outcome (vars.env cr) st c (enclaveCall cr vars st c).1 (enclaveCall cr vars st c).2 := by
  cases c with
  | sign => exact .accepted _ rfl rfl (.sign rfl rfl)
  | prepare block acc nvs => exact combTEEprepare_outcome
  | store just => exact combTEEstore_outcome
  | accum justs => exact .accum _ rfl rfl
  | accumSp just => exact .accum _ rfl rfl

end Raftel
