import Raftel.Checker

/-!
# What the verification functions accept

The loops over signatures, in the enclave (`verifySigns`, `verifyQuorum`) and in the host
(`Signs::verify`, `hostSignersFrom`), as statements about the list of signatures in use.
-/

namespace Raftel

@[simp]
theorem Signs.entries_one (s : Sign) : (Signs.one s).entries = [s] := rfl

@[simp]
theorem Signs.size_one (s : Sign) : (Signs.one s).size = 1 := rfl

theorem Signs.length_entries {ss : Signs} (h : ss.size ≤ maxNumSignatures) :
    ss.entries.length = ss.size := by
  rw [Signs.entries, List.length_take, Vector.length_toList]
  omega

theorem Signs.entries_ofList {l : List Sign} (h : l.length ≤ maxNumSignatures) :
    (Signs.ofList l).entries = l := by
  apply List.ext_getElem
  · rw [Signs.length_entries (show (Signs.ofList l).size ≤ _ from h)]
    rfl
  · intro i _ hi
    simp [Signs.entries, Signs.ofList, hi]

theorem NewViews.length_entries {nvs : NewViews} (h : nvs.size ≤ maxNumSignatures) :
    nvs.entries.length = nvs.size := by
  rw [NewViews.entries, List.length_take, Vector.length_toList]
  omega

/-! ### Tables -/

theorem lookup_foldl_insert {K V : Type} [DecidableEq K] {v : K → V} {l : List K} {a : K}
    {m : StdMap K V} :
    (l.foldl (fun m j => m.insert j (v j)) m).lookup a =
      if a ∈ l then some (v a) else m.lookup a := by
  induction l generalizing m with
  | nil => simp
  | cons b l ih =>
    rw [List.foldl_cons, ih]
    by_cases hal : a ∈ l
    · simp [hal]
    · by_cases hab : a = b
      · subst hab
        simp [hal]
      · simp [hal, hab, AList.lookup_insert_ne hab]

/-! ### The enclave -/

section Enclave

variable {Key T : Type} {verifySign : Sign → Key → T → Bool}

theorem verifySignsFrom_eq_true {pubs : StdMap PID Key} {t : T} {ss : List Sign}
    {unique : List PID} :
    verifySignsFrom verifySign pubs t unique ss = true ↔
      (ss.map Sign.signer).Nodup ∧ (∀ s ∈ ss, s.signer ∉ unique) ∧
        ∀ s ∈ ss, s.set = true ∧ ∃ pub, pubs.lookup s.signer = some pub ∧
          verifySign s pub t = true := by
  induction ss generalizing unique with
  | nil => simp [verifySignsFrom]
  | cons s ss ih =>
    by_cases hs : s.set = true ∧ s.signer ∉ unique
    · obtain ⟨hset, hnew⟩ := hs
      cases hl : pubs.lookup s.signer with
      | none => simp [verifySignsFrom, hl]
      | some pub =>
        simp only [verifySignsFrom, hset, hnew, hl, ih, Bool.not_true, Bool.false_or,
          decide_false, Bool.false_eq_true, if_false, Bool.and_eq_true, List.map_cons,
          List.nodup_cons, List.mem_map, List.mem_cons, forall_eq_or_imp, not_or]
        grind
    · have hf : verifySignsFrom verifySign pubs t unique (s :: ss) = false := by
        simp only [verifySignsFrom]
        rw [if_pos]
        simpa [imp_iff_not_or] using hs
      simp only [hf, Bool.false_eq_true, false_iff]
      rintro ⟨-, hnew, hset⟩
      exact hs ⟨(hset s List.mem_cons_self).1, hnew s List.mem_cons_self⟩

theorem EnclaveVars.verifyText_eq_true {vars : EnclaveVars Key} {signs : Signs} {t : T} :
    vars.verifyText verifySign signs t = true ↔
      0 < signs.size ∧ signs.size ≤ maxNumSignatures ∧ (signs.entries.map Sign.signer).Nodup ∧
        ∀ s ∈ signs.entries, s.set = true ∧ ∃ pub, vars.pubs.lookup s.signer = some pub ∧
          verifySign s pub t = true := by
  unfold EnclaveVars.verifyText verifySigns
  split
  · next h =>
    simp only [Bool.false_eq_true, false_iff]
    rintro ⟨hpos, hle, -⟩
    omega
  · next h =>
    rw [verifySignsFrom_eq_true]
    have hsize : 0 < signs.size ∧ signs.size ≤ maxNumSignatures := by omega
    simp [hsize]

theorem EnclaveVars.verifyText_one {vars : EnclaveVars Key} {s : Sign} {t : T} :
    vars.verifyText verifySign (Signs.one s) t = true ↔
      s.set = true ∧ ∃ pub, vars.pubs.lookup s.signer = some pub ∧ verifySign s pub t = true := by
  rw [EnclaveVars.verifyText_eq_true]
  simp [Nat.succ_le_of_lt maxNumSignatures_pos]

theorem EnclaveVars.verifyQuorum_eq_true {vars : EnclaveVars Key} {signs : Signs} {t : T}
    {expectedSize : ℕ} {teeOnly : Bool} :
    vars.verifyQuorum verifySign signs t expectedSize teeOnly = true ↔
      signs.size = expectedSize ∧
      (∀ s ∈ signs.entries, ∃ isTEE, vars.nodeIsTEE.lookup s.signer = some isTEE ∧
        (teeOnly = true → isTEE = true)) ∧
      vars.verifyText verifySign signs t = true := by
  unfold EnclaveVars.verifyQuorum
  split
  · next h =>
    simp only [Bool.false_eq_true, false_iff]
    rintro ⟨hsize, -, ht⟩
    obtain ⟨hpos, hle, -⟩ := verifyText_eq_true.mp ht
    omega
  · next h =>
    have hsize : signs.size = expectedSize := by omega
    split
    · next hany =>
      simp only [Bool.false_eq_true, false_iff]
      rintro ⟨-, hall, -⟩
      obtain ⟨s, hs, hbad⟩ := List.any_eq_true.mp hany
      obtain ⟨isTEE, hl, himp⟩ := hall s hs
      simp only [hl, Bool.and_eq_true, Bool.not_eq_true'] at hbad
      rw [himp hbad.1] at hbad
      exact absurd hbad.2 (by decide)
    · next hany =>
      have hall : ∀ s ∈ signs.entries, ∃ isTEE, vars.nodeIsTEE.lookup s.signer = some isTEE ∧
          (teeOnly = true → isTEE = true) := by
        intro s hs
        have hgood := List.any_eq_false.mp (Bool.not_eq_true _ ▸ hany) s hs
        cases hl : vars.nodeIsTEE.lookup s.signer with
        | none => simp [hl] at hgood
        | some isTEE =>
          refine ⟨isTEE, rfl, fun htee => ?_⟩
          simpa [hl, htee] using hgood
      simp only [hsize, true_and]
      exact ⟨fun ht => ⟨hall, ht⟩, fun ht => ht.2⟩

end Enclave

/-! ### The host -/

section Host

variable {Key T : Type} {verifySign : Sign → Key → T → Bool} {nodes : Nodes Key}

theorem Signs.verify_eq_true {signs : Signs} {t : T} :
    signs.verify verifySign nodes t = true ↔
      ∀ s ∈ signs.entries, ∃ nd, nodes.lookup s.signer = some nd ∧
        verifySign s nd.pub t = true := by
  unfold Signs.verify
  rw [List.all_eq_true]
  refine forall₂_congr fun s _ => ?_
  cases nodes.lookup s.signer <;> simp

theorem hostSignersFrom_eq_some {ss : List Sign} {unique : List PID} {allTEE r : Bool} :
    hostSignersFrom nodes ss unique allTEE = some r ↔
      (ss.map Sign.signer).Nodup ∧ (∀ s ∈ ss, s.signer ∉ unique) ∧
        (∀ s ∈ ss, s.set = true ∧ (nodes.lookup s.signer).isSome) ∧
        r = (allTEE && ss.all fun s => (nodes.lookup s.signer).any (·.isTEE)) := by
  induction ss generalizing unique allTEE with
  | nil =>
    simp only [hostSignersFrom, Option.some.injEq, List.map_nil, List.nodup_nil, List.not_mem_nil,
      false_imp_iff, implies_true, true_and, List.all_nil, Bool.and_true]
    exact eq_comm
  | cons s ss ih =>
    cases hl : nodes.lookup s.signer with
    | none => simp [hostSignersFrom, hl]
    | some nd =>
      simp only [hostSignersFrom, hl]
      split
      · next h =>
        simp only [reduceCtorEq, false_iff]
        rintro ⟨-, hnew, hset, -⟩
        have h1 := hnew s List.mem_cons_self
        have h2 := (hset s List.mem_cons_self).1
        simp [h1, h2] at h
      · next h =>
        simp only [Bool.or_eq_true, Bool.not_eq_true', decide_eq_true_eq, not_or,
          Bool.not_eq_false] at h
        simp only [ih, List.map_cons, List.nodup_cons, List.mem_map, List.mem_cons,
          forall_eq_or_imp, not_or, hl, Option.isSome_some, List.all_cons, Option.any_some,
          Bool.and_assoc]
        grind

end Host

end Raftel
