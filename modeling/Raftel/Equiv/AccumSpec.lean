import Raftel.Enclave.Families
import Raftel.Equiv.Accum
import Raftel.Lib.Firsts

/-!
# The specification of the accumulators

An accumulator of new-views for a view counts the signers that have a valid one and reports the last of the
highest pairs (`justv`, `justh`) of their first valid new-views.  The loops skip what is not valid and
repeated signers, so this is what they compute (`accumulators_spec`).

`DAMYSUS_TEEaccum` puts a signer into its set before it verifies the signature, and so counts signers and
skips new-views that the hybrid accumulator does not: `damysusAgrees_iff` says for which arrays the two
agree.
-/

namespace Raftel

variable {Key : Type}

/-! ### The specification -/

section Spec

variable {α β : Type} (env : CheckEnv) (data : α → RData) (signs : α → Signs)

/-- The signer of an entry. -/
def entrySigner (a : α) : PID := ((signs a).get 0).signer

open Classical in
/-- The valid new-views among the entries. -/
noncomputable def validEntries (v : View) (entries : List α) : List α :=
  entries.filter fun a => ValidNewView env v (data a) (signs a)

/-- The first valid new-view of each signer. -/
noncomputable def firstEntryOfEach (v : View) (entries : List α) : List α :=
  Lib.firsts (entrySigner signs) (validEntries env data signs v entries)

/-- The pair to be reported for new-views: the one of the last with the highest view, and the genesis pair
when there is none. -/
def Reports (newviews : List RData) (prepv : View) (hash : Hash) : Prop :=
  (newviews = [] ∧ prepv = 0 ∧ hash = newHash) ∨
    ∃ d, Lib.IsLastMax RData.justv newviews d ∧ prepv = d.justv ∧ hash = d.justh

/-- What an accumulator of `entries` for view `v` has to be. -/
structure Accumulates (entries : List α) (v : View) (acc : Accum) : Prop where
  set : acc.set = true
  view : acc.view = v
  size : acc.size = ((validEntries env data signs v entries).map (entrySigner signs)).toFinset.card
  highest : ∃ firsts, Lib.FirstOfEach (entrySigner signs) (validEntries env data signs v entries) firsts ∧
    Reports (firsts.map data) acc.prepv acc.hash

/-- What a function from arrays to accumulators has to do; `entries` are the entries that are looked at,
`view` is the view of the first one.  Entries that are not valid, or not the first of their signer, make no
difference. -/
structure AccumSpec (accum : β → Accum) (view : β → View) (entries : β → List α) : Prop where
  accumulates : ∀ js, Accumulates env data signs (entries js) (view js) (accum js)
  ignores : ∀ js js', view js = view js' →
    (firstEntryOfEach env data signs (view js) (entries js)).map data =
        (firstEntryOfEach env data signs (view js') (entries js')).map data →
      accum js = accum js'

open Classical in
/-- A check of the entries that passes the valid ones leaves these. -/
theorem filter_eq_validEntries {ok : α → Bool} {v : View}
    (hok : ∀ a, ok a = true ↔ ValidNewView env v (data a) (signs a)) (entries : List α) :
    entries.filter ok = validEntries env data signs v entries :=
  List.filter_congr fun a _ => Bool.eq_iff_iff.mpr ((hok a).trans decide_eq_true_iff.symm)

end Spec

/-! ### The highest pair -/

theorem highestJust_concat (v : View) (h : Hash) (ds : List RData) (d : RData) :
    highestJust v h (ds ++ [d]) =
      if d.justv ≥ (highestJust v h ds).1 then (d.justv, d.justh) else highestJust v h ds := by
  induction ds generalizing v h with
  | nil => rfl
  | cons d' ds ih =>
    simp only [List.cons_append, highestJust]
    split
    · exact ih _ _
    · exact ih _ _

/-- The loop ends at the last maximum. -/
theorem exists_isLastMax_highestJust {ds : List RData} (hne : ds ≠ []) :
    ∃ d, Lib.IsLastMax RData.justv ds d ∧ highestJust 0 newHash ds = (d.justv, d.justh) := by
  induction ds using List.reverseRecOn with
  | nil => exact absurd rfl hne
  | append_singleton ds d ih =>
    rw [highestJust_concat]
    rcases List.eq_nil_or_concat ds with rfl | ⟨_, _, hds⟩
    · exact ⟨d, Lib.isLastMax_singleton, if_pos (Nat.zero_le _)⟩
    · have hne' : ds ≠ [] := by
        rw [hds]
        simp
      obtain ⟨best, hbest, hrun⟩ := ih hne'
      rw [hrun]
      by_cases hge : d.justv ≥ best.justv
      · exact ⟨d, hbest.concat_of_le hge, if_pos hge⟩
      · exact ⟨best, hbest.concat_of_lt (Nat.lt_of_not_le hge), if_neg hge⟩

/-- **The pair of the loop is the one to be reported**, and no other is. -/
theorem reports_iff {ds : List RData} {prepv : View} {hash : Hash} :
    Reports ds prepv hash ↔ highestJust 0 newHash ds = (prepv, hash) := by
  rcases List.eq_nil_or_concat ds with rfl | ⟨ds', d', hds⟩
  · constructor
    · rintro (⟨-, rfl, rfl⟩ | ⟨d, hd, -⟩)
      · rfl
      · exact absurd hd.mem List.not_mem_nil
    · intro h
      cases h
      exact Or.inl ⟨rfl, rfl, rfl⟩
  · have hne : ds ≠ [] := by
      rw [hds]
      simp
    obtain ⟨best, hbest, hrun⟩ := exists_isLastMax_highestJust hne
    rw [hrun]
    constructor
    · rintro (⟨hnil, -⟩ | ⟨d, hd, rfl, rfl⟩)
      · exact absurd hnil hne
      · rw [hbest.unique hd]
    · intro h
      rw [Prod.mk.injEq] at h
      exact Or.inr ⟨best, hbest, h.1.symm, h.2.symm⟩

/-! ### The hybrid loop -/

section Loop

variable {α : Type} {ok : α → Bool} {signer : α → PID} {data : α → RData}

/-- **The loop keeps the first valid entry of each signer.** -/
theorem accumLoop_eq_firsts (l : List α) : accumLoop ok signer data l [] 0 newHash =
    (((Lib.firsts signer (l.filter ok)).map signer).reverse,
      highestJust 0 newHash ((Lib.firsts signer (l.filter ok)).map data)) := by
  induction l using List.reverseRecOn with
  | nil => rfl
  | append_singleton l a ih =>
    rw [accumLoop_append, ih, List.filter_append]
    by_cases hok : ok a = true
    · have hone : [a].filter ok = [a] := by simp [hok]
      have hmem : signer a ∈ ((Lib.firsts signer (l.filter ok)).map signer).reverse ↔
          signer a ∈ (Lib.firsts signer (l.filter ok)).map signer := List.mem_reverse
      rw [hone, Lib.firsts_concat]
      simp only [accumLoop, hok, Bool.true_and, decide_eq_true_eq]
      by_cases hold : signer a ∈ (Lib.firsts signer (l.filter ok)).map signer
      · rw [if_pos hold, if_neg (not_not.mpr (hmem.mpr hold))]
      · rw [if_neg hold, if_pos (mt hmem.mp hold), List.map_append, List.map_append,
          List.reverse_append, List.map_singleton, List.map_singleton, highestJust_concat]
        split
        · rfl
        · rfl
    · have hone : [a].filter ok = [] := by simp [hok]
      rw [hone, List.append_nil]
      simp [accumLoop, hok]

/-- The signers of the first valid entries are all signers with a valid entry. -/
theorem length_firsts_signers (l : List α) :
    (((Lib.firsts signer (l.filter ok)).map signer).reverse).length =
      ((l.filter ok).map signer).toFinset.card := by
  rw [List.length_reverse, List.length_map, Lib.length_firsts]

theorem reports_highestJust (ds : List RData) :
    Reports ds (highestJust 0 newHash ds).1 (highestJust 0 newHash ds).2 :=
  reports_iff.mpr rfl

/-- A function that returns what the loop computes meets the specification, when the loop's check passes the
valid new-views. -/
theorem accumSpec_of_loop {β : Type} {env : CheckEnv} {signs : α → Signs} {accum : β → Accum}
    {view : β → View} {entries : β → List α} {check : View → α → Bool}
    (hcheck : ∀ v a, check v a = true ↔ ValidNewView env v (data a) (signs a))
    (result : View → View → Hash → ℕ → Accum)
    (hresult : ∀ v prepv hash size, (result v prepv hash size).toAccumData =
      ⟨true, v, prepv, hash, size⟩)
    (haccum : ∀ js, accum js =
      result (view js)
        (accumLoop (check (view js)) (entrySigner signs) data (entries js) [] 0 newHash).2.1
        (accumLoop (check (view js)) (entrySigner signs) data (entries js) [] 0 newHash).2.2
        (accumLoop (check (view js)) (entrySigner signs) data (entries js) [] 0 newHash).1.length) :
    AccumSpec env data signs accum view entries := by
  have hvalid : ∀ js, (entries js).filter (check (view js)) =
      validEntries env data signs (view js) (entries js) :=
    fun js => filter_eq_validEntries env data signs (hcheck (view js)) (entries js)
  constructor
  · intro js
    have hdata := hresult (view js)
      (accumLoop (check (view js)) (entrySigner signs) data (entries js) [] 0 newHash).2.1
      (accumLoop (check (view js)) (entrySigner signs) data (entries js) [] 0 newHash).2.2
      (accumLoop (check (view js)) (entrySigner signs) data (entries js) [] 0 newHash).1.length
    rw [← haccum js, accumLoop_eq_firsts, length_firsts_signers, hvalid js] at hdata
    refine ⟨congrArg AccumData.set hdata, congrArg AccumData.view hdata,
      congrArg AccumData.size hdata, _, Lib.firsts_firstOfEach _ _, ?_⟩
    rw [congrArg AccumData.prepv hdata, congrArg AccumData.hash hdata]
    exact reports_highestJust _
  · intro js js' hview hsame
    have hlength : (firstEntryOfEach env data signs (view js) (entries js)).length =
        (firstEntryOfEach env data signs (view js') (entries js')).length := by
      simpa using congrArg List.length hsame
    unfold firstEntryOfEach at hsame hlength
    rw [haccum js, haccum js', accumLoop_eq_firsts, accumLoop_eq_firsts, hvalid js, hvalid js', hsame]
    simp only [List.length_reverse, List.length_map]
    rw [hlength, hview]

end Loop

/-! ### The accumulators -/

section Hybrid

variable (cr : Crypto Key) (ev : EnclaveVars Key) (tv : TrustedVars Key)

/-- The view of the first entry. -/
def viewOfFirst (js : OneJusts) : View := (js.get ⟨0, maxNumSignatures_pos⟩).rdata.propv

def viewOfFirstJust (js : Vector Just maxNumSignatures) : View :=
  (js.get ⟨0, maxNumSignatures_pos⟩).rdata.propv

/-- The first `qsize` entries, or all when there are fewer. -/
def firstEntries {α : Type} (qsize : ℕ) (js : Vector α maxNumSignatures) : List α :=
  js.toList.take qsize

/-- **The accumulators meet their specification**: `COMB_TEEaccum`, the call of `EnclaveChComb.cpp` and
`TrustedComb::TEEaccum`, on all arrays. -/
theorem accumulators_spec (st : PrepState) :
    AccumSpec (ev.env cr) OneJust.rdata OneJust.signs (combTEEaccum cr ev) viewOfFirst
        (firstEntries ev.qsize) ∧
      AccumSpec (ev.env cr) OneJust.rdata OneJust.signs
        (fun js => (chCombCall cr ev st (.accum js)).1.toAccum) viewOfFirst (firstEntries ev.qsize) ∧
      AccumSpec (tv.env cr) Just.rdata Just.signs (trustedTEEaccum cr tv) viewOfFirstJust
        (firstEntries tv.qsize) := by
  have hsigner : (fun e : OneJust => e.sign.signer) = entrySigner OneJust.signs :=
    funext fun e => congrArg Sign.signer (Signs.get_one e.sign).symm
  have hcomb : AccumSpec (ev.env cr) OneJust.rdata OneJust.signs (combTEEaccum cr ev) viewOfFirst
      (firstEntries ev.qsize) := by
    refine accumSpec_of_loop (fun _ _ => combEntryOk_iff) (combAccumOf cr ev) (fun _ _ _ _ => rfl) fun js => ?_
    show combAccumOf cr ev _ (combAccumFrom cr ev _ _ _ _ _).2.1 _ _ = _
    rw [combAccumFrom_eq, hsigner]
    rfl
  refine ⟨hcomb, hcomb, ?_⟩
  refine accumSpec_of_loop (fun _ _ => trustedEntryOk_iff) (trustedAccumOf cr tv) (fun _ _ _ _ => rfl) fun js => ?_
  show trustedAccumOf cr tv _ (trustedAccumFrom cr tv _ _ _ _ _).2.1 _ _ = _
  rw [trustedAccumFrom_eq]
  rfl

end Hybrid

/-! ### The Damysus accumulator -/

section Damysus

variable (cr : Crypto Key) (ev : EnclaveVars Key)

/-- The entry is a new-view for the view, whatever its signature. -/
def isNewView (v : View) (e : OneJust) : Bool :=
  e.rdata.phase = Phase1.newview.byte && e.rdata.propv = v

/-- The signature of the entry verifies. -/
def signedEntry (e : OneJust) : Bool :=
  ev.verifyText cr.verifySign (Signs.one e.sign) (.rdata e.rdata)

/-- The first new-view of each signer that is named. -/
def firstNamed (v : View) (entries : List OneJust) : List OneJust :=
  Lib.firsts (fun e => e.sign.signer) (entries.filter (isNewView v))

/-- The first valid new-view of each signer. -/
def firstValid (v : View) (entries : List OneJust) : List OneJust :=
  Lib.firsts (fun e => e.sign.signer) (entries.filter (combEntryOk cr ev v))

/-- **When the Damysus accumulator agrees with the hybrid one.**  Every signer that is named has a valid
entry, and the signers whose first entry is valid report the same pair as all signers that have a valid
one. -/
structure DamysusAgrees (js : OneJusts) : Prop where
  counted : ∀ e ∈ firstEntries ev.qsize js, isNewView (viewOfFirst js) e = true →
    ∃ e' ∈ firstEntries ev.qsize js, combEntryOk cr ev (viewOfFirst js) e' = true ∧
      e'.sign.signer = e.sign.signer
  reported : ∀ prepv hash,
    Reports ((firstValid cr ev (viewOfFirst js) (firstEntries ev.qsize js)).map OneJust.rdata)
        prepv hash ↔
      Reports (((firstNamed (viewOfFirst js) (firstEntries ev.qsize js)).filter
        (signedEntry cr ev)).map OneJust.rdata) prepv hash

variable {cr ev}

theorem combEntryOk_eq (v : View) (e : OneJust) :
    combEntryOk cr ev v e = (isNewView v e && signedEntry cr ev e) := rfl

theorem damysusAccumFrom_append {v : View} {l l' : List OneJust} {signers : List PID}
    {highest : View} {hash : Hash} :
    damysusAccumFrom cr ev v (l ++ l') signers highest hash =
      damysusAccumFrom cr ev v l' (damysusAccumFrom cr ev v l signers highest hash).1
        (damysusAccumFrom cr ev v l signers highest hash).2.1
        (damysusAccumFrom cr ev v l signers highest hash).2.2 := by
  induction l generalizing signers highest hash with
  | nil => rfl
  | cons e l ih =>
    simp only [List.cons_append, damysusAccumFrom]
    split
    · split
      · exact ih
      · exact ih
    · exact ih

/-- **The loop keeps the first new-view of each signer that is named**, and compares only those of them
that verify. -/
theorem damysusAccumFrom_eq (v : View) (l : List OneJust) :
    damysusAccumFrom cr ev v l [] 0 newHash =
      (((firstNamed v l).map fun e => e.sign.signer).reverse,
        highestJust 0 newHash (((firstNamed v l).filter (signedEntry cr ev)).map OneJust.rdata)) := by
  unfold firstNamed
  induction l using List.reverseRecOn with
  | nil => rfl
  | append_singleton l e ih =>
    rw [damysusAccumFrom_append, ih, List.filter_append]
    set kept := Lib.firsts (fun e => e.sign.signer) (l.filter (isNewView v)) with hkept
    have hmem : e.sign.signer ∈ (kept.map fun e => e.sign.signer).reverse ↔
        e.sign.signer ∈ kept.map fun e => e.sign.signer := List.mem_reverse
    have hcond : (e.rdata.phase = Phase1.newview.byte && e.rdata.propv = v
        && e.sign.signer ∉ (kept.map fun e => e.sign.signer).reverse) =
          (isNewView v e && e.sign.signer ∉ (kept.map fun e => e.sign.signer).reverse) := rfl
    simp only [damysusAccumFrom]
    rw [hcond]
    by_cases hnew : isNewView v e = true
    · have hone : [e].filter (isNewView v) = [e] := by simp [hnew]
      rw [hone, Lib.firsts_concat, ← hkept, hnew, Bool.true_and]
      by_cases hold : e.sign.signer ∈ kept.map fun e => e.sign.signer
      · rw [if_pos hold, if_neg (by simpa using hold)]
      · rw [if_neg hold, if_pos (by simpa using hold), List.map_append, List.reverse_append,
          List.filter_append]
        -- an entry that does not verify is counted, but not compared
        by_cases hsigned : signedEntry cr ev e = true
        · have hone' : [e].filter (signedEntry cr ev) = [e] := by simp [hsigned]
          have hverify : ev.verifyText cr.verifySign (Signs.one e.sign) (.rdata e.rdata) = true :=
            hsigned
          rw [hone', List.map_append, List.map_singleton, List.map_singleton, highestJust_concat,
            hverify, Bool.true_and]
          by_cases hge : e.rdata.justv ≥ (highestJust 0 newHash
              ((kept.filter (signedEntry cr ev)).map OneJust.rdata)).1
          · rw [if_pos (decide_eq_true hge), if_pos hge]
            rfl
          · rw [if_neg (by simpa using hge), if_neg hge]
            rfl
        · have hone' : [e].filter (signedEntry cr ev) = [] := by simp [hsigned]
          have hverify : ev.verifyText cr.verifySign (Signs.one e.sign) (.rdata e.rdata) = false :=
            Bool.not_eq_true _ ▸ hsigned
          rw [hone', List.append_nil, hverify, Bool.false_and, if_neg Bool.false_ne_true]
          rfl
    · have hone : [e].filter (isNewView v) = [] := by simp [hnew]
      rw [hone, List.append_nil, ← hkept, if_neg (by simp [hnew])]

variable (cr ev) in
/-- Signers with a valid entry are named, and the numbers are equal exactly when all that are named have
one. -/
theorem length_firstNamed_eq_iff (v : View) (l : List OneJust) :
    (firstNamed v l).length = (firstValid cr ev v l).length ↔
      ∀ e ∈ l, isNewView v e = true →
        ∃ e' ∈ l, combEntryOk cr ev v e' = true ∧ e'.sign.signer = e.sign.signer := by
  unfold firstNamed firstValid
  rw [Lib.length_firsts, Lib.length_firsts]
  have hsub : ((l.filter (combEntryOk cr ev v)).map fun e => e.sign.signer).toFinset ⊆
      ((l.filter (isNewView v)).map fun e => e.sign.signer).toFinset := by
    intro p hp
    obtain ⟨e, he, rfl⟩ := List.mem_map.mp (List.mem_toFinset.mp hp)
    obtain ⟨hmem, hok⟩ := List.mem_filter.mp he
    rw [combEntryOk_eq, Bool.and_eq_true] at hok
    exact List.mem_toFinset.mpr (List.mem_map_of_mem (List.mem_filter.mpr ⟨hmem, hok.1⟩))
  constructor
  · intro hcard e he hnew
    have heq := Finset.eq_of_subset_of_card_le hsub hcard.le
    have hp : e.sign.signer ∈ ((l.filter (combEntryOk cr ev v)).map fun e => e.sign.signer).toFinset := by
      rw [heq]
      exact List.mem_toFinset.mpr (List.mem_map_of_mem (List.mem_filter.mpr ⟨he, hnew⟩))
    obtain ⟨e', he', hsigner⟩ := List.mem_map.mp (List.mem_toFinset.mp hp)
    obtain ⟨hmem, hok⟩ := List.mem_filter.mp he'
    exact ⟨e', hmem, hok, hsigner⟩
  · intro hall
    refine congrArg Finset.card (Finset.Subset.antisymm (fun p hp => ?_) hsub)
    obtain ⟨e, he, rfl⟩ := List.mem_map.mp (List.mem_toFinset.mp hp)
    obtain ⟨hmem, hnew⟩ := List.mem_filter.mp he
    obtain ⟨e', hmem', hok, hsigner⟩ := hall e hmem hnew
    rw [← hsigner]
    exact List.mem_toFinset.mpr (List.mem_map_of_mem (List.mem_filter.mpr ⟨hmem', hok⟩))

/-- Lists report the same pairs exactly when the loop ends with the same one. -/
theorem reports_congr_iff (ds ds' : List RData) :
    (∀ prepv hash, Reports ds prepv hash ↔ Reports ds' prepv hash) ↔
      highestJust 0 newHash ds = highestJust 0 newHash ds' := by
  constructor
  · intro h
    exact reports_iff.mp ((h _ _).mpr (reports_highestJust ds'))
  · intro h prepv hash
    rw [reports_iff, reports_iff, h]

/-- The fields of the accumulator that is made of the result of a loop. -/
def loopData (v : View) (r : List PID × View × Hash) : AccumData := ⟨true, v, r.2.1, r.2.2, r.1.length⟩

theorem damysusTEEaccum_data (js : OneJusts) : (damysusTEEaccum cr ev js).toAccumData =
    ⟨true, viewOfFirst js,
      (highestJust 0 newHash (((firstNamed (viewOfFirst js) (firstEntries ev.qsize js)).filter
        (signedEntry cr ev)).map OneJust.rdata)).1,
      (highestJust 0 newHash (((firstNamed (viewOfFirst js) (firstEntries ev.qsize js)).filter
        (signedEntry cr ev)).map OneJust.rdata)).2,
      (firstNamed (viewOfFirst js) (firstEntries ev.qsize js)).length⟩ := by
  have hrun : damysusAccumFrom cr ev (viewOfFirst js) (firstEntries ev.qsize js) [] 0 newHash = _ :=
    damysusAccumFrom_eq (viewOfFirst js) (firstEntries ev.qsize js)
  show loopData (viewOfFirst js) (damysusAccumFrom cr ev (viewOfFirst js)
    (firstEntries ev.qsize js) [] 0 newHash) = _
  rw [hrun, loopData, List.length_reverse, List.length_map]

theorem combTEEaccum_data (js : OneJusts) : (combTEEaccum cr ev js).toAccumData =
    ⟨true, viewOfFirst js,
      (highestJust 0 newHash ((firstValid cr ev (viewOfFirst js)
        (firstEntries ev.qsize js)).map OneJust.rdata)).1,
      (highestJust 0 newHash ((firstValid cr ev (viewOfFirst js)
        (firstEntries ev.qsize js)).map OneJust.rdata)).2,
      (firstValid cr ev (viewOfFirst js) (firstEntries ev.qsize js)).length⟩ := by
  have hrun : combAccumFrom cr ev (viewOfFirst js) (firstEntries ev.qsize js) [] 0 newHash = _ :=
    combAccumFrom_eq.trans (accumLoop_eq_firsts _)
  show loopData (viewOfFirst js) (combAccumFrom cr ev (viewOfFirst js)
    (firstEntries ev.qsize js) [] 0 newHash) = _
  rw [hrun, loopData, List.length_reverse, List.length_map]
  rfl

/-- **Exactly when the two accumulators agree.**  For every array, and enclaves with the same keys and
quorum size that may differ in everything else: the fields other than the signature are the same if and
only if all signers that are named have a valid entry and those that are not hidden report the same
pair. -/
theorem damysusAgrees_iff (cr : Crypto Key) (ev other : EnclaveVars Key) (js : OneJusts) :
    (damysusTEEaccum cr ev js).toAccumData =
        (combTEEaccum cr { other with pubs := ev.pubs, qsize := ev.qsize } js).toAccumData ↔
      DamysusAgrees cr ev js := by
  have hsame : (combTEEaccum cr { other with pubs := ev.pubs, qsize := ev.qsize } js).toAccumData =
      (combTEEaccum cr ev js).toAccumData := by
    rw [combTEEaccum_data, combTEEaccum_data]
    rfl
  have hsize := length_firstNamed_eq_iff cr ev (viewOfFirst js) (firstEntries ev.qsize js)
  have hpair := reports_congr_iff
    ((firstValid cr ev (viewOfFirst js) (firstEntries ev.qsize js)).map OneJust.rdata)
    (((firstNamed (viewOfFirst js) (firstEntries ev.qsize js)).filter
      (signedEntry cr ev)).map OneJust.rdata)
  rw [hsame, damysusTEEaccum_data, combTEEaccum_data]
  simp only [AccumData.mk.injEq, true_and]
  constructor
  · rintro ⟨hprepv, hhash, hlength⟩
    exact ⟨hsize.mp hlength, hpair.mpr (Prod.ext hprepv.symm hhash.symm)⟩
  · rintro ⟨hcounted, hreported⟩
    have heq := hpair.mp hreported
    exact ⟨(congrArg Prod.fst heq).symm, (congrArg Prod.snd heq).symm, hsize.mpr hcounted⟩

end Damysus

/-! ### Entries that do not verify -/

section Unverified

/-- Replicas 0 to 3, with quorums of 3. -/
def fourReplicas : EnclaveVars Unit := initializeVariables () () 0 [0, 1, 2, 3] 3 2 []

/-- The new-view of view 2 with a justification of view `justv`. -/
def reporting (justv : View) : RData := ⟨noHash, 2, newHash, justv, Phase1.newview.byte⟩

/-- Replica 0 reports view 0 and replica 1 reports view 1. -/
def reportingCrypto : Crypto Unit :=
  idealCrypto (fun _ => Vector.replicate _ 0) fun p => [.rdata (reporting p)]

/-- The array with the reports, in the given order. -/
def reports (signers : List (PID × View)) : OneJusts := Vector.ofFn fun i =>
  (signers[i.val]?.map fun x => ⟨true, reporting x.2, idealSign x.1⟩).getD
    ⟨false, RData.none, Sign.none⟩

/-- **A forged entry hides the new-view of replica 1** behind it, and three forged entries count as a
quorum. -/
theorem not_damysusAgrees_forged :
    ((damysusTEEaccum reportingCrypto fourReplicas (reports [(0, 0), (1, 5), (1, 1)])).prepv = 0 ∧
      (combTEEaccum reportingCrypto fourReplicas (reports [(0, 0), (1, 5), (1, 1)])).prepv = 1) ∧
    ((damysusTEEaccum reportingCrypto fourReplicas (reports [(0, 5), (1, 5), (2, 5)])).size = 3 ∧
      (combTEEaccum reportingCrypto fourReplicas (reports [(0, 5), (1, 5), (2, 5)])).size = 0) ∧
    ¬ ∀ js, (damysusTEEaccum reportingCrypto fourReplicas js).toAccumData =
      (combTEEaccum reportingCrypto fourReplicas js).toAccumData := by
  have hsize : (damysusTEEaccum reportingCrypto fourReplicas
      (reports [(0, 5), (1, 5), (2, 5)])).size = 3 ∧
      (combTEEaccum reportingCrypto fourReplicas (reports [(0, 5), (1, 5), (2, 5)])).size = 0 := by
    decide +kernel
  refine ⟨by decide +kernel, hsize, fun h => ?_⟩
  have heq := congrArg AccumData.size (h (reports [(0, 5), (1, 5), (2, 5)]))
  rw [hsize.1, hsize.2] at heq
  exact absurd heq (by decide)

end Unverified

end Raftel
