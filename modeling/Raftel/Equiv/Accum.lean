import Raftel.Handler.Comb
import Raftel.Equiv.SameChecker
import Raftel.Equiv.Log

/-!
# What the accumulators compute

The enclave and the host's component each have a general accumulator (`TEEaccum`) and one for signatures
on the same data (`TEEaccumSp`).  The loops of the two general ones are the same loop, `accumLoop`, over
different checks of an entry.

* `combEntryOk_iff`, `trustedEntryOk_iff` : both checks pass the valid new-views
* `combTEEaccum_newViews`, `trustedTEEaccum_newViews` : the general accumulator of verified new-views
* `combTEEaccumSp_same`, `trustedTEEaccumSp_same` : the other one, when their data is the same
-/

namespace Raftel

variable {Key : Type}

/-! ### The loop -/

section Loop

variable {α : Type} (ok : α → Bool) (signer : α → PID) (data : α → RData)

/-- The loop of the accumulators: an entry that passes the check `ok` and has a new signer is counted,
and its pair is taken when its view is not below the highest. -/
def accumLoop : List α → List PID → View → Hash → List PID × View × Hash
  | [], signers, highest, hash => (signers, highest, hash)
  | a :: rest, signers, highest, hash =>
    if ok a && signer a ∉ signers then
      if (data a).justv ≥ highest then
        accumLoop rest (signer a :: signers) (data a).justv (data a).justh
      else
        accumLoop rest (signer a :: signers) highest hash
    else
      accumLoop rest signers highest hash

variable {ok signer data}

theorem accumLoop_append {l l' : List α} {signers : List PID} {highest : View} {hash : Hash} :
    accumLoop ok signer data (l ++ l') signers highest hash =
      accumLoop ok signer data l' (accumLoop ok signer data l signers highest hash).1
        (accumLoop ok signer data l signers highest hash).2.1
        (accumLoop ok signer data l signers highest hash).2.2 := by
  induction l generalizing signers highest hash with
  | nil => rfl
  | cons a l ih =>
    simp only [List.cons_append, accumLoop]
    split
    · split
      · exact ih
      · exact ih
    · exact ih

/-- Entries that do not pass are skipped. -/
theorem accumLoop_eq_of_not_ok {l : List α} (hno : ∀ a ∈ l, ok a = false) {signers : List PID}
    {highest : View} {hash : Hash} :
    accumLoop ok signer data l signers highest hash = (signers, highest, hash) := by
  induction l with
  | nil => rfl
  | cons a l ih =>
    rw [accumLoop, hno a List.mem_cons_self, if_neg (by simp)]
    exact ih fun b hb => hno b (List.mem_cons_of_mem a hb)

/-- When all entries pass and their signers are different, all are counted. -/
theorem accumLoop_eq_of_ok {l : List α} (hok : ∀ a ∈ l, ok a = true)
    (hnodup : (l.map signer).Nodup) {signers : List PID} (hnew : ∀ a ∈ l, signer a ∉ signers)
    {highest : View} {hash : Hash} :
    accumLoop ok signer data l signers highest hash =
      ((l.map signer).reverse ++ signers, highestJust highest hash (l.map data)) := by
  induction l generalizing signers highest hash with
  | nil => rfl
  | cons a l ih =>
    obtain ⟨hfirst, hrest⟩ := List.nodup_cons.mp hnodup
    have hnew' : ∀ b ∈ l, signer b ∉ signer a :: signers := by
      intro b hb hmem
      rcases List.mem_cons.mp hmem with heq | hmem
      · exact hfirst (heq ▸ List.mem_map_of_mem hb)
      · exact hnew b (List.mem_cons_of_mem a hb) hmem
    have hih : ∀ (v : View) (h : Hash), accumLoop ok signer data l (signer a :: signers) v h =
        (((a :: l).map signer).reverse ++ signers, highestJust v h (l.map data)) := by
      intro v h
      rw [ih (fun b hb => hok b (List.mem_cons_of_mem a hb)) hrest hnew']
      simp
    rw [accumLoop, hok a List.mem_cons_self, if_pos (by simp [hnew a List.mem_cons_self]),
      hih, hih]
    show _ = (_, highestJust highest hash (data a :: l.map data))
    rw [highestJust]
    split
    · rfl
    · rfl

end Loop

/-! ### The two loops of the source -/

/-- The check of an entry in `COMB_TEEaccum`. -/
def combEntryOk (cr : Crypto Key) (ev : EnclaveVars Key) (v : View) (e : OneJust) : Bool :=
  e.rdata.phase = Phase1.newview.byte && e.rdata.propv = v
    && ev.verifyText cr.verifySign (Signs.one e.sign) (.rdata e.rdata)

/-- The check of an entry in `TrustedComb::TEEaccum`. -/
def trustedEntryOk (cr : Crypto Key) (tv : TrustedVars Key) (v : View) (just : Just) : Bool :=
  just.signs.size = 1 && just.rdata.phase = Phase1.newview.byte && just.rdata.propv = v
    && just.signs.verify cr.verifySign tv.nodes (.rdata just.rdata)

/-- A valid new-view for view `v`: of that phase and view, with one signature on its data, which verifies under
the key that is known of its signer. -/
structure ValidNewView (env : CheckEnv) (v : View) (d : RData) (signs : Signs) : Prop where
  single : signs.size = 1
  phase : d.phase = Phase1.newview.byte
  view : d.propv = v
  verified : env.verified (signs.get 0) (.rdata d)

/-- The signature of an entry of the enclave's arrays. -/
def OneJust.signs (e : OneJust) : Signs := Signs.one e.sign

/-- **The valid new-views are what the check of the enclave passes.** -/
theorem combEntryOk_iff {cr : Crypto Key} {ev : EnclaveVars Key} {v : View} {e : OneJust} :
    combEntryOk cr ev v e = true ↔ ValidNewView (ev.env cr) v e.rdata e.signs := by
  have hget : e.signs.get 0 = e.sign := Signs.get_one e.sign
  simp only [combEntryOk, Bool.and_eq_true, decide_eq_true_eq, EnclaveVars.verifyText_one]
  constructor
  · rintro ⟨⟨hphase, hview⟩, hverified⟩
    exact ⟨rfl, hphase, hview, hget.symm ▸ hverified⟩
  · rintro ⟨-, hphase, hview, hverified⟩
    exact ⟨⟨hphase, hview⟩, hget ▸ hverified⟩

/-- **They are what the check of the host passes.** -/
theorem trustedEntryOk_iff {cr : Crypto Key} {tv : TrustedVars Key} {v : View} {just : Just} :
    trustedEntryOk cr tv v just = true ↔ ValidNewView (tv.env cr) v just.rdata just.signs := by
  have hverify (hsize : just.signs.size = 1) :
      just.signs.verify cr.verifySign tv.nodes (.rdata just.rdata) = true ↔
        (tv.env cr).verified (just.signs.get 0) (.rdata just.rdata) := by
    rw [Signs.verify_eq_true, Signs.entries_of_size_one hsize]
    exact List.forall_mem_singleton
  simp only [trustedEntryOk, Bool.and_eq_true, decide_eq_true_eq]
  constructor
  · rintro ⟨⟨⟨hsize, hphase⟩, hview⟩, hverified⟩
    exact ⟨hsize, hphase, hview, (hverify hsize).mp hverified⟩
  · rintro ⟨hsize, hphase, hview, hverified⟩
    exact ⟨⟨⟨hsize, hphase⟩, hview⟩, (hverify hsize).mpr hverified⟩

theorem combAccumFrom_eq {cr : Crypto Key} {ev : EnclaveVars Key} {v : View} {es : List OneJust}
    {signers : List PID} {highest : View} {hash : Hash} :
    combAccumFrom cr ev v es signers highest hash =
      accumLoop (combEntryOk cr ev v) (fun e => e.sign.signer) OneJust.rdata es signers highest
        hash := by
  induction es generalizing signers highest hash with
  | nil => rfl
  | cons e es ih =>
    have hcond : (e.rdata.phase = Phase1.newview.byte && e.rdata.propv = v
        && e.sign.signer ∉ signers
        && ev.verifyText cr.verifySign (Signs.one e.sign) (.rdata e.rdata)) =
          (combEntryOk cr ev v e && e.sign.signer ∉ signers) := Bool.and_right_comm ..
    simp only [combAccumFrom, accumLoop]
    rw [hcond, ih, ih, ih]

theorem trustedAccumFrom_eq {cr : Crypto Key} {tv : TrustedVars Key} {v : View} {js : List Just}
    {signers : List PID} {highest : View} {hash : Hash} :
    trustedAccumFrom cr tv v js signers highest hash =
      accumLoop (trustedEntryOk cr tv v) (fun just => (just.signs.get 0).signer) Just.rdata js signers
        highest hash := by
  induction js generalizing signers highest hash with
  | nil => rfl
  | cons just js ih =>
    have hcond : (just.signs.size = 1 && just.rdata.phase = Phase1.newview.byte
        && just.rdata.propv = v && (just.signs.get 0).signer ∉ signers
        && just.signs.verify cr.verifySign tv.nodes (.rdata just.rdata)) =
          (trustedEntryOk cr tv v just && (just.signs.get 0).signer ∉ signers) :=
      Bool.and_right_comm ..
    simp only [trustedAccumFrom, accumLoop]
    rw [hcond, ih, ih, ih]

/-! ### New-views -/

/-- New-views of a view, with verified signatures of different known nodes. -/
structure VerifiedNewViews (env : CheckEnv) (view : View) (newviews : List MsgNewViewComb) :
    Prop where
  nodup : (newviews.map fun m => m.sign.signer).Nodup
  known : ∀ m ∈ newviews, m.sign.set = true ∧ (env.isTEE m.sign.signer).isSome
  verified : ∀ m ∈ newviews, env.verified m.sign (.rdata m.data)
  newview : ∀ m ∈ newviews, m.data.phase = Phase1.newview.byte ∧ m.data.propv = view

/-- The justification of a new-view in the array of `newviews2accComb`. -/
def MsgNewViewComb.just (m : MsgNewViewComb) : Just := ⟨true, m.data, Signs.one m.sign⟩

/-- The entry of a new-view in a proof. -/
def MsgNewViewComb.entry (m : MsgNewViewComb) : OneJust := ⟨true, m.data, m.sign⟩

/-- The array of `newviews2accComb`. -/
def newViewJusts (newviews : List MsgNewViewComb) : Vector Just maxNumSignatures :=
  Vector.ofFn fun i => (newviews[i.val]?.map MsgNewViewComb.just).getD Just.none

theorem toList_newViewJusts {newviews : List MsgNewViewComb}
    (hle : newviews.length ≤ maxNumSignatures) :
    (newViewJusts newviews).toList = newviews.map MsgNewViewComb.just
      ++ List.replicate (maxNumSignatures - newviews.length) Just.none := by
  apply List.ext_getElem
  · simp only [Vector.length_toList, List.length_append, List.length_map, List.length_replicate]
    omega
  · intro i h₁ h₂
    rw [Vector.length_toList] at h₁
    by_cases hi : i < newviews.length
    · simp [newViewJusts, hi]
    · have hlen : (newviews.map MsgNewViewComb.just).length ≤ i := by
        rw [List.length_map]
        exact Nat.not_lt.mp hi
      rw [List.getElem_append_right hlen, List.getElem_replicate]
      simp [newViewJusts, hi]

/-- The first entries of the array, up to a number that is not below that of the new-views. -/
theorem take_newViewJusts {newviews : List MsgNewViewComb} {n : ℕ} (hn : newviews.length ≤ n)
    (hmax : n ≤ maxNumSignatures) :
    (newViewJusts newviews).toList.take n = newviews.map MsgNewViewComb.just
      ++ List.replicate (n - newviews.length) Just.none := by
  rw [toList_newViewJusts (hn.trans hmax), List.take_append, List.length_map, List.take_replicate,
    List.take_of_length_le (by rw [List.length_map]; exact hn)]
  congr 2
  omega

theorem rdata_setOneJust (j : Just) : (setOneJust j).rdata = j.rdata := rfl

/-! ### The proof -/

/-- The messages of a proof, as entries. -/
theorem entries_setNewViews (p : NewViewProofComb) :
    (setNewViews p).entries =
      List.zipWith (fun d t => ⟨true, d, t⟩) (p.data.toList.take p.size)
        (p.signs.toList.take p.size) := by
  apply List.ext_getElem
  · simp [NewViews.entries, setNewViews]
  · intro i h₁ h₂
    have hi : i < p.size := by
      simp only [NewViews.entries, setNewViews, List.length_take, lt_min_iff] at h₁
      exact h₁.1
    simp only [NewViews.entries, setNewViews, List.getElem_take, Vector.getElem_toList,
      Vector.getElem_ofFn, List.getElem_zipWith, hi, decide_true]
    rfl

/-- A loop that puts messages into a proof with place for them. -/
theorem take_foldl_add (newviews : List MsgNewViewComb) {p : NewViewProofComb}
    (hle : p.size + newviews.length ≤ maxNumSignatures) :
    (newviews.foldl NewViewProofComb.add p).size = p.size + newviews.length ∧
      (newviews.foldl NewViewProofComb.add p).data.toList.take (p.size + newviews.length) =
        p.data.toList.take p.size ++ newviews.map MsgNewViewComb.data ∧
      (newviews.foldl NewViewProofComb.add p).signs.toList.take (p.size + newviews.length) =
        p.signs.toList.take p.size ++ newviews.map MsgNewViewComb.sign := by
  induction newviews generalizing p with
  | nil => simp
  | cons m newviews ih =>
    rw [List.length_cons] at hle
    have hlt : p.size < maxNumSignatures := by omega
    have hadd : p.add m = ⟨p.size + 1, p.data.setIfInBounds p.size m.data,
        p.signs.setIfInBounds p.size m.sign⟩ := if_pos hlt
    have hsize : (p.add m).size = p.size + 1 := by rw [hadd]
    -- what is set at the end is what is appended
    have htake : ∀ {α : Type} (xs : Vector α maxNumSignatures) (x : α),
        (xs.setIfInBounds p.size x).toList.take (p.size + 1) = xs.toList.take p.size ++ [x] := by
      intro α xs x
      have hlen : p.size < xs.toList.length := by rw [Vector.length_toList]; exact hlt
      rw [Vector.toList_setIfInBounds, List.take_add_one, List.take_set_of_le le_rfl,
        List.getElem?_set_self hlen]
      rfl
    obtain ⟨h₁, h₂, h₃⟩ := ih (p := p.add m) (by rw [hsize]; omega)
    have hlength : (p.add m).size + newviews.length = p.size + (m :: newviews).length := by
      rw [hsize, List.length_cons]
      omega
    rw [hlength] at h₁ h₂ h₃
    rw [List.foldl_cons, h₁, h₂, h₃, hadd, htake, htake]
    simp

/-- The proof of new-views that fit into it holds all of them, in their order. -/
theorem setNewViews_ofMsgs {newviews : List MsgNewViewComb}
    (hle : newviews.length ≤ maxNumSignatures) :
    (setNewViews (.ofMsgs newviews)).size = newviews.length ∧
      (setNewViews (.ofMsgs newviews)).entries = newviews.map MsgNewViewComb.entry := by
  have hempty : NewViewProofComb.none.size = 0 := rfl
  obtain ⟨hsize, hdata, hsigns⟩ := take_foldl_add newviews (p := .none) (by rw [hempty]; omega)
  rw [hempty, Nat.zero_add] at hsize hdata hsigns
  refine ⟨hsize, ?_⟩
  have hsize' : (NewViewProofComb.ofMsgs newviews).size = newviews.length := hsize
  have hdata' : (NewViewProofComb.ofMsgs newviews).data.toList.take newviews.length =
      newviews.map MsgNewViewComb.data := hdata
  have hsigns' : (NewViewProofComb.ofMsgs newviews).signs.toList.take newviews.length =
      newviews.map MsgNewViewComb.sign := hsigns
  rw [entries_setNewViews, hsize', hdata', hsigns', List.zipWith_map_left, List.zipWith_map_right,
    List.zipWith_self]
  rfl

/-! ### Counting signers -/

theorem countSigners_le (ss : List Sign) : countSigners ss ≤ ss.length := by
  have hfold : ∀ (ss : List Sign) (acc : List PID), (ss.foldl (fun signers s =>
      if s.signer ∈ signers then signers else s.signer :: signers) acc).length ≤
        acc.length + ss.length := by
    intro ss
    induction ss with
    | nil => exact fun acc => le_rfl
    | cons s ss ih =>
      intro acc
      rw [List.foldl_cons, List.length_cons]
      refine (ih _).trans ?_
      split
      · omega
      · rw [List.length_cons]
        omega
  simpa [countSigners] using hfold ss []

theorem countSigners_of_nodup {ss : List Sign} (hnodup : (ss.map Sign.signer).Nodup) :
    countSigners ss = ss.length := by
  have hfold : ∀ (ss : List Sign) (acc : List PID), (ss.map Sign.signer).Nodup →
      (∀ s ∈ ss, s.signer ∉ acc) → (ss.foldl (fun signers s =>
        if s.signer ∈ signers then signers else s.signer :: signers) acc).length =
          acc.length + ss.length := by
    intro ss
    induction ss with
    | nil => exact fun acc _ _ => rfl
    | cons s ss ih =>
      intro acc hnodup hnew
      obtain ⟨hfirst, hrest⟩ := List.nodup_cons.mp hnodup
      have hnew' : ∀ t ∈ ss, t.signer ∉ s.signer :: acc := by
        intro t ht hmem
        rcases List.mem_cons.mp hmem with heq | hmem
        · exact hfirst (heq ▸ List.mem_map_of_mem ht)
        · exact hnew t (List.mem_cons_of_mem s ht) hmem
      rw [List.foldl_cons, if_neg (hnew s List.mem_cons_self), ih _ hrest hnew', List.length_cons,
        List.length_cons]
      omega
  simpa [countSigners] using hfold ss [] hnodup (fun _ _ => List.not_mem_nil)

/-! ### The accumulators of new-views -/

section Accumulators

variable {cr : Crypto Key} {ev : EnclaveVars Key} {tv : TrustedVars Key} {view : View}
  {newviews : List MsgNewViewComb}

/-- The pair of the highest view that the new-views report. -/
def highestNewView (newviews : List MsgNewViewComb) : View × Hash :=
  highestJust 0 newHash (newviews.map MsgNewViewComb.data)

theorem propv_head_newViewJusts (hv : VerifiedNewViews (tv.env cr) view newviews)
    (hne : newviews ≠ []) :
    ((newViewJusts newviews).get ⟨0, maxNumSignatures_pos⟩).rdata.propv = view := by
  cases newviews with
  | nil => exact absurd rfl hne
  | cons m ms =>
    have hfirst : (newViewJusts (m :: ms)).get ⟨0, maxNumSignatures_pos⟩ = m.just :=
      Vector.getElem_ofFn maxNumSignatures_pos
    rw [hfirst]
    exact (hv.newview m List.mem_cons_self).2

/-- **The general accumulator of the enclave.** -/
theorem combTEEaccum_newViews (h : SameConfig ev tv)
    (hv : VerifiedNewViews (tv.env cr) view newviews) (hne : newviews ≠ [])
    (hle : newviews.length ≤ tv.qsize) (hmax : tv.qsize ≤ maxNumSignatures) :
    combTEEaccum cr ev ((newViewJusts newviews).map setOneJust) =
      combAccumOf cr ev view (highestNewView newviews).1 (highestNewView newviews).2
        newviews.length := by
  have hget : ((newViewJusts newviews).map setOneJust).get ⟨0, maxNumSignatures_pos⟩ =
      setOneJust ((newViewJusts newviews).get ⟨0, maxNumSignatures_pos⟩) :=
    Vector.getElem_map setOneJust maxNumSignatures_pos
  have hpropv : (((newViewJusts newviews).map setOneJust).get ⟨0, maxNumSignatures_pos⟩).rdata.propv =
      view := by
    rw [hget, rdata_setOneJust, propv_head_newViewJusts hv hne]
  have hentries : ((newViewJusts newviews).map setOneJust).toList.take ev.qsize =
      newviews.map MsgNewViewComb.entry
        ++ List.replicate (tv.qsize - newviews.length) (setOneJust Just.none) := by
    rw [Vector.toList_map, ← List.map_take, h.qsize, take_newViewJusts hle hmax, List.map_append,
      List.map_map, List.map_replicate]
    rfl
  have hok : ∀ e ∈ newviews.map MsgNewViewComb.entry, combEntryOk cr ev view e = true := by
    rw [List.forall_mem_map]
    intro m hm
    have hverified : (ev.env cr).verified (m.entry.signs.get 0) (.rdata m.data) :=
      (Signs.get_one m.sign).symm ▸ h.verified_iff.mpr ⟨(hv.known m hm).1, hv.verified m hm⟩
    exact combEntryOk_iff.mpr ⟨rfl, (hv.newview m hm).1, (hv.newview m hm).2, hverified⟩
  have hno : ∀ e ∈ List.replicate (tv.qsize - newviews.length) (setOneJust Just.none),
      combEntryOk cr ev view e = false := by
    intro e he
    rw [(List.mem_replicate.mp he).2, Bool.eq_false_iff, ne_eq, combEntryOk_iff]
    exact fun hvalid => absurd hvalid.verified.1 (by decide)
  have hnodup : ((newviews.map MsgNewViewComb.entry).map fun e => e.sign.signer).Nodup := by
    rw [List.map_map]
    exact hv.nodup
  unfold combTEEaccum
  dsimp only
  rw [hpropv, hentries, combAccumFrom_eq, accumLoop_append, accumLoop_eq_of_not_ok hno,
    accumLoop_eq_of_ok hok hnodup fun _ _ => List.not_mem_nil]
  simp only [List.append_nil, List.length_reverse, List.length_map, List.map_map]
  rfl

/-- **The general accumulator of the host's component.** -/
theorem trustedTEEaccum_newViews (hv : VerifiedNewViews (tv.env cr) view newviews)
    (hne : newviews ≠ []) (hle : newviews.length ≤ tv.qsize) (hmax : tv.qsize ≤ maxNumSignatures) :
    trustedTEEaccum cr tv (newViewJusts newviews) =
      trustedAccumOf cr tv view (highestNewView newviews).1 (highestNewView newviews).2
        newviews.length := by
  have hok : ∀ j ∈ newviews.map MsgNewViewComb.just, trustedEntryOk cr tv view j = true := by
    rw [List.forall_mem_map]
    intro m hm
    have hverified : (tv.env cr).verified (m.just.signs.get 0) (.rdata m.data) :=
      (Signs.get_one m.sign).symm ▸ hv.verified m hm
    exact trustedEntryOk_iff.mpr ⟨rfl, (hv.newview m hm).1, (hv.newview m hm).2, hverified⟩
  have hno : ∀ j ∈ List.replicate (tv.qsize - newviews.length) Just.none,
      trustedEntryOk cr tv view j = false := by
    intro j hj
    rw [(List.mem_replicate.mp hj).2, Bool.eq_false_iff, ne_eq, trustedEntryOk_iff]
    exact fun hvalid => absurd hvalid.single (by decide)
  have hnodup : ((newviews.map MsgNewViewComb.just).map fun j => (j.signs.get 0).signer).Nodup := by
    rw [List.map_map]
    exact hv.nodup
  unfold trustedTEEaccum
  dsimp only
  rw [propv_head_newViewJusts hv hne, take_newViewJusts hle hmax, trustedAccumFrom_eq,
    accumLoop_append, accumLoop_eq_of_not_ok hno,
    accumLoop_eq_of_ok hok hnodup fun _ _ => List.not_mem_nil]
  simp only [List.append_nil, List.length_reverse, List.length_map, List.map_map]
  rfl

/-! ### The accumulators of one payload -/

variable {rd : RData} {ss : Signs}

theorem take_entries_of_le {n : ℕ} (hle : ss.size ≤ n) : ss.entries.take n = ss.entries := by
  rw [Signs.entries, List.take_take, min_eq_right hle]

/-- **The accumulator of one payload in the enclave**: it counts all signatures when all of them verify
for it. -/
theorem combTEEaccumSp_size (h : SameConfig ev tv) (hphase : rd.phase = Phase1.newview.byte)
    (hnodup : (ss.entries.map Sign.signer).Nodup) (hset : ∀ s ∈ ss.entries, s.set = true)
    (hpos : 0 < ss.size) (hle : ss.size ≤ tv.qsize) (hmax : tv.qsize ≤ maxNumSignatures) :
    ∃ size, combTEEaccumSp cr ev ⟨true, rd, ss⟩ =
        combAccumOf cr ev rd.propv rd.justv rd.justh size ∧
      (size = ss.size ↔ ∀ s ∈ ss.entries, (tv.env cr).verified s (.rdata rd)) := by
  refine ⟨_, rfl, ?_⟩
  have hverify : ev.verifyText cr.verifySign ss (.rdata rd) = true ↔
      ∀ s ∈ ss.entries, (tv.env cr).verified s (.rdata rd) := by
    rw [EnclaveVars.verifyText_eq_true]
    constructor
    · rintro ⟨-, -, -, hall⟩ s hs
      exact (h.verified_iff.mp (hall s hs)).2
    · intro hall
      exact ⟨hpos, hle.trans hmax, hnodup, fun s hs => h.verified_iff.mpr ⟨hset s hs, hall s hs⟩⟩
  have hlength : countSigners (ss.entries.take ev.qsize) = ss.size := by
    rw [h.qsize, take_entries_of_le hle, countSigners_of_nodup hnodup,
      Signs.length_entries (hle.trans hmax)]
  dsimp only
  rw [← hverify, hlength]
  split
  · next hgood =>
    rw [Bool.and_eq_true] at hgood
    exact iff_of_true rfl hgood.2
  · next hbad =>
    refine iff_of_false (fun hzero => hpos.ne hzero) fun hgood => hbad ?_
    rw [Bool.and_eq_true, decide_eq_true_eq]
    exact ⟨hphase, hgood⟩

/-- **The accumulator of one payload in the host's component**, which counts those that verify. -/
theorem trustedTEEaccumSp_size (hphase : rd.phase = Phase1.newview.byte)
    (hnodup : (ss.entries.map Sign.signer).Nodup) (hle : ss.size ≤ tv.qsize)
    (hmax : tv.qsize ≤ maxNumSignatures) :
    ∃ size, trustedTEEaccumSp cr tv ⟨true, rd, ss⟩ =
        trustedAccumOf cr tv rd.propv rd.justv rd.justh size ∧
      (size = ss.size ↔ ∀ s ∈ ss.entries, (tv.env cr).verified s (.rdata rd)) := by
  refine ⟨_, rfl, ?_⟩
  have hverify : ∀ s, (Signs.one s).verify cr.verifySign tv.nodes (.rdata rd) = true ↔
      (tv.env cr).verified s (.rdata rd) := by
    intro s
    rw [Signs.verify_eq_true]
    exact List.forall_mem_singleton
  have hlength : ss.entries.length = ss.size := Signs.length_entries (hle.trans hmax)
  dsimp only
  rw [if_pos hphase, take_entries_of_le hle, ← hlength]
  constructor
  · intro hcount s hs
    -- nothing was filtered out
    have hfilter := countSigners_le (ss.entries.filter fun s =>
      (Signs.one s).verify cr.verifySign tv.nodes (.rdata rd))
    have hall := List.length_filter_eq_length_iff.mp
      ((List.length_filter_le _ ss.entries).antisymm (hcount ▸ hfilter))
    exact (hverify s).mp (hall s hs)
  · intro hall
    rw [List.filter_eq_self.mpr fun s hs => (hverify s).mpr (hall s hs), countSigners_of_nodup hnodup]

end Accumulators

end Raftel
