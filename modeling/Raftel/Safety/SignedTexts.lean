import Raftel.Equiv.Text
import Raftel.Lib.Fields

/-!
# What a signed text says

Signatures and hashes are over texts.  A text is the concatenation of the fields of a record, where the
numbers have as many characters as digits and nothing marks their end.  So a text is not always that of
one record only: the end of a number may lie at another place.

* `rdata2string_determines_iff` : when the text of a vote determines it
* `accumData2string_determines_iff` : the same for an accumulator
* `rdata2string_ne_accumData2string` : a vote and an accumulator never have the same text
* `toText_determines_iff` : when the text of a block determines its content
-/

namespace Raftel

/-! ### Votes -/

/-- What follows `propv` in the text of a vote, up to the phase. -/
def RData.afterPropv (d : RData) : Text := hash2string d.justh ++ natText d.justv

/-- The number `propv` ends later in `d'`: the characters `w` are the first bytes of `justh` in `d` and
the last digits of `propv` in `d'`, and all that follows is moved by as many places. -/
structure RData.Shifted (w : Text) (d d' : RData) : Prop where
  proph : d.proph = d'.proph
  phase : d.phase = d'.phase
  propv : natText d'.propv = natText d.propv ++ w
  after : d.afterPropv = w ++ d'.afterPropv

theorem rdata2string_eq (d : RData) :
    rdata2string d = hash2string d.proph ++ (natText d.propv ++ d.afterPropv ++ natText d.phase.toNat) := by
  simp [rdata2string, RData.afterPropv]

theorem RData.Shifted.rdata2string_eq {w : Text} {d d' : RData} (h : d.Shifted w d') :
    rdata2string d = rdata2string d' := by
  rw [Raftel.rdata2string_eq, Raftel.rdata2string_eq, h.proph, h.phase, h.propv, h.after]
  simp only [List.append_assoc]

theorem RData.Shifted.ne {w : Text} (hw : w ≠ []) {d d' : RData} (h : d.Shifted w d') : d ≠ d' := by
  rintro rfl
  exact hw (List.self_eq_append_right.mp h.propv)

/-- Without a shift the two votes are the same. -/
theorem RData.Shifted.eq_of_nil {d d' : RData} (h : d.Shifted [] d') : d = d' := by
  obtain ⟨hproph, hphase, hpropv, hafter⟩ := h
  rw [List.append_nil] at hpropv
  obtain ⟨hjusth, hjustv⟩ := hash2string_append_inj.mp (hafter.trans (List.nil_append _))
  cases d
  cases d'
  rw [RData.mk.injEq]
  exact ⟨hproph, (natText_injective hpropv).symm, hjusth, natText_injective hjustv, hphase⟩

/-- Two votes with the same text are shifted against each other, one way or the other. -/
theorem shifted_of_rdata2string_eq {d d' : RData} {ph ph' : Phase1} (hph : d.phase = ph.byte)
    (hph' : d'.phase = ph'.byte) (h : rdata2string d = rdata2string d') :
    ∃ w, d.Shifted w d' ∨ d'.Shifted w d := by
  rw [rdata2string_eq, rdata2string_eq] at h
  obtain ⟨hproph, hrest⟩ := hash2string_append_inj.mp h
  -- the phase is the last character
  obtain ⟨hnumbers, hphase⟩ := List.append_inj' hrest (by
    rw [hph, hph', length_natText_byte, length_natText_byte])
  have hphase := UInt8.toNat_inj.mp (natText_injective hphase)
  rcases List.append_eq_append_iff.mp hnumbers with ⟨w, hpropv, hafter⟩ | ⟨w, hpropv, hafter⟩
  · exact ⟨w, Or.inl ⟨hproph, hphase, hpropv, hafter⟩⟩
  · exact ⟨w, Or.inr ⟨hproph.symm, hphase.symm, hpropv, hafter⟩⟩

/-- **The text of a vote.**  Enclave and host build the same one.  It determines the vote, among the
votes of a phase, exactly when `propv` cannot end at another place. -/
theorem rdata2string_determines_iff (d d' : RData) (hph : ∃ ph : Phase1, d.phase = ph.byte)
    (hph' : ∃ ph : Phase1, d'.phase = ph.byte) :
    Structs.rdata2string (Structs.setRData d) = rdata2string d ∧
      ((rdata2string d = rdata2string d' → d = d') ↔
        ¬ ∃ w ≠ [], d.Shifted w d' ∨ d'.Shifted w d) := by
  obtain ⟨ph, hph⟩ := hph
  obtain ⟨ph', hph'⟩ := hph'
  refine ⟨Structs.rdata2string_setRData d, fun hdet => ?_, fun hno heq => ?_⟩
  · rintro ⟨w, hw, hshift | hshift⟩
    · exact hshift.ne hw (hdet hshift.rdata2string_eq)
    · exact hshift.ne hw (hdet hshift.rdata2string_eq.symm).symm
  · obtain ⟨w, hshift⟩ := shifted_of_rdata2string_eq hph hph' heq
    by_cases hw : w = []
    · subst hw
      rcases hshift with hshift | hshift
      · exact hshift.eq_of_nil
      · exact hshift.eq_of_nil.symm
    · exact absurd ⟨w, hw, hshift⟩ hno

/-- A new-view of view 1, whose hash begins with the digit 2. -/
def viewOneVote : RData :=
  ⟨noHash, 1, ⟨Vector.ofFn fun i => if i.val = 0 then 50 else 48, true⟩, 10, Phase1.newview.byte⟩

/-- A new-view of view 12. -/
def viewTwelveVote : RData :=
  ⟨noHash, 12, ⟨Vector.ofFn fun i => if i.val = 31 then 49 else 48, true⟩, 0, Phase1.newview.byte⟩

/-- **One text for two votes.** -/
theorem rdata2string_collision :
    (viewOneVote.phase = Phase1.newview.byte ∧ viewTwelveVote.phase = Phase1.newview.byte ∧
      viewOneVote.justv < 2 ^ 32 ∧ viewTwelveVote.propv < 2 ^ 32) ∧
      rdata2string viewOneVote = rdata2string viewTwelveVote ∧ viewOneVote ≠ viewTwelveVote := by
  refine ⟨by decide, by decide, fun h => ?_⟩
  exact absurd (congrArg RData.propv h) (by decide)

/-- The votes of two views with the same number of digits. -/
theorem rdata2string_determines_views :
    (∃ ph : Phase1, viewTwelveVote.phase = ph.byte) ∧
      (rdata2string viewTwelveVote = rdata2string { viewTwelveVote with propv := 13 } →
        viewTwelveVote = { viewTwelveVote with propv := 13 }) := by
  refine ⟨⟨.newview, rfl⟩, (rdata2string_determines_iff viewTwelveVote
    { viewTwelveVote with propv := 13 } ⟨.newview, rfl⟩ ⟨.newview, rfl⟩).2.mpr ?_⟩
  rintro ⟨w, hw, hshift | hshift⟩
  all_goals
    have hlength := congrArg List.length hshift.propv
    rw [List.length_append] at hlength
    have hpos : 0 < w.length := List.length_pos_iff.mpr hw
    have htwo : (natText 12).length = 2 := by decide
    have htwo' : (natText 13).length = 2 := by decide
    simp only [viewTwelveVote] at hlength
    omega

/-! ### Accumulators -/

/-- The two numbers at the beginning of the text of an accumulator. -/
def AccumData.views (a : AccumData) : Text := natText a.view ++ natText a.prepv

/-- What follows them. -/
def AccumData.afterViews (a : AccumData) : Text := hash2string a.hash ++ natText a.size

/-- The two numbers end later in `a'`, by the characters `w`; when there are none, they are the same
digits. -/
structure AccumData.Shifted (w : Text) (a a' : AccumData) : Prop where
  set : a.set = a'.set
  views : a'.views = a.views ++ w
  after : a.afterViews = w ++ a'.afterViews

theorem accumData2string_eq (a : AccumData) :
    accumData2string a = boolText a.set ++ (a.views ++ a.afterViews) := by
  simp [accumData2string, AccumData.views, AccumData.afterViews]

theorem accumData2string_eq_iff {a a' : AccumData} :
    accumData2string a = accumData2string a' ↔ ∃ w, a.Shifted w a' ∨ a'.Shifted w a := by
  rw [accumData2string_eq, accumData2string_eq, boolText_append_inj]
  constructor
  · rintro ⟨hset, hrest⟩
    rcases List.append_eq_append_iff.mp hrest with ⟨w, hviews, hafter⟩ | ⟨w, hviews, hafter⟩
    · exact ⟨w, Or.inl ⟨hset, hviews, hafter⟩⟩
    · exact ⟨w, Or.inr ⟨hset.symm, hviews, hafter⟩⟩
  · rintro ⟨w, h | h⟩
    · exact ⟨h.set, by rw [h.views, h.after, List.append_assoc]⟩
    · exact ⟨h.set.symm, by rw [h.views, h.after, List.append_assoc]⟩

/-- Without a shift, and with the same view, the two accumulators are the same. -/
theorem AccumData.Shifted.eq_of_nil {a a' : AccumData} (h : a.Shifted [] a')
    (hview : a.view = a'.view) : a = a' := by
  obtain ⟨hset, hviews, hafter⟩ := h
  rw [List.append_nil] at hviews
  obtain ⟨hhash, hsize⟩ := hash2string_append_inj.mp (hafter.trans (List.nil_append _))
  have hprepv : natText a'.prepv = natText a.prepv := by
    unfold AccumData.views at hviews
    rw [hview] at hviews
    exact List.append_cancel_left hviews
  cases a
  cases a'
  rw [AccumData.mk.injEq]
  exact ⟨hset, hview, (natText_injective hprepv).symm, hhash, natText_injective hsize⟩

theorem AccumData.Shifted.nil_of_eq {w : Text} {a : AccumData} (h : a.Shifted w a) : w = [] :=
  List.self_eq_append_right.mp h.views

/-- **The text of an accumulator.**  The three functions build the same one.  It determines the
accumulator exactly when `view` and `prepv` cannot end at other places. -/
theorem accumData2string_determines_iff (a a' : AccumData) :
    Structs.accumData2string (Structs.setAccumData a) = accumData2string a ∧
      Structs.teeAccumText a.view a.prepv (Structs.setHash a.hash) a.size =
        accumData2string { a with set := true } ∧
      ((accumData2string a = accumData2string a' → a = a') ↔
        ¬ ∃ w, (a.Shifted w a' ∨ a'.Shifted w a) ∧ (w ≠ [] ∨ a.view ≠ a'.view)) := by
  refine ⟨Structs.accumData2string_setAccumData a, ?_, fun hdet => ?_, fun hno heq => ?_⟩
  · unfold Structs.teeAccumText accumData2string
    rw [Structs.hash2string_setHash]
  · rintro ⟨w, hshift, hmoved⟩
    obtain rfl : a = a' := hdet (accumData2string_eq_iff.mpr ⟨w, hshift⟩)
    rcases hmoved with hw | hview
    · exact hw (hshift.elim AccumData.Shifted.nil_of_eq AccumData.Shifted.nil_of_eq)
    · exact hview rfl
  · obtain ⟨w, hshift⟩ := accumData2string_eq_iff.mp heq
    by_cases hmoved : w ≠ [] ∨ a.view ≠ a'.view
    · exact absurd ⟨w, hshift, hmoved⟩ hno
    · rw [not_or, not_not, not_not] at hmoved
      obtain ⟨rfl, hview⟩ := hmoved
      rcases hshift with hshift | hshift
      · exact hshift.eq_of_nil hview
      · exact (hshift.eq_of_nil hview.symm).symm

/-- **One text for two accumulators**, both with `prepv < view`: of view 21 over a block of view 10, and
of view 211 over the genesis block. -/
theorem accumData2string_collision :
    (∀ a ∈ [(⟨true, 21, 10, newHash, 3⟩ : AccumData), ⟨true, 211, 0, newHash, 3⟩],
      a.prepv < a.view ∧ a.view < 2 ^ 32) ∧
      accumData2string ⟨true, 21, 10, newHash, 3⟩ = accumData2string ⟨true, 211, 0, newHash, 3⟩ ∧
      (⟨true, 21, 10, newHash, 3⟩ : AccumData) ≠ ⟨true, 211, 0, newHash, 3⟩ := by
  refine ⟨by decide, by decide, fun h => ?_⟩
  exact absurd (congrArg AccumData.view h) (by decide)

/-! ### Votes and accumulators -/

theorem Structs.length_hash2string (h : Structs.HashT) :
    (Structs.hash2string h).length = sha256DigestLength + 1 := by
  unfold Structs.hash2string
  rw [Structs.appendLoop_eq, List.nil_append, ← List.map_eq_flatMap, List.length_append,
    List.length_map, List.length_finRange, length_boolText]

/-- The text of a vote has at least 69 characters. -/
theorem le_length_rdata2string (d : Structs.RDataT) : 69 ≤ (Structs.rdata2string d).length := by
  have hpos : ∀ n, 1 ≤ (natText n).length := fun n => List.length_pos_iff.mpr (natText_ne_nil n)
  have hpropv := hpos d.propv
  have hjustv := hpos d.justv
  have hphase := hpos d.phase.toNat
  unfold Structs.rdata2string
  simp only [List.length_append, Structs.length_hash2string, sha256DigestLength]
  omega

/-- The text of an accumulator of 32-bit numbers has at most 64 characters. -/
theorem length_accumData2string_le (a : Structs.AccumDataT) (hview : a.view < 2 ^ 32)
    (hprepv : a.prepv < 2 ^ 32) (hsize : a.size < 2 ^ 32) :
    (Structs.accumData2string a).length ≤ 64 := by
  have hview := length_natText_le_ten hview
  have hprepv := length_natText_le_ten hprepv
  have hsize := length_natText_le_ten hsize
  unfold Structs.accumData2string
  simp only [List.length_append, Structs.length_hash2string, length_boolText, sha256DigestLength]
  omega

/-- **A vote and an accumulator never have the same text**, the one built in `COMB_TEEaccum` included;
so a signature that is valid for one text only is never valid for both. -/
theorem rdata2string_ne_accumData2string (d : Structs.RDataT) (a : Structs.AccumDataT)
    (hview : a.view < 2 ^ 32) (hprepv : a.prepv < 2 ^ 32) (hsize : a.size < 2 ^ 32) :
    Structs.rdata2string d ≠ Structs.accumData2string a ∧
      Structs.rdata2string d ≠ Structs.teeAccumText a.view a.prepv a.hash a.size ∧
      ∀ valid : Text → Vector UInt8 signLen → Prop,
        (∀ t t' sig, valid t sig → valid t' sig → t = t') →
          ∀ sig, ¬ (valid (Structs.rdata2string d) sig ∧ valid (Structs.accumData2string a) sig) := by
  have hne : ∀ b : Structs.AccumDataT, b.view < 2 ^ 32 → b.prepv < 2 ^ 32 → b.size < 2 ^ 32 →
      Structs.rdata2string d ≠ Structs.accumData2string b := by
    intro b hview hprepv hsize heq
    have hlong := le_length_rdata2string d
    have hshort := length_accumData2string_le b hview hprepv hsize
    rw [heq] at hlong
    omega
  refine ⟨hne a hview hprepv hsize, hne { a with set := true } hview hprepv hsize, ?_⟩
  rintro valid hunique sig ⟨hvote, hacc⟩
  exact hne a hview hprepv hsize (hunique _ _ sig hvote hacc)

theorem rdata2string_ne_accumData2string_viewOne :
    Structs.rdata2string (Structs.setRData viewOneVote) ≠
      Structs.accumData2string (Structs.setAccumData ⟨true, 21, 10, newHash, 3⟩) :=
  (rdata2string_ne_accumData2string (Structs.setRData viewOneVote)
    (Structs.setAccumData ⟨true, 21, 10, newHash, 3⟩) (by decide) (by decide) (by decide)).1

/-! ### Blocks -/

/-- The content of a block: what is hashed of it. -/
structure Block.SameContent (b b' : Block) : Prop where
  id : b.id = b'.id
  set : b.set = b'.set
  prevHash : b.prevHash = b'.prevHash
  size : b.size = b'.size
  transactions : ∀ i (hi : i < maxNumTransactions), i < b.size →
    b.transactions[i] = b'.transactions[i]

def Transaction.fields (t : Transaction) : List Text :=
  [natText t.clientid, natText t.transid, t.data.toList]

/-- The fields of a block in the order of its text. -/
def Block.fields (b : Block) : List Text :=
  natText b.id :: boolText b.set :: hash2string b.prevHash :: natText b.size ::
    b.hashed.flatMap Transaction.fields

theorem Transaction.flatten_fields (t : Transaction) : t.fields.flatten = transaction2string t := by
  simp [Transaction.fields, transaction2string]

theorem flatten_flatMap_fields (l : List Transaction) :
    (l.flatMap Transaction.fields).flatten = l.flatMap transaction2string := by
  induction l with
  | nil => rfl
  | cons t l ih => rw [List.flatMap_cons, List.flatten_append, ih, t.flatten_fields, List.flatMap_cons]

theorem Block.flatten_fields (b : Block) : b.fields.flatten = b.toText := by
  unfold Block.fields Block.toText
  simp only [List.flatten_cons, flatten_flatMap_fields, List.append_assoc]

theorem Block.fields_ne_nil (b : Block) : ∀ x ∈ b.fields, x ≠ [] := by
  have hbool : boolText b.set ≠ [] := by
    rw [← List.length_pos_iff, length_boolText]
    exact Nat.one_pos
  have hhash : hash2string b.prevHash ≠ [] := by
    rw [← List.length_pos_iff, length_hash2string]
    exact Nat.succ_pos _
  have hdata : ∀ t : Transaction, t.data.toList ≠ [] := by
    intro t
    rw [← List.length_pos_iff, Vector.length_toList]
    decide
  intro x hx
  unfold Block.fields at hx
  simp only [List.mem_cons, List.mem_flatMap, Transaction.fields, List.not_mem_nil, or_false] at hx
  rcases hx with rfl | rfl | rfl | rfl | ⟨t, -, rfl | rfl | rfl⟩
  · exact natText_ne_nil _
  · exact hbool
  · exact hhash
  · exact natText_ne_nil _
  · exact natText_ne_nil _
  · exact natText_ne_nil _
  · exact hdata t

theorem Transaction.fields_injective : Function.Injective Transaction.fields := by
  intro t t' h
  simp only [Transaction.fields, List.cons.injEq, and_true] at h
  obtain ⟨hclient, htrans, hdata⟩ := h
  cases t
  cases t'
  rw [Transaction.mk.injEq]
  exact ⟨natText_injective hclient, natText_injective htrans, Vector.toList_inj.mp hdata⟩

/-- The fields of a transaction are read off the beginning of a list of fields. -/
theorem flatMap_fields_injective :
    Function.Injective fun l : List Transaction => l.flatMap Transaction.fields := by
  intro l l' h
  induction l generalizing l' with
  | nil =>
    cases l' with
    | nil => rfl
    | cons t' l' => exact absurd h (by simp [Transaction.fields])
  | cons t l ih =>
    cases l' with
    | nil => exact absurd h (by simp [Transaction.fields])
    | cons t' l' =>
      have happ : t.fields ++ l.flatMap Transaction.fields =
          t'.fields ++ l'.flatMap Transaction.fields := h
      obtain ⟨hfirst, hrest⟩ := List.append_inj happ rfl
      rw [Transaction.fields_injective hfirst, ih hrest]

theorem Block.hashed_eq_iff {b b' : Block} (hsize : b.size = b'.size) :
    b.hashed = b'.hashed ↔ ∀ i (hi : i < maxNumTransactions), i < b.size →
      b.transactions[i] = b'.transactions[i] := by
  unfold Block.hashed
  rw [← hsize]
  constructor
  · intro h i hi hlt
    have hget := congrArg (·[i]?) h
    simpa [List.getElem?_take, hlt, hi] using hget
  · intro h
    apply List.ext_getElem
    · simp
    · intro i h₁ h₂
      rw [List.length_take, Vector.length_toList, lt_min_iff] at h₁
      simpa using h i h₁.2 h₁.1

theorem Block.fields_eq_iff {b b' : Block} : b.fields = b'.fields ↔ b.SameContent b' := by
  unfold Block.fields
  rw [List.cons.injEq, List.cons.injEq, List.cons.injEq, List.cons.injEq, natText_inj,
    boolText_injective.eq_iff, hash2string_injective.eq_iff, natText_inj,
    flatMap_fields_injective.eq_iff]
  constructor
  · rintro ⟨hid, hset, hprev, hsize, htrans⟩
    exact ⟨hid, hset, hprev, hsize, (Block.hashed_eq_iff hsize).mp htrans⟩
  · rintro ⟨hid, hset, hprev, hsize, htrans⟩
    exact ⟨hid, hset, hprev, hsize, (Block.hashed_eq_iff hsize).mpr htrans⟩

/-! ### Where the texts of two blocks part -/

/-- What follows the client in the text of a transaction. -/
def Transaction.afterClientid (t : Transaction) : Text := natText t.transid ++ t.data.toList

/-- What follows the identifier in the text of a block. -/
def Block.afterId (b : Block) : Text :=
  boolText b.set ++ hash2string b.prevHash ++ natText b.size ++ b.hashed.flatMap transaction2string

/-- A number of a transaction ends later in `l'`: the transactions before it are the same, the characters `w` are
the last digits of the number in `l'`, and in `l` they are the first ones of what follows it. -/
inductive TransactionsPart (w : Text) (l l' : List Transaction) : Prop
  | clientid (pre ts ts' : List Transaction) (t t' : Transaction) (hl : l = pre ++ t :: ts)
      (hl' : l' = pre ++ t' :: ts') (number : natText t'.clientid = natText t.clientid ++ w)
      (after : t.afterClientid ++ ts.flatMap transaction2string =
        w ++ (t'.afterClientid ++ ts'.flatMap transaction2string))
  | transid (pre ts ts' : List Transaction) (t t' : Transaction) (hl : l = pre ++ t :: ts)
      (hl' : l' = pre ++ t' :: ts') (client : t.clientid = t'.clientid)
      (number : natText t'.transid = natText t.transid ++ w)
      (after : t.data.toList ++ ts.flatMap transaction2string =
        w ++ (t'.data.toList ++ ts'.flatMap transaction2string))

/-- A number of a block ends later in `b'`, and all before it is the same. -/
inductive Block.Part (w : Text) (b b' : Block) : Prop
  | id (number : natText b'.id = natText b.id ++ w) (after : b.afterId = w ++ b'.afterId)
  | size (id : b.id = b'.id) (set : b.set = b'.set) (prevHash : b.prevHash = b'.prevHash)
      (number : natText b'.size = natText b.size ++ w)
      (after : b.hashed.flatMap transaction2string = w ++ b'.hashed.flatMap transaction2string)
  | transaction (id : b.id = b'.id) (set : b.set = b'.set) (prevHash : b.prevHash = b'.prevHash)
      (size : b.size = b'.size) (part : TransactionsPart w b.hashed b'.hashed)

/-- Later transactions part where earlier ones are the same. -/
theorem TransactionsPart.cons {w : Text} {l l' : List Transaction} (h : TransactionsPart w l l') (t : Transaction) :
    TransactionsPart w (t :: l) (t :: l') := by
  cases h with
  | clientid pre ts ts' t₁ t₁' hl hl' number after =>
    exact .clientid (t :: pre) ts ts' t₁ t₁' (by rw [hl]; rfl) (by rw [hl']; rfl) number after
  | transid pre ts ts' t₁ t₁' hl hl' client number after =>
    exact .transid (t :: pre) ts ts' t₁ t₁' (by rw [hl]; rfl) (by rw [hl']; rfl) client number after

/-- The payloads have the same length, so that transactions part at a number. -/
theorem cutBefore_transactions_iff {l l' : List Transaction} :
    Lib.CutBefore (l.flatMap Transaction.fields) (l'.flatMap Transaction.fields) ↔
      ∃ w, w ≠ [] ∧ TransactionsPart w l l' := by
  constructor
  · intro h
    induction l generalizing l' with
    | nil => exact absurd h Lib.not_cutBefore_nil.1
    | cons t l ih =>
      cases l' with
      | nil => exact absurd h Lib.not_cutBefore_nil.2
      | cons t' l' =>
        have hdata : t.data.toList.length = t'.data.toList.length := by
          rw [Vector.length_toList, Vector.length_toList]
        change Lib.CutBefore (natText t.clientid :: natText t.transid :: t.data.toList ::
          l.flatMap Transaction.fields) (natText t'.clientid :: natText t'.transid :: t'.data.toList ::
          l'.flatMap Transaction.fields) at h
        rcases Lib.cutBefore_cons_iff.mp h with ⟨w, hw, number, after⟩ | ⟨hclient, h⟩
        · simp only [List.flatten_cons, flatten_flatMap_fields] at after
          exact ⟨w, hw, .clientid [] l l' t t' rfl rfl number (by
            simpa [Transaction.afterClientid] using after)⟩
        rcases Lib.cutBefore_cons_iff.mp h with ⟨w, hw, number, after⟩ | ⟨htrans, h⟩
        · simp only [List.flatten_cons, flatten_flatMap_fields] at after
          exact ⟨w, hw, .transid [] l l' t t' rfl rfl (natText_injective hclient) number after⟩
        -- the first transactions are the same
        obtain ⟨hpayload, h⟩ := (Lib.cutBefore_cons_of_length hdata).mp h
        obtain ⟨w, hw, hpart⟩ := ih h
        have ht : t = t' := by
          apply Transaction.fields_injective
          rw [Transaction.fields, hclient, htrans, hpayload]
          rfl
        exact ⟨w, hw, ht ▸ hpart.cons t⟩
  · rintro ⟨w, hw, hpart⟩
    cases hpart with
    | clientid pre ts ts' t t' hl hl' number after =>
      rw [hl, hl', List.flatMap_append, List.flatMap_append]
      refine ⟨pre.flatMap Transaction.fields, natText t.clientid, w, natText t.transid :: t.data.toList ::
        ts.flatMap Transaction.fields, natText t'.transid :: t'.data.toList :: ts'.flatMap Transaction.fields,
        hw, rfl, by rw [← number]; rfl, ?_⟩
      simpa [flatten_flatMap_fields, Transaction.afterClientid] using after
    | transid pre ts ts' t t' hl hl' client number after =>
      rw [hl, hl', List.flatMap_append, List.flatMap_append]
      refine ⟨pre.flatMap Transaction.fields ++ [natText t.clientid], natText t.transid, w,
        t.data.toList :: ts.flatMap Transaction.fields, t'.data.toList :: ts'.flatMap Transaction.fields, hw, ?_, ?_, ?_⟩
      · rw [List.append_assoc]
        rfl
      · rw [List.append_assoc, ← number, client]
        rfl
      · simpa [flatten_flatMap_fields] using after

/-- The flag and the parent hash have fixed lengths, so that blocks part at a number. -/
theorem Block.cutBefore_iff {b b' : Block} :
    Lib.CutBefore b.fields b'.fields ↔ ∃ w, w ≠ [] ∧ b.Part w b' := by
  have hset : (boolText b.set).length = (boolText b'.set).length := by
    rw [length_boolText, length_boolText]
  have hprev : (hash2string b.prevHash).length = (hash2string b'.prevHash).length := by
    rw [length_hash2string, length_hash2string]
  unfold Block.fields
  rw [Lib.cutBefore_cons_iff, Lib.cutBefore_cons_of_length hset, Lib.cutBefore_cons_of_length hprev,
    Lib.cutBefore_cons_iff, cutBefore_transactions_iff, natText_inj, natText_inj, boolText_injective.eq_iff,
    hash2string_injective.eq_iff]
  simp only [List.flatten_cons, flatten_flatMap_fields]
  constructor
  · rintro (⟨w, hw, number, after⟩ | ⟨id, set, prevHash, ⟨w, hw, number, after⟩ | ⟨size, w, hw, part⟩⟩)
    · exact ⟨w, hw, .id number (by simpa [Block.afterId] using after)⟩
    · exact ⟨w, hw, .size id set prevHash number after⟩
    · exact ⟨w, hw, .transaction id set prevHash size part⟩
  · rintro ⟨w, hw, ⟨number, after⟩ | ⟨id, set, prevHash, number, after⟩ | ⟨id, set, prevHash, size, part⟩⟩
    · exact Or.inl ⟨w, hw, number, by simpa [Block.afterId] using after⟩
    · exact Or.inr ⟨id, set, prevHash, Or.inl ⟨w, hw, number, after⟩⟩
    · exact Or.inr ⟨id, set, prevHash, Or.inr ⟨size, w, hw, part⟩⟩

/-- **The text of a block** determines its content exactly when no number of the two blocks, be it the identifier,
the size or the client or the number of a transaction, ends later in one of them. -/
theorem toText_determines_iff (b b' : Block) :
    (b.toText = b'.toText → b.SameContent b') ↔ ¬ ∃ w, w ≠ [] ∧ (b.Part w b' ∨ b'.Part w b) := by
  have hpart : (∃ w, w ≠ [] ∧ (b.Part w b' ∨ b'.Part w b)) ↔ Lib.Recut b.fields b'.fields := by
    unfold Lib.Recut
    rw [Block.cutBefore_iff, Block.cutBefore_iff, ← exists_or]
    simp only [and_or_left]
  rw [hpart, ← b.flatten_fields, ← b'.flatten_fields, ← Block.fields_eq_iff,
    Lib.flatten_eq_flatten_iff b.fields_ne_nil b'.fields_ne_nil]
  constructor
  · intro hdet hrecut
    exact hrecut.ne (hdet (Or.inr hrecut))
  · rintro hno (heq | hrecut)
    · exact heq
    · exact absurd hrecut hno

/-- A block with one transaction of the given client and number. -/
def clientBlock (cid : CID) (tid : TID) : Block :=
  ⟨101, true, newHash, 1, Vector.replicate _ ⟨cid, tid, Vector.replicate _ 0⟩⟩

/-- **One text for two blocks**: transaction 23 of client 1, and transaction 3 of client 12. -/
theorem toText_collision :
    ((clientBlock 1 23).size ≤ maxNumTransactions ∧ (clientBlock 12 3).size ≤ maxNumTransactions) ∧
      (clientBlock 1 23).toText = (clientBlock 12 3).toText ∧
      ¬ (clientBlock 1 23).SameContent (clientBlock 12 3) := by
  have hhashed : ∀ cid tid, (clientBlock cid tid).hashed = [⟨cid, tid, Vector.replicate _ 0⟩] := by
    intro cid tid
    show (Vector.replicate maxNumTransactions _).toList.take 1 = _
    rw [Vector.toList_replicate, List.take_replicate]
    rfl
  have htrans : transaction2string ⟨1, 23, Vector.replicate _ 0⟩ =
      transaction2string ⟨12, 3, Vector.replicate _ 0⟩ := by
    unfold transaction2string
    rw [show natText 1 ++ natText 23 = natText 12 ++ natText 3 by decide]
  refine ⟨by decide, ?_, fun h => ?_⟩
  · unfold Block.toText
    rw [hhashed, hhashed, List.flatMap_singleton, List.flatMap_singleton, htrans]
    rfl
  · have hfirst := congrArg Transaction.clientid (h.transactions 0 (by decide) (by decide))
    simp only [clientBlock, Vector.getElem_replicate] at hfirst
    exact absurd hfirst (by decide)

end Raftel
