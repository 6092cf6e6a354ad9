import Raftel.Reads
import Raftel.Equiv.Log

/-!
# When the reads are in range

A loop that is never left early reads in range exactly when its `size` fits the array; `Signs::verify`
also when a signature of the array is refused.  Where all reads are in range, the function is the one
without checks.

* `isSome_hash`, `isSome_getSigners`, `isSome_verify` : exactly when the reads are in range
* `store_eq`, `getSigns_eq` : the log, when all stored messages fit
-/

namespace Raftel

open Lib

theorem Signs.slots_eq {ss : Signs} (h : ss.InBounds) : ss.slots = ss.entries.map some :=
  Lib.slots_eq h

theorem Signs.one_inBounds (s : Sign) : (Signs.one s).InBounds := maxNumSignatures_pos

theorem Signs.empty_inBounds : Signs.empty.InBounds := Nat.zero_le _

/-! ### The messages of a log -/

/-- Every message of the log has the property. -/
def ViewLog.All {α : Type} {viewOf : α → View} (p : α → Prop) (log : ViewLog α viewOf) : Prop :=
  ∀ v, ∀ m ∈ log.get v, p m

namespace ViewLog

variable {α : Type} {viewOf : α → View} {p : α → Prop} {log : ViewLog α viewOf} {msg : α}

theorem all_empty : (empty : ViewLog α viewOf).All p := by
  intro v m hm
  rw [get_empty] at hm
  exact absurd hm List.not_mem_nil

theorem All.insert (h : log.All p) (hmsg : p msg) (lt : α → α → Bool) :
    (log.insert lt msg).All p := by
  intro v m hm
  by_cases hv : v = viewOf msg
  · subst hv
    rw [get_insert] at hm
    rcases mem_of_mem_setInsert hm with rfl | hm
    · exact hmsg
    · exact h _ m hm
  · rw [get_insert_of_ne hv] at hm
    exact h v m hm

theorem All.store (h : log.All p) (hmsg : p msg) (lt : α → α → Bool)
    (isFrom : List α → α → Bool) : (log.store lt isFrom msg).2.All p := by
  unfold ViewLog.store
  split
  · split
    · exact h
    · exact h.insert hmsg lt
  · exact h.insert hmsg lt

theorem All.erase (h : log.All p) (v : View) : (log.erase v).All p := by
  intro w m hm
  by_cases hw : w = v
  · subst hw
    simp [ViewLog.get, ViewLog.erase] at hm
  · unfold ViewLog.get ViewLog.erase at hm
    rw [AList.lookup_erase_ne hw] at hm
    exact h w m hm

end ViewLog

namespace Checked

theorem checkIf_some (p : Prop) [Decidable p] (b : Bool) :
    checkIf p (some b) = some (decide p && b) := by
  unfold checkIf
  by_cases hp : p
  · rw [if_pos hp, decide_eq_true hp]
    rfl
  · rw [if_neg hp, decide_eq_false hp]
    rfl

/-! ### Signatures -/

theorem entries_eq {ss : Signs} (h : ss.InBounds) : entries ss = some ss.entries := readAll_eq h

theorem getSigners_eq {ss : Signs} (h : ss.InBounds) : getSigners ss = some ss.getSigners := by
  unfold getSigners
  rw [entries_eq h]
  rfl

theorem isSome_getSigners {ss : Signs} : (getSigners ss).isSome ↔ ss.InBounds := by
  have hread : (entries ss).isSome ↔ ss.InBounds := isSome_readAll
  rw [← hread]
  unfold getSigners
  cases entries ss <;> exact Iff.rfl

section Verify

variable {Key T : Type} {verifySign : Sign → Key → T → Bool} {nodes : Nodes Key} {t : T}

/-- The check of one signature in `Signs::verify`. -/
def accepts (verifySign : Sign → Key → T → Bool) (nodes : Nodes Key) (t : T) (s : Sign) : Bool :=
  match nodes.lookup s.signer with
  | some nd => verifySign s nd.pub t
  | none => false

theorem verifyFrom_cons (s : Sign) (reads : List (Option Sign)) :
    verifyFrom verifySign nodes t (some s :: reads) =
      if accepts verifySign nodes t s then verifyFrom verifySign nodes t reads else some false := by
  show (match nodes.lookup s.signer with
    | some nd => if verifySign s nd.pub t then verifyFrom verifySign nodes t reads else some false
    | none => some false) = _
  unfold accepts
  cases nodes.lookup s.signer <;> rfl

/-- The loop over reads in range, and over what follows them. -/
theorem verifyFrom_append (l : List Sign) (reads : List (Option Sign)) :
    verifyFrom verifySign nodes t (l.map some ++ reads) =
      if l.all (accepts verifySign nodes t) then verifyFrom verifySign nodes t reads
      else some false := by
  induction l with
  | nil => rfl
  | cons s l ih =>
    rw [List.map_cons, List.cons_append, verifyFrom_cons, ih, List.all_cons]
    by_cases hs : accepts verifySign nodes t s = true
    · rw [if_pos hs, hs, Bool.true_and]
    · rw [Bool.not_eq_true] at hs
      rw [hs]
      rfl

theorem verify_eq {ss : Signs} (h : ss.InBounds) :
    verify verifySign nodes ss t = some (ss.verify verifySign nodes t) := by
  have happend : verifyFrom verifySign nodes t (ss.entries.map some ++ []) = _ :=
    verifyFrom_append ss.entries []
  rw [List.append_nil] at happend
  unfold verify
  rw [Signs.slots_eq h, happend]
  show (if ss.verify verifySign nodes t = true then some true else some false) = _
  cases ss.verify verifySign nodes t <;> rfl

/-- Beyond the array, the loop is left only at a signature that is refused. -/
theorem verify_eq_of_not_inBounds {ss : Signs} (h : ¬ ss.InBounds) :
    verify verifySign nodes ss t =
      if ss.signs.toList.all (accepts verifySign nodes t) then none else some false := by
  have hlt : maxNumSignatures < ss.size := Nat.lt_of_not_le h
  obtain ⟨k, hk⟩ := Nat.exists_eq_succ_of_ne_zero (Nat.sub_ne_zero_of_lt hlt)
  unfold verify Signs.slots
  rw [slots_eq_append (Nat.le_of_lt hlt), verifyFrom_append, hk, List.replicate_succ]
  rfl

/-- The reads of `Signs::verify` are in range: the size fits, or one of the signatures of the array is
refused. -/
def VerifyFits (verifySign : Sign → Key → T → Bool) (nodes : Nodes Key) (ss : Signs) (t : T) : Prop :=
  ss.InBounds ∨ ∃ s ∈ ss.signs.toList, accepts verifySign nodes t s = false

theorem isSome_verify {ss : Signs} :
    (verify verifySign nodes ss t).isSome ↔ VerifyFits verifySign nodes ss t := by
  unfold VerifyFits
  by_cases h : ss.InBounds
  · simp [verify_eq h, h]
  · rw [verify_eq_of_not_inBounds h, or_iff_right h]
    by_cases hall : ss.signs.toList.all (accepts verifySign nodes t) = true
    · rw [if_pos hall]
      rw [List.all_eq_true] at hall
      refine iff_of_false Bool.false_ne_true ?_
      rintro ⟨s, hs, hrefused⟩
      rw [hall s hs] at hrefused
      cases hrefused
    · rw [if_neg hall]
      rw [Bool.not_eq_true, List.all_eq_false] at hall
      obtain ⟨s, hs, hrefused⟩ := hall
      exact iff_of_true rfl ⟨s, hs, Bool.not_eq_true _ ▸ hrefused⟩

/-- Signatures that verify fit. -/
theorem inBounds_of_verify {ss : Signs} (h : verify verifySign nodes ss t = some true) : ss.InBounds := by
  by_contra hnot
  rw [verify_eq_of_not_inBounds hnot] at h
  split at h <;> cases h

end Verify

theorem addUptoFrom_eq (n : ℕ) (l : List Sign) (ss : Signs) :
    addUptoFrom n ss (l.map some) =
      some (l.foldl (fun acc s => if acc.size < n then acc.add s else acc) ss) := by
  induction l generalizing ss with
  | nil => rfl
  | cons s l ih =>
    rw [List.map_cons, List.foldl_cons]
    unfold addUptoFrom
    by_cases hlt : ss.size < n
    · rw [if_pos hlt, if_pos hlt]
      exact ih _
    · -- the array is full, and stays so
      rw [if_neg hlt, if_neg hlt]
      have hsame : ∀ l : List Sign,
          l.foldl (fun acc s => if acc.size < n then acc.add s else acc) ss = ss := by
        intro l
        induction l with
        | nil => rfl
        | cons s l ih =>
          rw [List.foldl_cons, if_neg hlt]
          exact ih
      rw [hsame]

theorem addUpto_eq {ss others : Signs} (h : others.InBounds) (n : ℕ) :
    addUpto ss others n = some (ss.addUpto others n) := by
  unfold addUpto
  rw [Signs.slots_eq h, addUptoFrom_eq]
  rfl

theorem ltFrom_eq (l l' : List Sign) :
    ltFrom (l.map some) (l'.map some) = some (Signs.ltFrom l l') := by
  induction l generalizing l' with
  | nil => cases l' <;> rfl
  | cons s l ih =>
    cases l' with
    | nil => rfl
    | cons t l' =>
      show (if s.lt t then some true else if t.lt s then some false
          else ltFrom (l.map some) (l'.map some)) =
        some (if s.lt t then true else if t.lt s then false else Signs.ltFrom l l')
      rw [ih]
      split
      · rfl
      · split <;> rfl

theorem lt_eq {ss ts : Signs} (h : ss.InBounds) (h' : ts.InBounds) : lt ss ts = some (ss.lt ts) := by
  unfold lt Signs.lt
  rw [Signs.slots_eq h, Signs.slots_eq h', ltFrom_eq]
  split
  · rfl
  · split <;> rfl

/-! ### Blocks -/

theorem hash_eq {sha : Text → Digest} {b : Block} (h : b.InBounds) : hash sha b = some (b.hash sha) := by
  unfold hash toText transactions2string
  rw [readAll_eq h]
  rfl

/-- `Block::hash` reads in range exactly when the size fits. -/
theorem isSome_hash {sha : Text → Digest} {b : Block} : (hash sha b).isSome ↔ b.InBounds := by
  have hread : (readAll b.transactions b.size).isSome ↔ b.InBounds := isSome_readAll
  rw [← hread]
  unfold hash toText transactions2string
  cases readAll b.transactions b.size <;> exact Iff.rfl

/-! ### Sets of messages -/

section Log

variable {α : Type} {viewOf : α → View} {signs : α → Signs}

theorem compares_eq {msg : α} (hmsg : (signs msg).InBounds) {l : List α}
    (hall : ∀ m ∈ l, (signs m).InBounds) : compares signs msg l = some () := by
  induction l with
  | nil => rfl
  | cons m l ih =>
    have hm := hall m List.mem_cons_self
    unfold compares
    rw [lt_eq hmsg hm, lt_eq hm hmsg, ih fun m' hm' => hall m' (List.mem_cons_of_mem m hm')]
    simp

theorem signersFrom_append (signers k l : List PID) :
    signersFrom signers (k ++ l) = (signersFrom signers k || signersFrom (signers.diff k) l) := by
  induction k generalizing signers with
  | nil => rfl
  | cons p k ih =>
    rw [List.cons_append, List.diff_cons]
    show ((signers.erase p).isEmpty || signersFrom (signers.erase p) (k ++ l)) =
      (((signers.erase p).isEmpty || signersFrom (signers.erase p) k) || _)
    rw [ih, Bool.or_assoc]

theorem msgFrom_eq {l : List α} (hall : ∀ m ∈ l, (signs m).InBounds) (signers : List PID) :
    msgFrom signs signers l =
      some (signersFrom signers (l.flatMap fun m => (signs m).getSigners)) := by
  induction l generalizing signers with
  | nil => rfl
  | cons m l ih =>
    unfold msgFrom
    rw [getSigners_eq (hall m List.mem_cons_self), List.flatMap_cons, signersFrom_append]
    show (if signersFrom signers (signs m).getSigners = true then some true
      else msgFrom signs (signers.diff (signs m).getSigners) l) = _
    rw [ih fun m' hm' => hall m' (List.mem_cons_of_mem m hm')]
    cases signersFrom signers (signs m).getSigners <;> rfl

theorem insert_eq {log : ViewLog α viewOf} {msg : α} (hall : log.All fun m => (signs m).InBounds)
    (hmsg : (signs msg).InBounds) : insert signs log msg = some (log.insert (msgLt signs) msg) := by
  unfold insert
  rw [compares_eq hmsg (hall _)]
  rfl

/-- The duplicates among messages with several signatures. -/
def isFrom (signs : α → Signs) (msgs : List α) (msg : α) : Bool :=
  signersFrom (signs msg).getSigners (msgs.flatMap fun m => (signs m).getSigners)

/-- **The log reads in range** when all its messages and the new one fit. -/
theorem store_eq {log : ViewLog α viewOf} {msg : α} (hall : log.All fun m => (signs m).InBounds)
    (hmsg : (signs msg).InBounds) :
    store signs log msg = some (log.store (msgLt signs) (isFrom signs) msg) := by
  unfold store ViewLog.store
  rw [getSigners_eq hmsg]
  cases hl : log.map.lookup (viewOf msg) with
  | none => rfl
  | some msgs =>
    have hmsgs : ∀ m ∈ msgs, (signs m).InBounds := by
      have hget : log.get (viewOf msg) = msgs := by simp [ViewLog.get, hl]
      exact hget ▸ hall (viewOf msg)
    show (msgFrom signs (signs msg).getSigners msgs >>= fun b => if b = true then pure (0, log)
      else insert signs log msg >>= fun log' => pure ((log'.get (viewOf msg)).length, log')) = _
    rw [msgFrom_eq hmsgs, insert_eq hall hmsg]
    show (if isFrom signs msgs msg = true then some (0, log) else some _) = some (if _ then _ else _)
    split <;> rfl

/-- A message that does not fit is not stored. -/
theorem store_eq_none {log : ViewLog α viewOf} {msg : α} (hmsg : ¬ (signs msg).InBounds) :
    store signs log msg = none := by
  have hnone : getSigners (signs msg) = none := by
    rw [← Option.not_isSome_iff_eq_none, isSome_getSigners]
    exact hmsg
  unfold store
  rw [hnone]
  rfl

/-- The getters add signatures up to the given number. -/
theorem getSigns_eq {log : ViewLog α viewOf} (hall : log.All fun m => (signs m).InBounds) (v : View)
    (n : ℕ) :
    getSigns signs log v n = some ((log.get v).foldl (fun acc msg =>
      if acc.size < n then acc.addUpto (signs msg) n else acc) .empty) := by
  have hfold : ∀ (l : List α) (ss : Signs), (∀ m ∈ l, (signs m).InBounds) →
      (l.foldlM (fun acc msg => if acc.size < n then addUpto acc (signs msg) n else some acc) ss) =
        some (l.foldl (fun acc msg => if acc.size < n then acc.addUpto (signs msg) n else acc) ss) := by
    intro l
    induction l with
    | nil => exact fun _ _ => rfl
    | cons m l ih =>
      intro ss hl
      have hrest : ∀ m' ∈ l, (signs m').InBounds := fun m' hm' => hl m' (List.mem_cons_of_mem m hm')
      rw [List.foldlM_cons, List.foldl_cons, addUpto_eq (hl m List.mem_cons_self)]
      by_cases hlt : ss.size < n
      · rw [if_pos hlt, if_pos hlt]
        exact ih _ hrest
      · rw [if_neg hlt, if_neg hlt]
        exact ih _ hrest
  exact hfold _ _ (hall v)

end Log

end Checked

end Raftel
