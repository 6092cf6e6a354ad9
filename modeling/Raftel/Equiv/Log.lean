import Raftel.Log
import Raftel.Equiv.Share
import Mathlib.Data.List.Perm.Basic
import Mathlib.Order.Basic

/-!
# What the log holds

`store` either leaves a log as it is or adds the message to those of its view; the other views are
not touched.  The getters return what is stored, in order, up to the given number.
-/

namespace Raftel

variable {α : Type}

theorem length_setInsert_le (lt : α → α → Bool) (x : α) (l : List α) :
    (setInsert lt x l).length ≤ l.length + 1 := by
  induction l with
  | nil => exact le_rfl
  | cons y ys ih =>
    unfold setInsert
    split
    · exact le_rfl
    · split
      · exact Nat.succ_le_succ ih
      · exact Nat.le_succ _

/-- An element that is not equivalent to any of the set is added. -/
theorem setInsert_perm {lt : α → α → Bool} {x : α} {l : List α}
    (h : ∀ y ∈ l, lt x y = true ∨ lt y x = true) : (setInsert lt x l).Perm (x :: l) := by
  induction l with
  | nil => exact List.Perm.refl _
  | cons y ys ih =>
    unfold setInsert
    split
    · exact List.Perm.refl _
    · next hxy =>
      have hyx : lt y x = true := (h y List.mem_cons_self).resolve_left hxy
      rw [if_pos hyx]
      have hperm := ih fun z hz => h z (List.mem_cons_of_mem y hz)
      exact (hperm.cons y).trans (List.Perm.swap x y ys)

theorem mem_setInsert_of_mem {lt : α → α → Bool} {x y : α} {l : List α} (h : y ∈ l) :
    y ∈ setInsert lt x l := by
  induction l with
  | nil => exact absurd h List.not_mem_nil
  | cons z zs ih =>
    unfold setInsert
    split
    · exact List.mem_cons_of_mem x h
    · split
      · rcases List.mem_cons.mp h with rfl | h
        · exact List.mem_cons_self
        · exact List.mem_cons_of_mem z (ih h)
      · exact h

namespace ViewLog

variable {viewOf : α → View}

@[simp]
theorem get_empty (v : View) : (empty : ViewLog α viewOf).get v = [] := by
  simp [get, empty]

theorem get_insert (lt : α → α → Bool) (log : ViewLog α viewOf) (msg : α) :
    (log.insert lt msg).get (viewOf msg) = setInsert lt msg (log.get (viewOf msg)) := by
  unfold insert set
  simp only [get, AList.lookup_insert, Option.getD_some]

theorem get_insert_of_ne {lt : α → α → Bool} {log : ViewLog α viewOf} {msg : α} {v : View}
    (h : v ≠ viewOf msg) : (log.insert lt msg).get v = log.get v := by
  unfold insert set get
  rw [AList.lookup_insert_ne h]

theorem get_store_of_ne {lt : α → α → Bool} {isFrom : List α → α → Bool} {log : ViewLog α viewOf}
    {msg : α} {v : View} (h : v ≠ viewOf msg) : (log.store lt isFrom msg).2.get v = log.get v := by
  unfold store
  split
  · split
    · rfl
    · exact get_insert_of_ne h
  · exact get_insert_of_ne h

/-- **Inversion.**  A message is a duplicate, or it is put among the messages of its view. -/
theorem get_store (lt : α → α → Bool) (isFrom : List α → α → Bool) (log : ViewLog α viewOf)
    (msg : α) :
    (isFrom (log.get (viewOf msg)) msg = true ∧ (log.store lt isFrom msg).2 = log) ∨
      ((isFrom (log.get (viewOf msg)) msg = false ∨ log.get (viewOf msg) = []) ∧
        (log.store lt isFrom msg).2.get (viewOf msg) =
          setInsert lt msg (log.get (viewOf msg))) := by
  unfold store
  cases hl : log.map.lookup (viewOf msg) with
  | none =>
    right
    have hget : log.get (viewOf msg) = [] := by simp [get, hl]
    exact ⟨Or.inr hget, get_insert lt log msg⟩
  | some msgs =>
    have hget : log.get (viewOf msg) = msgs := by simp [get, hl]
    dsimp only
    split
    · next hfrom => exact Or.inl ⟨hget ▸ hfrom, rfl⟩
    · next hfrom =>
      rw [Bool.not_eq_true] at hfrom
      exact Or.inr ⟨Or.inl (hget ▸ hfrom), get_insert lt log msg⟩

/-- Nothing else comes in. -/
theorem mem_of_mem_store {lt : α → α → Bool} {isFrom : List α → α → Bool} {log : ViewLog α viewOf}
    {msg m : α} {v : View} (h : m ∈ (log.store lt isFrom msg).2.get v) : m ∈ log.get v ∨ m = msg := by
  by_cases hv : v = viewOf msg
  · subst hv
    rcases get_store lt isFrom log msg with ⟨-, hsame⟩ | ⟨-, hget⟩
    · rw [hsame] at h
      exact Or.inl h
    · rw [hget] at h
      exact (mem_of_mem_setInsert h).symm
  · rw [get_store_of_ne hv] at h
    exact Or.inl h

/-- Nothing that is stored is lost. -/
theorem mem_store_of_mem {lt : α → α → Bool} {isFrom : List α → α → Bool} {log : ViewLog α viewOf}
    {msg m : α} {v : View} (h : m ∈ log.get v) : m ∈ (log.store lt isFrom msg).2.get v := by
  by_cases hv : v = viewOf msg
  · subst hv
    rcases get_store lt isFrom log msg with ⟨-, hsame⟩ | ⟨-, hget⟩
    · rw [hsame]
      exact h
    · rw [hget]
      exact mem_setInsert_of_mem h
  · rw [get_store_of_ne hv]
    exact h

theorem mem_of_mem_insert {lt : α → α → Bool} {log : ViewLog α viewOf} {msg m : α} {v : View}
    (h : m ∈ (log.insert lt msg).get v) : m = msg ∨ m ∈ log.get v := by
  by_cases hv : v = viewOf msg
  · subst hv
    rw [get_insert] at h
    exact mem_of_mem_setInsert h
  · rw [get_insert_of_ne hv] at h
    exact Or.inr h

theorem mem_of_mem_erase {log : ViewLog α viewOf} {m : α} {v w : View}
    (h : m ∈ (log.erase w).get v) : m ∈ log.get v := by
  unfold get erase at h
  by_cases hv : v = w
  · subst hv
    simp at h
  · rwa [AList.lookup_erase_ne hv] at h

/-- A message that is no duplicate, and not equivalent to one of the set, comes in. -/
theorem mem_store {lt : α → α → Bool} {isFrom : List α → α → Bool} {log : ViewLog α viewOf} {msg : α}
    (hfrom : isFrom (log.get (viewOf msg)) msg = false)
    (hlt : ∀ m ∈ log.get (viewOf msg), lt msg m = true ∨ lt m msg = true) :
    msg ∈ (log.store lt isFrom msg).2.get (viewOf msg) := by
  rcases get_store lt isFrom log msg with ⟨hdup, -⟩ | ⟨-, hget⟩
  · exact absurd (hfrom.symm.trans hdup) Bool.false_ne_true
  · rw [hget]
    exact (setInsert_perm hlt).mem_iff.mpr List.mem_cons_self

/-- It is counted, and nothing else changes in its view. -/
theorem store_new {lt : α → α → Bool} {isFrom : List α → α → Bool} {log : ViewLog α viewOf} {msg : α}
    (hfrom : isFrom (log.get (viewOf msg)) msg = false)
    (hlt : ∀ m ∈ log.get (viewOf msg), lt msg m = true ∨ lt m msg = true) :
    (log.store lt isFrom msg).1 = (log.get (viewOf msg)).length + 1 ∧
      ((log.store lt isFrom msg).2.get (viewOf msg)).Perm (msg :: log.get (viewOf msg)) := by
  have hperm := setInsert_perm hlt
  have hget := get_insert lt log msg
  unfold store
  cases hl : log.map.lookup (viewOf msg) with
  | none =>
    have hnil : log.get (viewOf msg) = [] := by simp [get, hl]
    rw [hnil] at hperm hget ⊢
    refine ⟨rfl, ?_⟩
    show ((log.insert lt msg).get (viewOf msg)).Perm _
    rwa [hget]
  | some msgs =>
    have hmsgs : log.get (viewOf msg) = msgs := by simp [get, hl]
    have hfrom : ¬ isFrom msgs msg = true := by
      rw [← hmsgs, hfrom]
      exact Bool.false_ne_true
    dsimp only
    rw [if_neg hfrom]
    show ((log.insert lt msg).get (viewOf msg)).length = _ ∧ ((log.insert lt msg).get (viewOf msg)).Perm _
    rw [hget]
    exact ⟨hperm.length_eq, hperm⟩

/-- When duplicates are told by the signer and different signers are ordered, a message comes in if no other
one of its view has its signer. -/
theorem mem_store_of_unique {lt : α → α → Bool} {isFrom : List α → α → Bool} (signerOf : α → PID)
    {log : ViewLog α viewOf} {msg : α}
    (hdup : isFrom (log.get (viewOf msg)) msg = true →
      ∃ m ∈ log.get (viewOf msg), signerOf m = signerOf msg)
    (hlt : ∀ m ∈ log.get (viewOf msg), signerOf m ≠ signerOf msg → lt msg m = true ∨ lt m msg = true)
    (hunique : ∀ m ∈ log.get (viewOf msg), signerOf m = signerOf msg → m = msg) :
    msg ∈ (log.store lt isFrom msg).2.get (viewOf msg) := by
  by_cases hmem : msg ∈ log.get (viewOf msg)
  · exact mem_store_of_mem hmem
  · have hne : ∀ m ∈ log.get (viewOf msg), signerOf m ≠ signerOf msg := by
      intro m hm heq
      exact hmem (hunique m hm heq ▸ hm)
    refine mem_store ?_ fun m hm => hlt m hm (hne m hm)
    rw [← Bool.not_eq_true]
    intro hfrom
    obtain ⟨m, hm, heq⟩ := hdup hfrom
    exact hne m hm heq

/-- The same for messages that are ordered by their signers. -/
theorem mem_store_by_signer (signerOf : α → PID) {log : ViewLog α viewOf} {msg : α}
    (hunique : ∀ m ∈ log.get (viewOf msg), signerOf m = signerOf msg → m = msg) :
    msg ∈ (log.store (fun m m' => decide (signerOf m < signerOf m'))
      (fun msgs m => msgs.any fun m' => decide (signerOf m' = signerOf m)) msg).2.get (viewOf msg) := by
  refine mem_store_of_unique signerOf (fun hfrom => ?_) (fun m _ hne => ?_) hunique
  · obtain ⟨m, hm, heq⟩ := List.any_eq_true.mp hfrom
    exact ⟨m, hm, of_decide_eq_true heq⟩
  · rcases Nat.lt_or_gt_of_ne hne with hlt | hlt
    · exact Or.inr (decide_eq_true hlt)
    · exact Or.inl (decide_eq_true hlt)

/-- When duplicates are told by the signer and different signers are ordered, a message that is no
duplicate is added to those of its view. -/
theorem get_store_perm (lt : α → α → Bool) (isFrom : List α → α → Bool) (signerOf : α → PID)
    (log : ViewLog α viewOf) (msg : α)
    (hdup : isFrom (log.get (viewOf msg)) msg = false →
      ∀ m ∈ log.get (viewOf msg), signerOf m ≠ signerOf msg)
    (hlt : ∀ m ∈ log.get (viewOf msg), signerOf m ≠ signerOf msg → lt msg m = true ∨ lt m msg = true) :
    (log.store lt isFrom msg).2 = log ∨
      ((∀ m ∈ log.get (viewOf msg), signerOf m ≠ signerOf msg) ∧
        ((log.store lt isFrom msg).2.get (viewOf msg)).Perm (msg :: log.get (viewOf msg))) := by
  rcases get_store lt isFrom log msg with ⟨-, hsame⟩ | ⟨hnew, hget⟩
  · exact Or.inl hsame
  · have hfresh : ∀ m ∈ log.get (viewOf msg), signerOf m ≠ signerOf msg := by
      intro m hm
      rcases hnew with hfrom | hnil
      · exact hdup hfrom m hm
      · rw [hnil] at hm
        exact absurd hm List.not_mem_nil
    right
    rw [hget]
    exact ⟨hfresh, setInsert_perm fun m hm => hlt m hm (hfresh m hm)⟩

end ViewLog

/-! ### Signatures -/

namespace Signs

theorem entries_of_size_one {ss : Signs} (h : ss.size = 1) : ss.entries = [ss.get 0] := by
  have hlen : 0 < ss.signs.toList.length := by
    rw [Vector.length_toList]
    exact maxNumSignatures_pos
  unfold entries get
  rw [h, List.take_one]
  cases hl : ss.signs.toList with
  | nil => simp [hl] at hlen
  | cons s l => rfl

theorem entries_add {ss : Signs} (h : ss.size < maxNumSignatures) (s : Sign) :
    (ss.add s).entries = ss.entries ++ [s] := by
  have hlen : ss.size < ss.signs.toList.length := by
    rw [Vector.length_toList]
    exact h
  unfold entries add
  rw [Vector.toList_setIfInBounds, List.take_add_one, List.take_set_of_le le_rfl,
    List.getElem?_set_self hlen]
  rfl

/-- A loop that appends signatures while there are fewer than `n`. -/
theorem entries_foldl_add {n : ℕ} (hn : n ≤ maxNumSignatures) (l : List Sign) {ss : Signs}
    (h : ss.size ≤ n) :
    (l.foldl (fun acc s => if acc.size < n then acc.add s else acc) ss).entries =
        (ss.entries ++ l).take n ∧
      (l.foldl (fun acc s => if acc.size < n then acc.add s else acc) ss).size ≤ n := by
  induction l generalizing ss with
  | nil =>
    have hlen := length_entries (h.trans hn)
    rw [List.append_nil, List.take_of_length_le (hlen.trans_le h)]
    exact ⟨rfl, h⟩
  | cons s l ih =>
    rw [List.foldl_cons]
    by_cases hlt : ss.size < n
    · rw [if_pos hlt]
      obtain ⟨hentries, hsize⟩ := ih (show (ss.add s).size ≤ n from hlt)
      rw [hentries, entries_add (hlt.trans_le hn), List.append_assoc, List.singleton_append]
      exact ⟨rfl, hsize⟩
    · -- the array is full: what follows does not count
      have hfull : ss.size = n := le_antisymm h (Nat.le_of_not_lt hlt)
      have hlen : n ≤ ss.entries.length := by rw [length_entries (h.trans hn), hfull]
      rw [if_neg hlt]
      obtain ⟨hentries, hsize⟩ := ih h
      rw [hentries, List.take_append_of_le_length hlen, List.take_append_of_le_length hlen]
      exact ⟨rfl, hsize⟩

/-- `addUpto` appends signatures up to the given number. -/
theorem entries_addUpto {n : ℕ} (hn : n ≤ maxNumSignatures) {ss : Signs} (h : ss.size ≤ n)
    (others : Signs) :
    (ss.addUpto others n).entries = (ss.entries ++ others.entries).take n ∧
      (ss.addUpto others n).size ≤ n :=
  entries_foldl_add hn others.entries h

end Signs

/-! ### The signatures of the votes -/

/-- A loop that collects signatures from messages that hold one each. -/
theorem Signs.entries_foldl_addUpto {n : ℕ} (hn : n ≤ maxNumSignatures) (signsOf : α → Signs)
    {msgs : List α} (hone : ∀ m ∈ msgs, (signsOf m).size = 1) {ss : Signs} (h : ss.size ≤ n) :
    (msgs.foldl (fun signs msg => if signs.size < n then signs.addUpto (signsOf msg) n else signs)
        ss).entries = (ss.entries ++ msgs.map fun m => (signsOf m).get 0).take n ∧
      (msgs.foldl (fun signs msg => if signs.size < n then signs.addUpto (signsOf msg) n else signs)
        ss).size ≤ n := by
  induction msgs generalizing ss with
  | nil => exact Signs.entries_foldl_add hn [] h
  | cons m msgs ih =>
    have hm : (signsOf m).entries = [(signsOf m).get 0] :=
      Signs.entries_of_size_one (hone m List.mem_cons_self)
    obtain ⟨hadd, hsize⟩ := Signs.entries_addUpto hn h (signsOf m)
    have hrest : ∀ m' ∈ msgs, (signsOf m').size = 1 := fun m' hm' =>
      hone m' (List.mem_cons_of_mem m hm')
    rw [List.foldl_cons, List.map_cons]
    by_cases hlt : ss.size < n
    · have hlen : ss.entries.length + 1 ≤ n := by
        rw [Signs.length_entries (h.trans hn)]
        exact hlt
      have htake : (ss.entries ++ [(signsOf m).get 0]).take n = ss.entries ++ [(signsOf m).get 0] :=
        List.take_of_length_le (by simpa using hlen)
      rw [if_pos hlt]
      obtain ⟨hentries, hle⟩ := ih hrest hsize
      rw [hentries, hadd, hm, htake, List.append_assoc, List.singleton_append]
      exact ⟨rfl, hle⟩
    · have hfull : ss.size = n := le_antisymm h (Nat.le_of_not_lt hlt)
      have hlen : n ≤ ss.entries.length := by rw [Signs.length_entries (h.trans hn), hfull]
      rw [if_neg hlt]
      obtain ⟨hentries, hle⟩ := ih hrest h
      rw [hentries, List.take_append_of_le_length hlen, List.take_append_of_le_length hlen]
      exact ⟨rfl, hle⟩

/-- The signature of a vote. -/
def MsgVoteComb.vote (m : MsgVoteComb) : Sign := m.signs.get 0

/-- The getters return the first signatures of the votes, when every message holds one. -/
theorem VoteLog.entries_getSigns {log : VoteLog} {v : View} {n : ℕ} (hn : n ≤ maxNumSignatures)
    (hone : ∀ m ∈ log.get v, m.signs.size = 1) :
    (log.getSigns v n).entries = ((log.get v).map MsgVoteComb.vote).take n ∧
      (log.getSigns v n).size ≤ n :=
  Signs.entries_foldl_addUpto hn MsgVoteComb.signs hone (show Signs.empty.size ≤ n from Nat.zero_le n)

/-- The merged getters: the votes of TEE nodes first, then those of the others, up to `n`. -/
theorem VoteLog.entries_merged {tee non : VoteLog} {v : View} {n : ℕ} (hn : n ≤ maxNumSignatures)
    (htee : ∀ m ∈ tee.get v, m.signs.size = 1) (hnon : ∀ m ∈ non.get v, m.signs.size = 1) :
    (VoteLog.merged tee non v n).entries =
        ((tee.get v).map MsgVoteComb.vote ++ (non.get v).map MsgVoteComb.vote).take n ∧
      (VoteLog.merged tee non v n).size ≤ n := by
  obtain ⟨hteeEntries, -⟩ := VoteLog.entries_getSigns hn htee
  obtain ⟨hnonEntries, -⟩ := VoteLog.entries_getSigns hn hnon
  have hzero : Signs.empty.size ≤ n := Nat.zero_le n
  obtain ⟨hout, hsize⟩ := Signs.entries_addUpto hn hzero (tee.getSigns v n)
  rw [show Signs.empty.entries = [] from rfl, List.nil_append, hteeEntries, List.take_take,
    Nat.min_self] at hout
  unfold VoteLog.merged
  dsimp only
  split
  · next hlt =>
    obtain ⟨hboth, hle⟩ := Signs.entries_addUpto hn hsize (non.getSigns v n)
    refine ⟨?_, hle⟩
    have hlen : ((tee.get v).map MsgVoteComb.vote).length ≤ n := by
      have := Signs.length_entries (hsize.trans hn)
      rw [hout, List.length_take] at this
      omega
    rw [hboth, hout, hnonEntries, List.take_of_length_le hlen, List.take_append, List.take_append,
      List.take_take, Nat.min_eq_left (Nat.sub_le _ _)]
  · next hge =>
    refine ⟨?_, hsize⟩
    have hlen : n ≤ ((tee.get v).map MsgVoteComb.vote).length := by
      have := Signs.length_entries (hsize.trans hn)
      rw [hout, List.length_take] at this
      omega
    rw [hout, List.take_append_of_le_length hlen]

/-! ### Duplicates -/

/-- The loop over the stored signers finds a single one exactly when it is among them. -/
theorem signersFrom_singleton {k : PID} {l : List PID} : signersFrom [k] l = true ↔ k ∈ l := by
  induction l with
  | nil => simp [signersFrom]
  | cons k' l ih =>
    unfold signersFrom
    by_cases hk : k' = k
    · subst hk
      simp
    · have herase : [k].erase k' = [k] := List.erase_of_not_mem (by simpa using hk)
      rw [herase]
      simp only [List.isEmpty_cons, Bool.false_or, ih, List.mem_cons, Ne.symm hk, false_or]

/-- A vote is a duplicate exactly when its signer has voted. -/
theorem msgVoteCombFrom_iff {msgs : List MsgVoteComb} {msg : MsgVoteComb}
    (hone : ∀ m ∈ msgs, m.signs.size = 1) (hmsg : msg.signs.size = 1) :
    msgVoteCombFrom msgs msg = true ↔ msg.vote.signer ∈ msgs.map fun m => m.vote.signer := by
  have hsigners : ∀ m : MsgVoteComb, m.signs.size = 1 → m.signs.getSigners = [m.vote.signer] := by
    intro m hm
    unfold Signs.getSigners
    rw [Signs.entries_of_size_one hm]
    rfl
  have hflat : (msgs.flatMap fun m => m.signs.getSigners) = msgs.map fun m => m.vote.signer := by
    induction msgs with
    | nil => rfl
    | cons m msgs ih =>
      rw [List.flatMap_cons, hsigners m (hone m List.mem_cons_self), List.map_cons,
        ih fun m' hm' => hone m' (List.mem_cons_of_mem m hm')]
      rfl
  unfold msgVoteCombFrom
  rw [hsigners msg hmsg, hflat, signersFrom_singleton]

/-- Votes of different signers are ordered. -/
theorem MsgVoteComb.lt_or_lt {m m' : MsgVoteComb} (hm : m.signs.size = 1) (hm' : m'.signs.size = 1)
    (h : m.vote.signer ≠ m'.vote.signer) : m.lt m' = true ∨ m'.lt m = true := by
  unfold MsgVoteComb.lt Signs.lt
  rw [Signs.entries_of_size_one hm, Signs.entries_of_size_one hm', hm, hm']
  rcases Nat.lt_or_gt_of_ne h with hlt | hlt
  · left
    simp only [MsgVoteComb.vote] at hlt
    simp [Signs.ltFrom, Sign.lt, hlt]
  · right
    simp only [MsgVoteComb.vote] at hlt
    simp [Signs.ltFrom, Sign.lt, hlt]

end Raftel
