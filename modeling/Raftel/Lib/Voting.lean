import Raftel.Lib.Quorum
import Mathlib.Data.List.Basic
import Mathlib.Logic.Relation

/-!
# Voting in views

Voters vote for values, in views that have stages.  Stage 0 of a view is for a value that is proposed;
a value that a quorum has voted for in a stage of a view may be voted for in any stage of that view.  A
voter that has voted in a later stage has locked the value: it then votes for a proposal only if the
value that it extends is one that a quorum voted for in the view of the lock, or after it.

The history of the votes is a list with the last vote first.  `Votes` says that each vote follows these
rules, as far as the votes before it go; nothing is said of voters that are not reliable.

* `Votes.prepared` : what a quorum votes for in some stage, a quorum has voted for in stage 0
* `Votes.unique` : a quorum votes for at most one value of a view
* `Votes.agreement` : what a quorum votes for in a later view extends what a quorum has locked
-/

namespace Lib

/-! ### Histories -/

section AtEach

variable {α : Type*} {P : List α → α → Prop}

/-- `P` holds of each entry of a history, last entry first, and the entries before it. -/
def AtEach (P : List α → α → Prop) : List α → Prop
  | [] => True
  | x :: l => P l x ∧ AtEach P l

instance [∀ l x, Decidable (P l x)] : DecidablePred (AtEach P) := by
  intro l
  induction l with
  | nil => exact inferInstanceAs (Decidable True)
  | cons x l ih => exact inferInstanceAs (Decidable (_ ∧ _))

/-- An entry, with the entries before it. -/
theorem AtEach.exists_suffix {l : List α} (h : AtEach P l) {x : α} (hx : x ∈ l) :
    ∃ l', l' <:+ l ∧ P l' x := by
  induction l with
  | nil => exact absurd hx List.not_mem_nil
  | cons y l ih =>
    rcases List.mem_cons.mp hx with rfl | hx
    · exact ⟨l, List.suffix_cons _ l, h.1⟩
    · obtain ⟨l', hl', hP⟩ := ih h.2 hx
      exact ⟨l', hl'.trans (List.suffix_cons y l), hP⟩

end AtEach

/-! ### Quorums -/

/-- Sets of which any two have a reliable member in common. -/
structure QuorumSystem (α : Type*) where
  IsQuorum : Finset α → Prop
  Reliable : α → Prop
  inter : ∀ {S T}, IsQuorum S → IsQuorum T → ∃ x ∈ S, x ∈ T ∧ Reliable x

/-- The quorums of `q` nodes of any type, when no faulty node is reliable. -/
def Quorums.untrusted {α : Type*} [DecidableEq α] (Q : Quorums α) : QuorumSystem α where
  IsQuorum S := S ⊆ Q.nodes ∧ S.card = Q.q
  Reliable x := x ∉ Q.faulty
  inter hS hT := exists_inter_not_faulty hS.1 hT.1 hS.2 hT.2

/-! ### Votes -/

structure Vote (α β : Type*) where
  voter : α
  view : ℕ
  stage : ℕ
  value : β

variable {α β : Type*}

/-- The vote is for an earlier view, or for an earlier stage of the view. -/
def Vote.Before (w w' : Vote α β) : Prop := w.view < w'.view ∨ w.view = w'.view ∧ w.stage < w'.stage

section Rules

variable (Q : QuorumSystem α) (link : β → β → Prop)

/-- The reliable members of a quorum have voted for the value in this stage of the view. -/
def Backed (l : List (Vote α β)) (v k : ℕ) (x : β) : Prop :=
  ∃ S, Q.IsQuorum S ∧ ∀ p ∈ S, Q.Reliable p → ⟨p, v, k, x⟩ ∈ l

/-- What a vote needs, from the votes before it. -/
inductive Admissible (l : List (Vote α β)) (w : Vote α β) : Prop
  /-- the value has the votes of a quorum in this view -/
  | endorse (k : ℕ) (cert : Backed Q l w.view k w.value)
  /-- the value extends another, and no lock of the voter is above that one -/
  | propose (parent : β) (stage : w.stage = 0) (extend : link w.value parent)
      (safe : ∀ w' ∈ l, w'.voter = w.voter → 0 < w'.stage →
        ∃ v k, w'.view ≤ v ∧ Backed Q l v k parent)

/-- A vote is admissible, and after the earlier votes of its voter. -/
def Cast (l : List (Vote α β)) (w : Vote α β) : Prop :=
  (∀ w' ∈ l, w'.voter = w.voter → w'.Before w) ∧ Admissible Q link l w

/-- A history of votes that follow the rules. -/
def Votes : List (Vote α β) → Prop := AtEach (Cast Q link)

end Rules

section Safety

variable {Q : QuorumSystem α} {link : β → β → Prop} {l l' : List (Vote α β)} {u v k k' : ℕ} {x y : β}

theorem Backed.mono (hsub : l ⊆ l') (h : Backed Q l v k x) : Backed Q l' v k x := by
  obtain ⟨S, hS, hall⟩ := h
  exact ⟨S, hS, fun p hp hrel => hsub (hall p hp hrel)⟩

/-- Two quorums of votes have a reliable voter in common. -/
theorem Backed.exists_common (h : Backed Q l u k x) (h' : Backed Q l' v k' y) :
    ∃ p, Q.Reliable p ∧ ⟨p, u, k, x⟩ ∈ l ∧ ⟨p, v, k', y⟩ ∈ l' := by
  obtain ⟨S, hS, hall⟩ := h
  obtain ⟨T, hT, hall'⟩ := h'
  obtain ⟨p, hpS, hpT, hrel⟩ := Q.inter hS hT
  exact ⟨p, hrel, hall p hpS hrel, hall' p hpT hrel⟩

theorem Backed.exists_vote (h : Backed Q l v k x) : ∃ p, ⟨p, v, k, x⟩ ∈ l := by
  obtain ⟨p, -, hp, -⟩ := h.exists_common h
  exact ⟨p, hp⟩

/-- A voter votes once in each stage of a view. -/
theorem Votes.eq_of_mem (h : Votes Q link l) {w w' : Vote α β} (hw : w ∈ l) (hw' : w' ∈ l)
    (hvoter : w.voter = w'.voter) (hview : w.view = w'.view) (hstage : w.stage = w'.stage) :
    w = w' := by
  induction l with
  | nil => exact absurd hw List.not_mem_nil
  | cons w₀ l ih =>
    obtain ⟨⟨hfresh, -⟩, hl⟩ := h
    rcases List.mem_cons.mp hw with rfl | hmem <;> rcases List.mem_cons.mp hw' with rfl | hmem'
    · rfl
    · rcases hfresh w' hmem' hvoter.symm with hlt | ⟨-, hlt⟩ <;> omega
    · rcases hfresh w hmem hvoter with hlt | ⟨-, hlt⟩ <;> omega
    · exact ih hl hmem hmem'

/-- What is voted for in a later stage has the votes of a quorum in stage 0. -/
theorem Votes.prepared_of_mem (h : Votes Q link l) {w : Vote α β} (hw : w ∈ l) (hpos : 0 < w.stage) :
    Backed Q l w.view 0 w.value := by
  induction l generalizing w with
  | nil => exact absurd hw List.not_mem_nil
  | cons w₀ l ih =>
    obtain ⟨⟨-, hadm⟩, hl⟩ := h
    rcases List.mem_cons.mp hw with rfl | hw
    · cases hadm with
      | endorse k cert =>
        rcases Nat.eq_zero_or_pos k with rfl | hk
        · exact cert.mono (List.subset_cons_self _ _)
        · obtain ⟨p, hp⟩ := cert.exists_vote
          exact (ih hl hp hk).mono (List.subset_cons_self _ _)
      | propose parent stage extend safe => omega
    · exact (ih hl hw hpos).mono (List.subset_cons_self _ _)

/-- **Later stages rest on stage 0.** -/
theorem Votes.prepared (h : Votes Q link l) (hcert : Backed Q l v k x) : Backed Q l v 0 x := by
  rcases Nat.eq_zero_or_pos k with rfl | hk
  · exact hcert
  · obtain ⟨p, hp⟩ := hcert.exists_vote
    exact h.prepared_of_mem hp hk

/-- **One value for each view.** -/
theorem Votes.unique (h : Votes Q link l) (hx : Backed Q l v k x) (hy : Backed Q l v k' y) :
    x = y := by
  obtain ⟨p, -, hpx, hpy⟩ := (h.prepared hx).exists_common (h.prepared hy)
  exact congrArg Vote.value (h.eq_of_mem hpx hpy rfl rfl rfl)

/-- What is voted for has been proposed. -/
theorem Votes.exists_link (h : Votes Q link l) {w : Vote α β} (hw : w ∈ l) :
    ∃ parent, link w.value parent := by
  induction l generalizing w with
  | nil => exact absurd hw List.not_mem_nil
  | cons w₀ l ih =>
    obtain ⟨⟨-, hadm⟩, hl⟩ := h
    rcases List.mem_cons.mp hw with rfl | hw
    · cases hadm with
      | endorse k cert =>
        obtain ⟨p, hp⟩ := cert.exists_vote
        have hlink := ih hl hp
        exact hlink
      | propose parent stage extend safe => exact ⟨parent, extend⟩
    · exact ih hl hw

/-- The members of the quorum that locked `x` in view `u` have all done so in this history, unless they
have not voted in a later view. -/
def LockedBy (Q : QuorumSystem α) (l : List (Vote α β)) (S : Finset α) (u k : ℕ) (x : β) : Prop :=
  ∀ p ∈ S, Q.Reliable p → ⟨p, u, k, x⟩ ∈ l ∨ ∀ w ∈ l, w.voter = p → w.view ≤ u

theorem LockedBy.tail {S : Finset α} {w : Vote α β} (h : LockedBy Q (w :: l) S u k x)
    (hfresh : ∀ w' ∈ l, w'.voter = w.voter → w'.Before w) : LockedBy Q l S u k x := by
  intro p hp hrel
  rcases h p hp hrel with hmem | hle
  · rcases List.mem_cons.mp hmem with rfl | hmem
    · -- the lock is the last vote: all others are before it
      refine Or.inr fun w' hw' hvoter => ?_
      rcases hfresh w' hw' hvoter with hlt | ⟨heq, -⟩
      · exact hlt.le
      · exact heq.le
    · exact Or.inl hmem
  · exact Or.inr fun w' hw' => hle w' (List.mem_cons_of_mem _ hw')

/-- **The lock holds.**  A member of the quorum that locked `x` votes in later views only for values that
extend `x`. -/
theorem Votes.extends_of_lockedBy {S : Finset α} (h : Votes Q link l) (hS : Q.IsQuorum S)
    (hk : 0 < k) (hlock : LockedBy Q l S u k x)
    (hunique : ∀ k' y, Backed Q l u k' y → y = x) {w : Vote α β} (hw : w ∈ l) (hwS : w.voter ∈ S)
    (hrel : Q.Reliable w.voter) (hlt : u < w.view) : Relation.TransGen link w.value x := by
  induction l generalizing w with
  | nil => exact absurd hw List.not_mem_nil
  | cons w₀ l ih =>
    obtain ⟨⟨hfresh, hadm⟩, hl⟩ := h
    have hsub : l ⊆ w₀ :: l := List.subset_cons_self _ _
    have hvote : ∀ {w : Vote α β}, w ∈ l → w.voter ∈ S → Q.Reliable w.voter → u < w.view →
        Relation.TransGen link w.value x := fun hw hwS hrel hlt =>
      ih hl (hlock.tail hfresh) (fun k' y hy => hunique k' y (hy.mono hsub)) hw hwS hrel hlt
    -- any other quorum has a member in common with this one
    have hcert : ∀ {v' k' : ℕ} {y : β}, Backed Q l v' k' y → u < v' →
        Relation.TransGen link y x := by
      rintro v' k' y ⟨T, hT, hall⟩ hlt
      obtain ⟨p, hpS, hpT, hp⟩ := Q.inter hS hT
      exact hvote (hall p hpT hp) hpS hp hlt
    rcases List.mem_cons.mp hw with rfl | hw
    · cases hadm with
      | endorse k' cert => exact hcert cert hlt
      | propose parent stage extend safe =>
        have hmem : ⟨w.voter, u, k, x⟩ ∈ l := by
          rcases hlock w.voter hwS hrel with hmem | hle
          · refine (List.mem_cons.mp hmem).resolve_left fun heq => ?_
            rw [← heq] at hlt
            exact absurd hlt (lt_irrefl u)
          · exact absurd hlt (not_lt.mpr (hle w List.mem_cons_self rfl))
        obtain ⟨v', k', hle, hparent⟩ := safe _ hmem rfl hk
        rcases (show u ≤ v' from hle).eq_or_lt with rfl | hlt'
        · rw [hunique k' parent (hparent.mono hsub)] at extend
          exact .single extend
        · exact .head extend (hcert hparent hlt')
    · exact hvote hw hwS hrel hlt

/-- **Agreement.**  A value that a quorum votes for in a later view extends the one that a quorum has
locked; in the view of the lock, it is that one. -/
theorem Votes.agreement (h : Votes Q link l) (hk : 0 < k) (hx : Backed Q l u k x)
    (hy : Backed Q l v k' y) (huv : u ≤ v) : y = x ∨ Relation.TransGen link y x := by
  rcases huv.eq_or_lt with rfl | hlt
  · exact Or.inl (h.unique hy hx)
  · obtain ⟨S, hS, hall⟩ := hx
    obtain ⟨T, hT, hall'⟩ := hy
    obtain ⟨p, hpS, hpT, hp⟩ := Q.inter hS hT
    have hlock : LockedBy Q l S u k x := fun q hq hrel => Or.inl (hall q hq hrel)
    exact Or.inr (h.extends_of_lockedBy hS hk hlock
      (fun k'' z hz => h.unique hz ⟨S, hS, hall⟩) (hall' p hpT hp) hpS hp hlt)

end Safety

end Lib
