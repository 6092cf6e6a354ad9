import Mathlib.Data.Finset.Card

/-!
# Two kinds of quorum

Nodes of which some are trusted and some faulty; a trusted node is reliable even when it is faulty.  A
quorum is either a set of `tq` trusted nodes or a set of `q` nodes of any type.  The three bounds of
`Quorums` say that two quorums, of the same or of different kinds, have a reliable node in common
(`exists_reliable_inter`).  Quorums are counted by the names in a list (`exists_card_iff`).
-/

namespace Lib

variable {α : Type*} [DecidableEq α]

structure Quorums (α : Type*) [DecidableEq α] where
  nodes : Finset α
  trusted : Finset α
  faulty : Finset α
  q : ℕ
  tq : ℕ
  trusted_sub : trusted ⊆ nodes
  /-- two trusted quorums intersect -/
  trusted_lt : trusted.card < tq + tq
  /-- a trusted quorum and one of any type intersect -/
  mixed_lt : nodes.card < tq + q
  /-- two quorums of any type intersect in more than the faulty nodes -/
  any_lt : nodes.card + faulty.card < q + q

namespace Quorums

variable (Q : Quorums α)

/-- The sets of nodes that count as a quorum. -/
def IsQuorum (S : Finset α) : Prop :=
  S ⊆ Q.nodes ∧ ((S ⊆ Q.trusted ∧ S.card = Q.tq) ∨ S.card = Q.q)

/-- The nodes that follow the protocol, as far as what they sign is concerned. -/
def Reliable (x : α) : Prop := x ∈ Q.nodes ∧ (x ∈ Q.trusted ∨ x ∉ Q.faulty)

variable {Q} {S T : Finset α}

/-- Two quorums of any type have a node in common that is not faulty. -/
theorem exists_inter_not_faulty (hS : S ⊆ Q.nodes) (hT : T ⊆ Q.nodes) (hSq : S.card = Q.q)
    (hTq : T.card = Q.q) : ∃ x ∈ S, x ∈ T ∧ x ∉ Q.faulty := by
  have hunion : (S ∪ T).card ≤ Q.nodes.card := Finset.card_le_card (Finset.union_subset hS hT)
  have hsum := Finset.card_union_add_card_inter S T
  have hlt : Q.faulty.card < (S ∩ T).card := by
    have := Q.any_lt
    omega
  obtain ⟨x, hx, hxf⟩ := Finset.exists_mem_notMem_of_card_lt_card hlt
  exact ⟨x, (Finset.mem_inter.mp hx).1, (Finset.mem_inter.mp hx).2, hxf⟩

/-- **Quorum intersection.**  Any two quorums have a reliable node in common. -/
theorem exists_reliable_inter (hS : Q.IsQuorum S) (hT : Q.IsQuorum T) :
    ∃ x ∈ S, x ∈ T ∧ Q.Reliable x := by
  -- a common node of which one quorum is trusted is reliable
  have htrusted : ∀ {A B : Finset α} (U : Finset α), A ⊆ Q.nodes → A ⊆ Q.trusted → A ⊆ U → B ⊆ U →
      U.card < A.card + B.card → ∃ x ∈ A, x ∈ B ∧ Q.Reliable x := by
    intro A B U hAn hAt hAU hBU hlt
    obtain ⟨x, hx⟩ := Finset.inter_nonempty_of_card_lt_card_add_card hAU hBU hlt
    obtain ⟨hxA, hxB⟩ := Finset.mem_inter.mp hx
    exact ⟨x, hxA, hxB, hAn hxA, Or.inl (hAt hxA)⟩
  obtain ⟨hSn, ⟨hSt, hStq⟩ | hSq⟩ := hS <;> obtain ⟨hTn, ⟨hTt, hTtq⟩ | hTq⟩ := hT
  · exact htrusted Q.trusted hSn hSt hSt hTt (by rw [hStq, hTtq]; exact Q.trusted_lt)
  · exact htrusted Q.nodes hSn hSt hSn hTn (by rw [hStq, hTq]; exact Q.mixed_lt)
  · obtain ⟨x, hxT, hxS, hx⟩ := htrusted Q.nodes hTn hTt hTn hSn
      (by rw [hTtq, hSq]; exact Q.mixed_lt)
    exact ⟨x, hxS, hxT, hx⟩
  · obtain ⟨x, hxS, hxT, hxf⟩ := exists_inter_not_faulty hSn hTn hSq hTq
    exact ⟨x, hxS, hxT, hSn hxS, Or.inr hxf⟩

/-- A quorum has a reliable node. -/
theorem IsQuorum.exists_reliable (hS : Q.IsQuorum S) : ∃ x ∈ S, Q.Reliable x := by
  obtain ⟨x, hx, -, hrel⟩ := exists_reliable_inter hS hS
  exact ⟨x, hx, hrel⟩

end Quorums

/-! ### Counting names -/

/-- A list has as many names of good elements as elements exactly when all of its elements are good and no
name occurs twice. -/
theorem exists_card_iff {β : Type*} {l : List β} {name : β → α} {good : β → Prop} :
    (∃ S : Finset α, S.card = l.length ∧ ∀ x ∈ S, ∃ b ∈ l, name b = x ∧ good b) ↔
      (∀ b ∈ l, good b) ∧ (l.map name).Nodup := by
  classical
  constructor
  · rintro ⟨S, hcard, hS⟩
    have hsub : S ⊆ ((l.filter fun b => good b).map name).toFinset := by
      intro x hx
      obtain ⟨b, hb, rfl, hgood⟩ := hS x hx
      exact List.mem_toFinset.mpr
        (List.mem_map_of_mem (List.mem_filter.mpr ⟨hb, decide_eq_true hgood⟩))
    have hle : l.length ≤ ((l.filter fun b => good b).map name).dedup.length := by
      rw [← hcard, ← List.card_toFinset]
      exact Finset.card_le_card hsub
    -- neither the filter nor the removal of duplicates makes the list shorter
    have hdedup := ((l.filter fun b => good b).map name).dedup_sublist
    have hmap : ((l.filter fun b => good b).map name).length = (l.filter fun b => good b).length :=
      List.length_map _
    have hfilter : l.filter (fun b => good b) = l := by
      refine List.filter_sublist.eq_of_length_le ?_
      have := hdedup.length_le
      omega
    rw [hfilter] at hdedup hle
    refine ⟨fun b hb => of_decide_eq_true (List.filter_eq_self.mp hfilter b hb), ?_⟩
    have hsame : (l.map name).dedup = l.map name :=
      hdedup.eq_of_length_le (by rw [List.length_map]; exact hle)
    exact List.dedup_eq_self.mp hsame
  · rintro ⟨hgood, hnodup⟩
    refine ⟨(l.map name).toFinset, ?_, fun x hx => ?_⟩
    · rw [List.toFinset_card_of_nodup hnodup, List.length_map]
    · obtain ⟨b, hb, rfl⟩ := List.mem_map.mp (List.mem_toFinset.mp hx)
      exact ⟨b, hb, rfl, hgood b hb⟩

end Lib
