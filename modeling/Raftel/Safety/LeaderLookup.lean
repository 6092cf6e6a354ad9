import Raftel.Chained
import Raftel.HotStuff
import Raftel.Lib.Cyclic

/-!
# Looking up the leader

`getLeaderOf` searches the replicas in a circle for one that is not skipped, and when all are skipped it
clears the set.  A handler looks up leaders several times, for several views: no lookup changes the
result of another.

* `leaderIn_rotates` : what a lookup returns, what it leaves, and that it is stable, for any number of
  replicas
* `getLeaderOf_rotates` : `getLeaderOf` of every build is this lookup
-/

namespace Raftel

open Lib

variable {Key : Type} {total : ℕ} {skippedLeaders : List PID} {v w : View}

/-! ### The lookup -/

/-- `getLeaderOf` in rotating mode, for any number of replicas: the next replica from the nominal one on
that is not skipped, and the skipped leaders it leaves. -/
def leaderIn (total : ℕ) (skippedLeaders : List PID) (v : View) : PID × List PID :=
  if total = 0 then (0, skippedLeaders)
  else
    -- `start + k` is an `unsigned int`; it does not overflow, since a replica has a port of its own
    match (circle total (v % total)).find? fun cand => cand ∉ skippedLeaders with
    | some cand => (cand, skippedLeaders)
    | none => (v % total, [])

/-- The skipped leaders that lookups for the views leave, one after the other. -/
def lookUps (total : ℕ) (skippedLeaders : List PID) (views : List View) : List PID :=
  views.foldl (fun skipped w => (leaderIn total skipped w).2) skippedLeaders

/-- What a lookup for a view returns and leaves. -/
structure Rotates (total : ℕ) (skippedLeaders : List PID) (v : View) : Prop where
  lt : (leaderIn total skippedLeaders v).1 < total
  first : (∃ p < total, p ∉ skippedLeaders) →
    IsFirstFrom total (v % total) (fun p => p ∉ skippedLeaders) (leaderIn total skippedLeaders v).1 ∧
      (leaderIn total skippedLeaders v).2 = skippedLeaders
  cleared : (∀ p < total, p ∈ skippedLeaders) → leaderIn total skippedLeaders v = (v % total, [])
  stable : ∀ views, (leaderIn total (lookUps total (leaderIn total skippedLeaders v).2 views) v).1 =
    (leaderIn total skippedLeaders v).1

/-- When some replica is not skipped, the first such one is found. -/
theorem leaderIn_of_not_skipped (h : ∃ p < total, p ∉ skippedLeaders) (v : View) :
    ∃ p, IsFirstFrom total (v % total) (fun p => p ∉ skippedLeaders) p ∧
      leaderIn total skippedLeaders v = (p, skippedLeaders) := by
  obtain ⟨q, hq, hskip⟩ := h
  have hstart : v % total < total := Nat.mod_lt _ (by omega)
  cases hfind : (circle total (v % total)).find? fun cand => decide (cand ∉ skippedLeaders) with
  | none =>
    have hnone := (find?_circle_eq_none hstart).mp hfind q hq
    exact absurd (decide_eq_true hskip) hnone
  | some p =>
    have hfirst := (find?_circle_eq_some hstart).mp hfind
    simp only [decide_eq_true_eq] at hfirst
    have hpos : total ≠ 0 := by omega
    exact ⟨p, hfirst, by simp only [leaderIn, if_neg hpos, hfind]⟩

/-- When all are skipped, the nominal leader is returned and the set is cleared. -/
theorem leaderIn_of_skipped (htotal : 1 ≤ total) (h : ∀ p < total, p ∈ skippedLeaders) (v : View) :
    leaderIn total skippedLeaders v = (v % total, []) := by
  have hstart : v % total < total := Nat.mod_lt _ htotal
  have hnone : ((circle total (v % total)).find? fun cand => decide (cand ∉ skippedLeaders)) = none := by
    rw [find?_circle_eq_none hstart]
    intro p hp
    simpa using h p hp
  have hpos : total ≠ 0 := by omega
  simp only [leaderIn, if_neg hpos, hnone]

/-- When nobody is skipped, the nominal leader is found. -/
theorem leaderIn_nil (htotal : 1 ≤ total) (v : View) : leaderIn total [] v = (v % total, []) := by
  have hstart : v % total < total := Nat.mod_lt _ htotal
  obtain ⟨p, hfirst, hlookup⟩ := leaderIn_of_not_skipped ⟨0, htotal, List.not_mem_nil⟩ v
  -- no replica is closer to the nominal leader than itself
  have hdist : cyclicDist total (v % total) (v % total) = 0 := by
    simpa [Nat.mod_eq_of_lt hstart] using cyclicDist_add hstart htotal
  have hmin := hfirst.first _ hstart List.not_mem_nil
  have hnominal : IsFirstFrom total (v % total) (fun p => p ∉ []) (v % total) :=
    ⟨hstart, List.not_mem_nil, fun c _ _ => by omega⟩
  rw [hlookup, hfirst.unique hstart hnominal]

/-! ### Lookups in between -/

/-- A lookup leaves the skipped leaders as they are, or none when all were skipped. -/
theorem leaderIn_snd (htotal : 1 ≤ total) (skippedLeaders : List PID) (v : View) :
    (leaderIn total skippedLeaders v).2 = skippedLeaders ∨
      (∀ p < total, p ∈ skippedLeaders) ∧ (leaderIn total skippedLeaders v).2 = [] := by
  by_cases h : ∃ p < total, p ∉ skippedLeaders
  · obtain ⟨p, -, hlookup⟩ := leaderIn_of_not_skipped h v
    exact Or.inl (by rw [hlookup])
  · push Not at h
    exact Or.inr ⟨h, by rw [leaderIn_of_skipped htotal h]⟩

/-- **A lookup changes no result.** -/
theorem leaderIn_lookup (htotal : 1 ≤ total) (skippedLeaders : List PID) (w v : View) :
    (leaderIn total (leaderIn total skippedLeaders w).2 v).1 = (leaderIn total skippedLeaders v).1 := by
  rcases leaderIn_snd htotal skippedLeaders w with hsame | ⟨hall, hcleared⟩
  · rw [hsame]
  · rw [hcleared, leaderIn_nil htotal, leaderIn_of_skipped htotal hall]

theorem leaderIn_lookUps (htotal : 1 ≤ total) (skippedLeaders : List PID) (views : List View)
    (v : View) :
    (leaderIn total (lookUps total skippedLeaders views) v).1 = (leaderIn total skippedLeaders v).1 := by
  induction views generalizing skippedLeaders with
  | nil => rfl
  | cons w views ih =>
    show (leaderIn total (lookUps total (leaderIn total skippedLeaders w).2 views) v).1 = _
    rw [ih, leaderIn_lookup htotal]

theorem leaderIn_rotates (htotal : 1 ≤ total) (skippedLeaders : List PID) (v : View) :
    Rotates total skippedLeaders v where
  lt := by
    by_cases h : ∃ p < total, p ∉ skippedLeaders
    · obtain ⟨p, hfirst, hlookup⟩ := leaderIn_of_not_skipped h v
      rw [hlookup]
      exact hfirst.lt
    · push Not at h
      rw [leaderIn_of_skipped htotal h]
      exact Nat.mod_lt _ htotal
  first := by
    intro h
    obtain ⟨p, hfirst, hlookup⟩ := leaderIn_of_not_skipped h v
    rw [hlookup]
    exact ⟨hfirst, rfl⟩
  cleared := fun h => leaderIn_of_skipped htotal h v
  stable := by
    intro views
    rw [leaderIn_lookUps htotal, leaderIn_lookup htotal]

/-! ### The replicas -/

/-- A replica in rotating mode looks up leaders like this. -/
theorem HandlerConfig.leaderOf_eq_leaderIn {cfg : HandlerConfig Key}
    (hrot : cfg.fixedLeaderMode = false) (skippedLeaders : List PID) (v : View) :
    cfg.leaderOf skippedLeaders v = leaderIn cfg.total skippedLeaders v := by
  have hpos : cfg.total ≠ 0 := Nat.succ_ne_zero _
  unfold leaderOf leaderIn
  rw [if_neg (by rw [hrot]; decide), if_neg hpos]
  rfl

/-- `getLeaderOf` of every build is the lookup, which updates the skipped leaders. -/
structure LooksUp (cfg : HandlerConfig Key) (lookup : List PID → View → PID × List PID) : Prop where
  hybrid : ∀ (s : HandlerState) v, getLeaderOf cfg v s =
    .ok (lookup s.skippedLeaders v).1 { s with skippedLeaders := (lookup s.skippedLeaders v).2 }
  hotStuff : ∀ (s : HotStuff.State) v, HotStuff.getLeaderOf cfg v s = some
    (.ok (lookup s.skippedLeaders v).1, { s with skippedLeaders := (lookup s.skippedLeaders v).2 })
  chained : ∀ (s : Chained.State) v, Chained.getLeaderOf cfg v s =
    .ok (lookup s.skippedLeaders v).1 { s with skippedLeaders := (lookup s.skippedLeaders v).2 }

theorem looksUp_leaderOf (cfg : HandlerConfig Key) : LooksUp cfg cfg.leaderOf :=
  ⟨fun _ _ => rfl, fun _ _ => rfl, fun _ _ => rfl⟩

/-- **Leader lookup.**  With at least one replica, in rotating mode: for every view and all skipped
leaders, `getLeaderOf` finds the first replica that is not skipped, or clears the skipped leaders, and no
lookups in between change its result. -/
theorem getLeaderOf_rotates (htotal : 1 ≤ total) :
    (∀ skippedLeaders v, Rotates total skippedLeaders v) ∧
      ∀ cfg : HandlerConfig Key, cfg.fixedLeaderMode = false → cfg.total = total →
        LooksUp cfg (leaderIn total) := by
  constructor
  · exact leaderIn_rotates htotal
  · intro cfg hrot hcfg
    have hlookup : cfg.leaderOf = leaderIn total := by
      funext skipped v
      rw [HandlerConfig.leaderOf_eq_leaderIn hrot, hcfg]
    exact hlookup ▸ looksUp_leaderOf cfg

/-- Four replicas; indices that no replica has do not count. -/
theorem getLeaderOf_rotates_four :
    leaderIn 4 [2, 9] 6 = (3, [2, 9]) ∧ leaderIn 4 [0, 1, 2, 3, 9] 6 = (2, []) ∧
      Rotates 4 [2, 9] 6 ∧ Rotates 4 [0, 1, 2, 3, 9] 6 :=
  have h := @getLeaderOf_rotates Unit 4 (by decide)
  ⟨by decide, by decide, h.1 _ _, h.1 _ _⟩

end Raftel
