import Mathlib.Data.List.Chain
import Mathlib.Data.List.Nodup

/-!
# Descents through a store

Values are stored under keys, and each value names the key of the value below it.  A `Descent` follows
these names from a key until it comes to a value at which it stops, or to the root; it does not exist when
a value is missing, or when the names lead round in a circle.

* `Descent.unique` : a key has at most one descent
* `Descent.nodup_keys` : a descent comes to each key once
* `Descent.isChain` : each value of a descent is stored under the key that the one above it names
-/

namespace Lib

variable {κ β : Type}

section Def

variable (find : κ → Option β) (next : β → κ) (stop : β → Prop) (root : κ)

/-- The values that are passed on the way down from a key, and the value at which the way ends, if that is
not the root. -/
inductive Descent : κ → List β → Option β → Prop
  | ends {k : κ} {b : β} (hfind : find k = some b) (hstop : stop b) : Descent k [] (some b)
  | bottom {b : β} (hfind : find root = some b) (hgo : ¬ stop b) : Descent root [b] none
  | down {k : κ} {b : β} {path : List β} {last : Option β} (hfind : find k = some b) (hgo : ¬ stop b)
      (hroot : k ≠ root) (h : Descent (next b) path last) : Descent k (b :: path) last

/-- The descent, computed with a bound on its length. -/
def descend [DecidableEq κ] [DecidablePred stop] : ℕ → κ → Option (List β × Option β)
  | 0, _ => none
  | fuel + 1, k =>
    match find k with
    | none => none
    | some b =>
      if stop b then some ([], some b)
      else if k = root then some ([b], none)
      else (descend fuel (next b)).map fun d => (b :: d.1, d.2)

end Def

namespace Descent

variable {find : κ → Option β} {next : β → κ} {stop : β → Prop} {root : κ}
  {k : κ} {path path' : List β} {last last' : Option β}

/-- A descent that passes a value starts where it is stored. -/
theorem find_head {b : β} (h : Descent find next stop root k (b :: path) last) : find k = some b := by
  cases h with
  | bottom hfind hgo => exact hfind
  | down hfind hgo hroot h => exact hfind

theorem not_stop {b : β} (h : Descent find next stop root k path last) (hb : b ∈ path) : ¬ stop b := by
  induction h with
  | ends hfind hstop => exact absurd hb List.not_mem_nil
  | bottom hfind hgo =>
    rw [List.mem_singleton] at hb
    exact hb ▸ hgo
  | down hfind hgo hroot h ih =>
    rcases List.mem_cons.mp hb with rfl | hb
    · exact hgo
    · exact ih hb

theorem exists_find {b : β} (h : Descent find next stop root k path last) (hb : b ∈ path) :
    ∃ k', find k' = some b := by
  induction h with
  | ends hfind hstop => exact absurd hb List.not_mem_nil
  | bottom hfind hgo =>
    rw [List.mem_singleton] at hb
    exact ⟨root, hb ▸ hfind⟩
  | down hfind hgo hroot h ih =>
    rcases List.mem_cons.mp hb with rfl | hb
    · exact ⟨_, hfind⟩
    · exact ih hb

/-- The value at which a descent stops is stored. -/
theorem stored_last {b : β} (h : Descent find next stop root k path last) (hb : b ∈ last) :
    ∃ k', find k' = some b ∧ stop b := by
  induction h with
  | ends hfind hstop =>
    cases hb
    exact ⟨_, hfind, hstop⟩
  | bottom hfind hgo => cases hb
  | down hfind hgo hroot h ih => exact ih hb

/-- A descent that does not stop at a value passes the one at the root. -/
theorem find_root (h : Descent find next stop root k path none) {b : β} (hb : b ∈ path.getLast?) :
    find root = some b := by
  generalize hlast : (none : Option β) = last at h
  induction h with
  | ends hfind hstop => cases hlast
  | bottom hfind hgo =>
    cases hb
    exact hfind
  | @down k c path last hfind hgo hroot h ih =>
    refine ih ?_ hlast
    cases path with
    | nil =>
      cases h
      cases hlast
    | cons d path => exact hb

theorem of_descend [DecidableEq κ] [DecidablePred stop] {fuel : ℕ}
    (h : descend find next stop root fuel k = some (path, last)) :
    Descent find next stop root k path last := by
  induction fuel generalizing k path last with
  | zero => cases h
  | succ fuel ih =>
    unfold descend at h
    cases hfind : find k with
    | none => simp only [hfind, reduceCtorEq] at h
    | some b =>
      simp only [hfind] at h
      split at h
      · next hstop =>
        cases h
        exact .ends hfind hstop
      · next hgo =>
        split at h
        · next hroot =>
          cases h
          subst hroot
          exact .bottom hfind hgo
        · next hroot =>
          obtain ⟨⟨rest, end'⟩, hrest, heq⟩ := Option.map_eq_some_iff.mp h
          cases heq
          exact .down hfind hgo hroot (ih hrest)

/-- **A key has at most one descent.** -/
theorem unique (h : Descent find next stop root k path last)
    (h' : Descent find next stop root k path' last') : path = path' ∧ last = last' := by
  induction h generalizing path' last' with
  | ends hfind hstop =>
    cases h' with
    | ends hfind' hstop' => exact ⟨rfl, hfind.symm.trans hfind'⟩
    | bottom hfind' hgo =>
      cases hfind.symm.trans hfind'
      exact absurd hstop hgo
    | down hfind' hgo hroot h' =>
      cases hfind.symm.trans hfind'
      exact absurd hstop hgo
  | bottom hfind hgo =>
    cases h' with
    | ends hfind' hstop =>
      cases hfind.symm.trans hfind'
      exact absurd hstop hgo
    | bottom hfind' hgo' =>
      cases hfind.symm.trans hfind'
      exact ⟨rfl, rfl⟩
    | down hfind' hgo' hroot h' => exact absurd rfl hroot
  | down hfind hgo hroot h ih =>
    cases h' with
    | ends hfind' hstop =>
      cases hfind.symm.trans hfind'
      exact absurd hstop hgo
    | bottom hfind' hgo' => exact absurd rfl hroot
    | down hfind' hgo' hroot' h' =>
      cases hfind.symm.trans hfind'
      obtain ⟨rfl, rfl⟩ := ih h'
      exact ⟨rfl, rfl⟩

/-- The rest of a descent is one. -/
theorem of_append {b : β} {above : List β}
    (h : Descent find next stop root k (above ++ b :: path) last) :
    ∃ k', find k' = some b ∧ Descent find next stop root k' (b :: path) last := by
  induction above generalizing k with
  | nil => exact ⟨k, h.find_head, h⟩
  | cons c above ih =>
    rw [List.cons_append] at h
    generalize hpath : above ++ b :: path = rest at h
    cases h with
    | bottom hfind hgo => exact absurd hpath (List.append_ne_nil_of_right_ne_nil above (List.cons_ne_nil b path))
    | down hfind hgo hroot h =>
      rw [← hpath] at h
      exact ih h

/-- **A descent comes to each key once.**  Otherwise the second way down from the key would be shorter than
the first. -/
theorem nodup_keys {key : β → κ} (hkey : ∀ k b, find k = some b → key b = k)
    (h : Descent find next stop root k path last) : (path.map key).Nodup := by
  induction h with
  | ends hfind hstop => exact List.nodup_nil
  | bottom hfind hgo => exact List.nodup_singleton _
  | @down k b path last hfind hgo hroot h ih =>
    rw [List.map_cons, List.nodup_cons]
    refine ⟨fun hmem => ?_, ih⟩
    obtain ⟨b', hb', hkeys⟩ := List.mem_map.mp hmem
    obtain ⟨above, rest, hpath⟩ := List.append_of_mem hb'
    rw [hpath] at h
    obtain ⟨k', hfind', hagain⟩ := h.of_append
    have hk : k' = k := by rw [← hkey k' b' hfind', hkeys, hkey k b hfind]
    rw [hk] at hagain
    have hlength := congrArg List.length ((Descent.down hfind hgo hroot h).unique hagain).1
    simp only [List.length_cons, List.length_append] at hlength
    omega

/-- **Each value is stored under the key that the one above it names.** -/
theorem isChain {top : β} (h : Descent find next stop root (next top) path last) :
    (top :: (path ++ last.toList)).IsChain fun above b => find (next above) = some b := by
  induction path generalizing top with
  | nil =>
    cases h with
    | ends hfind hstop => exact List.isChain_pair.mpr hfind
  | cons b path ih =>
    refine List.isChain_cons_cons.mpr ⟨h.find_head, ?_⟩
    cases h with
    | bottom hfind hgo => exact List.isChain_singleton b
    | down hfind hgo hroot h => exact ih h

end Descent

end Lib
