/-
# Lists of things with a key

A list from which things are found, picked and taken out by a key. Where no two of them share
a key, the key of a thing stands for it.
-/

import Mathlib.Data.List.Nodup

namespace Sypherstore.Logic

variable {α κ : Type} {xs : List α} {x : α}

/-- A list of different elements filtered down to one of them. -/
theorem filter_eq_singleton_iff (hxs : xs.Nodup) {keep : α → Bool} :
    xs.filter keep = [x] ↔ x ∈ xs ∧ keep x = true ∧ ∀ y ∈ xs, keep y = true → y = x := by
  constructor
  · intro h
    have hmem : ∀ y, y ∈ xs ∧ keep y = true ↔ y = x := by
      intro y
      rw [← List.mem_filter, h, List.mem_singleton]
    obtain ⟨hx, hkeep⟩ := (hmem x).mpr rfl
    exact ⟨hx, hkeep, fun y hy hkept => (hmem y).mp ⟨hy, hkept⟩⟩
  · rintro ⟨hx, hkeep, honly⟩
    have hall : xs.filter keep = List.replicate (xs.filter keep).length x :=
      List.eq_replicate_of_mem fun y hy =>
        honly y (List.mem_filter.mp hy).1 (List.mem_filter.mp hy).2
    have hone : (xs.filter keep).length ≤ 1 := by
      rw [← List.nodup_replicate, ← hall]
      exact hxs.filter keep
    have hpos := List.length_pos_of_mem (List.mem_filter.mpr ⟨hx, hkeep⟩)
    rw [hall, show (xs.filter keep).length = 1 by omega]
    rfl

variable [DecidableEq κ] {key : α → κ} {k : κ}

theorem mem_of_find_key (h : xs.find? (fun y => key y = k) = some x) : x ∈ xs ∧ key x = k :=
  ⟨List.mem_of_find?_eq_some h, by simpa using List.find?_some h⟩

/-- Looking for a key that is there finds something. -/
theorem exists_find_key (hx : x ∈ xs) (hkey : key x = k) :
    ∃ y, xs.find? (fun y => key y = k) = some y ∧ y ∈ xs ∧ key y = k := by
  have hsome : (xs.find? fun y => key y = k).isSome :=
    List.find?_isSome.mpr ⟨x, hx, by simpa using hkey⟩
  obtain ⟨y, hy⟩ := Option.isSome_iff_exists.mp hsome
  exact ⟨y, hy, mem_of_find_key hy⟩

/-- **Where no two share a key, the key finds its own.** -/
theorem find_key_eq_some_iff (hkeys : (xs.map key).Nodup) :
    xs.find? (fun y => key y = k) = some x ↔ x ∈ xs ∧ key x = k := by
  constructor
  · exact mem_of_find_key
  · rintro ⟨hx, hkey⟩
    obtain ⟨y, hfind, hy, hkey'⟩ := exists_find_key hx hkey
    rw [hfind, List.inj_on_of_nodup_map hkeys hy hx (hkey'.trans hkey.symm)]

/-- **Taking out by its key takes out one thing only.** -/
theorem filter_key_ne_middle {early late : List α}
    (hkeys : ((early ++ x :: late).map key).Nodup) :
    (early ++ x :: late).filter (fun y => key y ≠ key x) = early ++ late := by
  have hfresh : key x ∉ (early ++ late).map key := by
    have hperm : ((early ++ x :: late).map key).Perm ((x :: (early ++ late)).map key) :=
      List.perm_middle.map key
    exact (List.nodup_cons.mp (hperm.nodup_iff.mp hkeys)).1
  have hkeep : (early ++ late).filter (fun y => key y ≠ key x) = early ++ late := by
    refine List.filter_eq_self.mpr fun y hy => decide_eq_true fun hsame => hfresh ?_
    rw [← hsame]
    exact List.mem_map_of_mem hy
  rw [List.filter_append, List.filter_cons_of_neg (by simp), ← List.filter_append, hkeep]

end Sypherstore.Logic
