/-
# Sorted lists

Two facts about lists that are sorted by a key: permuting what is sorted moves only elements
with one key, and where a list goes from its greatest element down, its first few elements
are the ones with few elements above them.
-/

import Mathlib.Data.List.Sort

namespace Sypherstore.Logic

variable {α β : Type}

/-- **Sorting decides the keys.** Lists of the same elements that are sorted by a key have the
same keys at the same places. -/
theorem map_eq_of_perm_of_sorted [LinearOrder β] {key : α → β} {xs ys : List α}
    (hperm : xs.Perm ys) (hxs : xs.Pairwise fun a b => key a ≤ key b)
    (hys : ys.Pairwise fun a b => key a ≤ key b) : xs.map key = ys.map key := by
  refine (hperm.map key).eq_of_pairwise (fun _ _ _ _ hle hge => le_antisymm hle hge) ?_ ?_
  · exact List.pairwise_map.mpr hxs
  · exact List.pairwise_map.mpr hys

/-! ## The greatest elements -/

/-- How many elements are above this one. -/
def above [LT β] [DecidableLT β] (xs : List β) (x : β) : ℕ := xs.countP fun y => x < y

variable [LinearOrder β] {xs ys : List β} {x : β} {k : ℕ}

theorem above_of_perm (h : xs.Perm ys) (x : β) : above xs x = above ys x := h.countP_eq _

/-- **The first elements are those with few above them.** -/
theorem mem_take_iff_above_lt (hxs : xs.Pairwise (· > ·)) (hx : x ∈ xs) :
    x ∈ xs.take k ↔ above xs x < k := by
  induction xs generalizing k with
  | nil => cases hx
  | cons first rest ih =>
      obtain ⟨hfirst, hrest⟩ := List.pairwise_cons.mp hxs
      cases k with
      | zero => simp
      | succ k =>
          rw [List.take_succ_cons, above, List.countP_cons]
          rcases List.mem_cons.mp hx with rfl | hx
          · -- nothing is above the first element
            have hnone : above rest x = 0 := by
              rw [above, List.countP_eq_zero]
              intro y hy
              simpa using (hfirst y hy).le
            rw [above] at hnone
            simp [hnone]
          · have hlt : x < first := hfirst x hx
            have hne : x ≠ first := hlt.ne
            rw [List.mem_cons, or_iff_right hne, ih hrest hx, above]
            simp [hlt]

theorem mem_drop_iff_le_above (hxs : xs.Pairwise (· > ·)) (hx : x ∈ xs) :
    x ∈ xs.drop k ↔ k ≤ above xs x := by
  have hnodup : xs.Nodup := hxs.imp fun h => h.ne'
  rw [← Nat.not_lt, ← mem_take_iff_above_lt hxs hx]
  have hsplit := List.take_append_drop k xs
  have hdisjoint := List.disjoint_of_nodup_append (hsplit ▸ hnodup)
  constructor
  · exact fun hdrop htake => hdisjoint htake hdrop
  · intro htake
    rw [← hsplit, List.mem_append] at hx
    exact hx.resolve_left htake

end Sypherstore.Logic
