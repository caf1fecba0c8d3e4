/-
# Tables

A table whose primary key is a text, kept as an extensional tree map: two tables with the
same rows are one table, whatever their history. The lemmas state what a statement changes
by the equality of keys.
-/

import Mathlib.Data.List.Nodup

namespace Sypherstore.Logic

/-- The rows by their primary key. They have no order of their own. -/
abbrev Table (β : Type) : Type := Std.ExtTreeMap String β

namespace Table

variable {β : Type} {table : Table β} {key key' : String}

theorem getElem?_insert {row : β} :
    (table.insert key row)[key']? = if key = key' then some row else table[key']? := by
  rw [Std.ExtTreeMap.getElem?_insert]
  exact if_congr Std.compare_eq_iff_eq rfl rfl

theorem getElem?_insert_of_ne {row : β} (h : key' ≠ key) :
    (table.insert key row)[key']? = table[key']? := by
  rw [getElem?_insert, if_neg h.symm]

theorem getElem?_erase_of_ne (h : key' ≠ key) : (table.erase key)[key']? = table[key']? := by
  rw [Std.ExtTreeMap.getElem?_erase, if_neg]
  exact fun hkey => h (Std.compare_eq_iff_eq.mp hkey).symm

theorem mem_insert {row : β} : key' ∈ table.insert key row ↔ key' = key ∨ key' ∈ table := by
  rw [Std.ExtTreeMap.mem_insert, Std.compare_eq_iff_eq, eq_comm]

theorem mem_erase : key' ∈ table.erase key ↔ key' ≠ key ∧ key' ∈ table := by
  rw [Std.ExtTreeMap.mem_erase, Ne, Std.compare_eq_iff_eq, eq_comm]

theorem toList_insert_empty (key : String) (row : β) :
    ((∅ : Table β).insert key row).toList = [(key, row)] := rfl

/-- Looking a key up is finding its row in a scan. -/
theorem getElem?_eq_find (table : Table β) (key : String) :
    table[key]? = (table.toList.find? fun entry => entry.1 = key).map Prod.snd := by
  cases hfind : table.toList.find? fun entry => entry.1 = key with
  | none =>
      have habsent : key ∉ table := by
        intro hmem
        obtain ⟨row, hrow⟩ :=
          Option.isSome_iff_exists.mp (Std.ExtTreeMap.isSome_getElem?_iff_mem.mpr hmem)
        have hentry := Std.ExtTreeMap.mem_toList_iff_getElem?_eq_some.mpr hrow
        simpa using List.find?_eq_none.mp hfind _ hentry
      exact Std.ExtTreeMap.getElem?_eq_none habsent
  | some entry =>
      obtain rfl : entry.1 = key := by simpa using List.find?_some hfind
      exact Std.ExtTreeMap.mem_toList_iff_getElem?_eq_some.mp (List.mem_of_find?_eq_some hfind)

/-- Erasing a key leaves the other rows. -/
theorem toList_erase (table : Table β) (key : String) :
    (table.erase key).toList = table.toList.filter (·.1 ≠ key) := by
  have hordered : ∀ table : Table β, table.toList.Pairwise fun a b => compare a.1 b.1 = .lt :=
    fun table => table.ordered_keys_toList
  refine List.Perm.eq_of_pairwise ?_ (hordered _) ((hordered table).filter _) ?_
  · intro a b _ _ hab hba
    exact absurd (Std.OrientedCmp.gt_of_lt hab) (by rw [hba]; decide)
  · have hnodup : ∀ table : Table β, table.toList.Nodup := by
      intro table
      refine List.Nodup.of_map Prod.fst ?_
      rw [Std.ExtTreeMap.map_fst_toList_eq_keys]
      exact Std.ExtTreeMap.nodup_keys
    refine (List.perm_ext_iff_of_nodup (hnodup _) ((hnodup table).filter _)).mpr fun entry => ?_
    rw [List.mem_filter, Std.ExtTreeMap.mem_toList_iff_getElem?_eq_some,
      Std.ExtTreeMap.mem_toList_iff_getElem?_eq_some]
    by_cases hkey : entry.1 = key
    · simp [hkey]
    · simp [hkey, getElem?_erase_of_ne hkey]

/-- A table is what its scan lists. -/
theorem ofList_toList (table : Table β) : Std.ExtTreeMap.ofList table.toList = table := by
  refine Std.ExtTreeMap.ext_getElem? fun key => ?_
  cases hrow : table[key]? with
  | some row =>
      exact Std.ExtTreeMap.getElem?_ofList_of_mem Std.ReflCmp.compare_self
        table.distinct_keys_toList (Std.ExtTreeMap.mem_toList_iff_getElem?_eq_some.mpr hrow)
  | none =>
      refine Std.ExtTreeMap.getElem?_eq_none fun hmem => ?_
      have hkept : key ∈ table := by simpa using Std.ExtTreeMap.mem_ofList.mp hmem
      rw [Std.ExtTreeMap.mem_iff_isSome_getElem?, hrow] at hkept
      cases hkept

end Table

end Sypherstore.Logic
