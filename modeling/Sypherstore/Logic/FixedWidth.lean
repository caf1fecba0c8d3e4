/-
# Numbers of a fixed width

Decimal texts with leading zeros. Texts of one width are ordered as their numbers are, and
two of them side by side are again one.
-/

import Mathlib.Data.String.Basic
import Sypherstore.Logic.Digits

namespace Sypherstore.Logic

/-! ## Lexicographic order -/

/-- Lists that agree in length up to a point are compared there first. -/
theorem append_lt_append_iff {α : Type} [LinearOrder α] {front front' back back' : List α}
    (h : front.length = front'.length) :
    front ++ back < front' ++ back' ↔ front < front' ∨ front = front' ∧ back < back' := by
  induction front generalizing front' with
  | nil =>
      obtain rfl := List.length_eq_zero_iff.mp h.symm
      simp
  | cons a front ih =>
      cases front' with
      | nil => cases h
      | cons a' front' =>
          have hlength : front.length = front'.length := Nat.succ.inj h
          simp only [List.cons_append, List.cons_lt_cons_iff, ih hlength, List.cons.injEq]
          tauto

/-! ## Decimal texts -/

open Digits

/-- The last digits of a number. -/
def fixedWidth (w n : ℕ) : List Char := (toDigits 10 w n).map Nat.digitChar

variable {v w m n : ℕ}

@[simp] theorem length_fixedWidth (w n : ℕ) : (fixedWidth w n).length = w := by
  simp [fixedWidth]

theorem fixedWidth_succ (w n : ℕ) :
    fixedWidth (w + 1) n = fixedWidth w (n / 10) ++ [Nat.digitChar (n % 10)] := by
  rw [fixedWidth, toDigits_succ, List.map_append]
  rfl

theorem fixedWidth_zero (w : ℕ) : fixedWidth w 0 = List.replicate w '0' := by
  have hzeros : toDigits 10 w 0 = List.replicate w 0 :=
    (toDigits_eq_replicate_iff (by decide)).mpr (Nat.zero_mod _)
  rw [fixedWidth, hzeros, List.map_replicate]
  rfl

/-- Two numbers side by side. -/
theorem fixedWidth_append (hn : n < 10 ^ w) :
    fixedWidth v m ++ fixedWidth w n = fixedWidth (v + w) (m * 10 ^ w + n) := by
  have hhigh : (m * 10 ^ w + n) / 10 ^ w = m := by
    rw [Nat.mul_comm, Nat.mul_add_div (Nat.pow_pos (by decide)), Nat.div_eq_of_lt hn, Nat.add_zero]
  have hlow : toDigits 10 w (m * 10 ^ w + n) = toDigits 10 w n := by
    have hmod : ofDigits 10 (toDigits 10 w n) = ofDigits 10 (toDigits 10 w (m * 10 ^ w + n)) := by
      rw [ofDigits_toDigits, ofDigits_toDigits, Nat.mul_add_mod_self_right]
    have hback := fun value => toDigits_ofDigits (by decide : 1 < 10)
      (length_toDigits 10 w value) fun d hd => lt_of_mem_toDigits (by decide) hd
    rw [← hback n, hmod, hback]
  rw [fixedWidth, fixedWidth, fixedWidth, toDigits_add, hhigh, hlow, List.map_append]

/-- **Texts of one width are ordered as their numbers.** -/
theorem fixedWidth_lt_iff (hm : m < 10 ^ w) (hn : n < 10 ^ w) :
    fixedWidth w m < fixedWidth w n ↔ m < n := by
  have hdigit : ∀ d < 10, ∀ d' < 10, ([Nat.digitChar d] < [Nat.digitChar d'] ↔ d < d') := by decide
  induction w generalizing m n with
  | zero =>
      rw [Nat.pow_zero] at hm hn
      have hnone : ∀ k, fixedWidth 0 k = [] := fun _ => rfl
      rw [hnone, hnone]
      exact iff_of_false (lt_irrefl _) (by omega)
  | succ w ih =>
      rw [Nat.pow_succ] at hm hn
      have hmfront : m / 10 < 10 ^ w := by omega
      have hnfront : n / 10 < 10 ^ w := by omega
      have hsame : fixedWidth w (m / 10) = fixedWidth w (n / 10) ↔ m / 10 = n / 10 := by
        refine ⟨fun h => ?_, fun h => by rw [h]⟩
        have hle := mt (ih hmfront hnfront).mpr (by rw [h]; exact lt_irrefl _)
        have hge := mt (ih hnfront hmfront).mpr (by rw [h]; exact lt_irrefl _)
        omega
      have hless : fixedWidth w (m / 10) < fixedWidth w (n / 10) ↔ m / 10 < n / 10 :=
        ih hmfront hnfront
      rw [fixedWidth_succ, fixedWidth_succ, append_lt_append_iff (by simp), hless, hsame,
        hdigit _ (Nat.mod_lt _ (by decide)) _ (Nat.mod_lt _ (by decide))]
      omega

theorem fixedWidth_inj (hm : m < 10 ^ w) (hn : n < 10 ^ w) :
    fixedWidth w m = fixedWidth w n ↔ m = n := by
  refine ⟨fun h => ?_, fun h => by rw [h]⟩
  have hle := mt (fixedWidth_lt_iff hm hn).mpr (by rw [h]; exact lt_irrefl _)
  have hge := mt (fixedWidth_lt_iff hn hm).mpr (by rw [h]; exact lt_irrefl _)
  omega

/-- Leading zeros fill a number up to the width. -/
theorem replicate_append_toDigits (hw : 0 < w) (hn : n < 10 ^ w) :
    List.replicate (w - (Nat.toDigits 10 n).length) '0' ++ Nat.toDigits 10 n = fixedWidth w n := by
  induction w, hw using Nat.le_induction generalizing n with
  | base =>
      rw [Nat.toDigits_of_lt_base (by omega), fixedWidth_succ, Nat.mod_eq_of_lt (by omega)]
      rfl
  | succ w hw ih =>
      rw [fixedWidth_succ]
      by_cases hsmall : n < 10
      · rw [Nat.toDigits_of_lt_base hsmall, Nat.div_eq_of_lt hsmall, Nat.mod_eq_of_lt hsmall,
          fixedWidth_zero]
        rfl
      · rw [Nat.pow_succ] at hn
        rw [Nat.toDigits_of_base_le (by decide) (by omega), ← ih (by omega), List.length_append,
          List.length_singleton, Nat.add_sub_add_right, List.append_assoc]

end Sypherstore.Logic
