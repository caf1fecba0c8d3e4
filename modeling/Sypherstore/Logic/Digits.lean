/-
# Digits of a fixed number

A number below a power of the base is the same thing as a list of digits of fixed length,
the most significant one first. Packing bytes into characters and back is a change of base
between two such lists.
-/

import Mathlib.Data.Nat.Digits.Defs
import Mathlib.Data.Nat.Digits.Lemmas

namespace Sypherstore.Logic.Digits

variable {b n value : ℕ} {ds : List ℕ}

/-- The number that the digits denote. -/
def ofDigits (b : ℕ) (ds : List ℕ) : ℕ := ds.foldl (fun value d => value * b + d) 0

/-- The last `n` digits of a number. -/
def toDigits (b n value : ℕ) : List ℕ :=
  (List.range n).map fun i => value / b ^ (n - 1 - i) % b

theorem ofDigits_eq (b : ℕ) (ds : List ℕ) : ofDigits b ds = Nat.ofDigits b ds.reverse := by
  rw [Nat.ofDigits_eq_foldr, List.foldr_reverse, ofDigits]
  simp only [Nat.cast_id, Nat.add_comm, Nat.mul_comm]

theorem ofDigits_append (b : ℕ) (front back : List ℕ) :
    ofDigits b (front ++ back) = ofDigits b front * b ^ back.length + ofDigits b back := by
  simp only [ofDigits_eq, List.reverse_append, Nat.ofDigits_append, List.length_reverse]
  rw [Nat.add_comm, Nat.mul_comm]

theorem ofDigits_append_singleton (b : ℕ) (ds : List ℕ) (d : ℕ) :
    ofDigits b (ds ++ [d]) = ofDigits b ds * b + d := by
  simp [ofDigits]

theorem ofDigits_lt (hb : 1 < b) (h : ∀ d ∈ ds, d < b) : ofDigits b ds < b ^ ds.length := by
  rw [ofDigits_eq, ← List.length_reverse]
  exact Nat.ofDigits_lt_base_pow_length hb fun d hd => h d (List.mem_reverse.mp hd)

@[simp] theorem length_toDigits (b n value : ℕ) : (toDigits b n value).length = n := by
  simp [toDigits]

theorem lt_of_mem_toDigits (hb : 0 < b) {d : ℕ} (h : d ∈ toDigits b n value) : d < b := by
  obtain ⟨i, _, rfl⟩ := List.mem_map.mp h
  exact Nat.mod_lt _ hb

/-- One more digit is one more step of the division. -/
theorem toDigits_succ (b n value : ℕ) :
    toDigits b (n + 1) value = toDigits b n (value / b) ++ [value % b] := by
  have hfront : (List.range n).map (fun i => value / b ^ (n + 1 - 1 - i) % b) =
      toDigits b n (value / b) := by
    apply List.map_congr_left
    intro i hi
    have hi := List.mem_range.mp hi
    obtain ⟨k, hk⟩ : ∃ k, n - i = k + 1 := ⟨n - i - 1, by omega⟩
    rw [show n + 1 - 1 - i = k + 1 by omega, show n - 1 - i = k by omega, Nat.pow_succ',
      Nat.div_div_eq_div_mul]
  rw [← hfront, toDigits, List.range_succ, List.map_append]
  simp

/-- The digits in front are those of what is above the others. -/
theorem toDigits_add (b m n value : ℕ) :
    toDigits b (m + n) value = toDigits b m (value / b ^ n) ++ toDigits b n value := by
  induction n generalizing value with
  | zero => simp [toDigits]
  | succ n ih =>
      rw [← Nat.add_assoc, toDigits_succ, toDigits_succ, ih, Nat.div_div_eq_div_mul,
        Nat.pow_succ', List.append_assoc]

/-- The last `n` digits lose what is above them. -/
theorem ofDigits_toDigits (b n value : ℕ) :
    ofDigits b (toDigits b n value) = value % b ^ n := by
  induction n generalizing value with
  | zero => simp [toDigits, ofDigits, Nat.mod_one]
  | succ n ih =>
      rw [toDigits_succ, ofDigits_append_singleton, ih, Nat.pow_succ', Nat.mod_mul,
        Nat.mul_comm, Nat.add_comm]

/-- All of the last digits are zero exactly when the power of the base divides the number. -/
theorem toDigits_eq_replicate_iff (hb : 0 < b) :
    toDigits b n value = List.replicate n 0 ↔ value % b ^ n = 0 := by
  induction n generalizing value with
  | zero => simp [toDigits, Nat.mod_one]
  | succ n ih =>
      have hsplit : toDigits b n (value / b) ++ [value % b] = List.replicate n 0 ++ [0] ↔
          toDigits b n (value / b) = List.replicate n 0 ∧ value % b = 0 := by
        constructor
        · intro h
          obtain ⟨hfront, hlast⟩ := List.append_inj h (by simp)
          exact ⟨hfront, List.singleton_inj.mp hlast⟩
        · rintro ⟨hfront, hlast⟩
          rw [hfront, hlast]
      rw [toDigits_succ, List.replicate_succ', hsplit, ih, Nat.pow_succ', Nat.mod_mul,
        Nat.add_eq_zero_iff, Nat.mul_eq_zero, or_iff_right hb.ne', and_comm]

/-- A list of digits is determined by its length and the number it denotes. -/
theorem toDigits_ofDigits (hb : 1 < b) (hlength : ds.length = n) (h : ∀ d ∈ ds, d < b) :
    toDigits b n (ofDigits b ds) = ds := by
  have hlt := ofDigits_lt hb h
  have hsame : ofDigits b (toDigits b n (ofDigits b ds)) = ofDigits b ds := by
    rw [ofDigits_toDigits, ← hlength, Nat.mod_eq_of_lt hlt]
  rw [ofDigits_eq _ (toDigits _ _ _), ofDigits_eq b ds] at hsame
  rw [ofDigits_eq]
  apply List.reverse_injective
  refine Nat.ofDigits_inj_of_len_eq hb (by simp [hlength]) ?_ ?_ hsame
  · intro d hd
    exact lt_of_mem_toDigits (by omega) (List.mem_reverse.mp hd)
  · intro d hd
    exact h d (List.mem_reverse.mp hd)

end Sypherstore.Logic.Digits
