import Mathlib.Algebra.Order.Ring.Nat
import Mathlib.Data.List.Induction
import Mathlib.Tactic.Common

/-!
# Numbers with a fixed number of digits

A number in any base with a fixed number of digits, the highest first (`digitsBE`), and the number that digits stand for (`ofBE`).
They are inverse on numbers that fit (`ofBE_digitsBE`) and on digits that are smaller than the base (`digitsBE_ofBE`); the digits
in a power of a base are groups of digits in the base (`digitsBE_pow`). The usual digits of a number, with zeros before them, are of
this form (`padded_toDigits`).
-/

namespace Hexstody

/-- The last `k` digits of a number in a base, the highest first. -/
def digitsBE (b : Nat) : Nat → Nat → List Nat
  | 0, _ => []
  | k + 1, n => digitsBE b k (n / b) ++ [n % b]

/-- The number that some digits in a base stand for. -/
def ofBE (b : Nat) (ds : List Nat) : Nat := ds.foldl (fun n d => n * b + d) 0

variable {b k n : Nat} {ds : List Nat}

theorem ofBE_concat (b : Nat) (ds : List Nat) (d : Nat) : ofBE b (ds ++ [d]) = ofBE b ds * b + d := by
  rw [ofBE, List.foldl_append]
  rfl

theorem length_digitsBE (b k n : Nat) : (digitsBE b k n).length = k := by
  induction k generalizing n with
  | zero => rfl
  | succ k ih => rw [digitsBE, List.length_append, ih, List.length_singleton]

theorem digitsBE_lt (hb : 0 < b) : ∀ d ∈ digitsBE b k n, d < b := by
  induction k generalizing n with
  | zero => simp [digitsBE]
  | succ k ih =>
    intro d hd
    rcases List.mem_append.mp hd with hd | hd
    · exact ih d hd
    · rw [List.mem_singleton.mp hd]
      exact Nat.mod_lt n hb

/-- The digits of a number stand for it, if it fits. -/
theorem ofBE_digitsBE (b k n : Nat) : ofBE b (digitsBE b k n) = n % b ^ k := by
  induction k generalizing n with
  | zero => rw [Nat.pow_zero, Nat.mod_one]; rfl
  | succ k ih => rw [digitsBE, ofBE_concat, ih, Nat.pow_succ, Nat.mul_comm (b ^ k) b, Nat.mod_mul, Nat.mul_comm, Nat.add_comm]

/-- Digits that are smaller than the base are those of the number that they stand for. -/
theorem digitsBE_ofBE (h : ∀ d ∈ ds, d < b) : digitsBE b ds.length (ofBE b ds) = ds := by
  induction ds using List.reverseRecOn with
  | nil => rfl
  | append_singleton ds d ih =>
    have hd : d < b := h d (by simp)
    have hdiv : (ofBE b ds * b + d) / b = ofBE b ds := by
      rw [Nat.mul_comm, Nat.mul_add_div (by omega), Nat.div_eq_of_lt hd, Nat.add_zero]
    have hmod : (ofBE b ds * b + d) % b = d := by
      rw [Nat.mul_comm, Nat.mul_add_mod, Nat.mod_eq_of_lt hd]
    rw [ofBE_concat, List.length_append, List.length_singleton, digitsBE, hdiv, hmod,
      ih (fun d' hd' => h d' (List.mem_append_left _ hd'))]

theorem ofBE_lt (h : ∀ d ∈ ds, d < b) : ofBE b ds < b ^ ds.length := by
  by_cases hb : 0 < b
  · rw [← digitsBE_ofBE h, ofBE_digitsBE, length_digitsBE]
    exact Nat.mod_lt _ (Nat.pow_pos hb)
  · cases ds with
    | nil => exact Nat.one_pos
    | cons d ds => exact absurd (h d (by simp)) (by omega)

/-- A number that fits is known from its digits. -/
theorem digitsBE_inj {m : Nat} (hm : m < b ^ k) (hn : n < b ^ k) (h : digitsBE b k m = digitsBE b k n) : m = n := by
  rw [← Nat.mod_eq_of_lt hm, ← Nat.mod_eq_of_lt hn, ← ofBE_digitsBE, ← ofBE_digitsBE, h]

/-- The digits before the last ones, and the last ones. -/
theorem digitsBE_add (b u w n : Nat) : digitsBE b (u + w) n = digitsBE b u (n / b ^ w) ++ digitsBE b w n := by
  induction w generalizing n with
  | zero => rw [Nat.pow_zero, Nat.div_one, digitsBE, List.append_nil]; rfl
  | succ w ih => rw [← Nat.add_assoc, digitsBE, ih, Nat.div_div_eq_div_mul, ← Nat.pow_succ', digitsBE, List.append_assoc]

/-- The last digits are not changed by what is before them. -/
theorem digitsBE_mod (b w n : Nat) : digitsBE b w (n % b ^ w) = digitsBE b w n := by
  induction w generalizing n with
  | zero => rfl
  | succ w ih =>
    have hdiv : n % b ^ (w + 1) / b = n / b % b ^ w := by rw [Nat.pow_succ', Nat.mod_mul_right_div_self]
    have hmod : n % b ^ (w + 1) % b = n % b := Nat.mod_mod_of_dvd n (Nat.dvd_of_pow_dvd (by omega) (Nat.dvd_refl _))
    rw [digitsBE, digitsBE, hdiv, hmod, ih]

/-- The digits in a power of a base, each written in the base, are the digits in the base. -/
theorem digitsBE_pow (b w k n : Nat) : (digitsBE (b ^ w) k n).flatMap (digitsBE b w) = digitsBE b (w * k) n := by
  induction k generalizing n with
  | zero => rfl
  | succ k ih =>
    rw [digitsBE, List.flatMap_append, ih, Nat.mul_succ, digitsBE_add, List.flatMap_cons, List.flatMap_nil, List.append_nil,
      digitsBE_mod]

theorem digitsBE_zero (b k : Nat) : digitsBE b k 0 = List.replicate k 0 := by
  induction k with
  | zero => rfl
  | succ k ih => rw [digitsBE, Nat.zero_div, Nat.zero_mod, ih, List.replicate_succ']

/-- The digits of a number with zeros before them. -/
theorem padded_toDigits (hb : 1 < b) (hk : 0 < k) (hn : n < b ^ k) :
    List.replicate (k - (Nat.toDigits b n).length) '0' ++ Nat.toDigits b n = (digitsBE b k n).map Nat.digitChar := by
  induction k generalizing n with
  | zero => cases hk
  | succ k ih =>
    by_cases hlt : n < b
    · rw [Nat.toDigits_of_lt_base hlt, digitsBE, Nat.div_eq_of_lt hlt, Nat.mod_eq_of_lt hlt, digitsBE_zero, List.map_append,
        List.map_replicate]
      rfl
    · have hpos : 0 < k := by
        rcases k with _ | k
        · rw [Nat.zero_add, Nat.pow_one] at hn
          omega
        · exact Nat.succ_pos k
      have hdiv : n / b < b ^ k := by
        rw [Nat.div_lt_iff_lt_mul (by omega), ← Nat.pow_succ]
        exact hn
      rw [Nat.toDigits_of_base_le hb (Nat.le_of_not_lt hlt), List.length_append, List.length_singleton, Nat.add_sub_add_right,
        ← List.append_assoc, ih hpos hdiv, digitsBE, List.map_append]
      rfl

end Hexstody
