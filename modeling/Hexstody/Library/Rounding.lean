import Mathlib.Algebra.Order.Ring.Nat
import Mathlib.Data.Nat.Log
import Mathlib.Tactic.Common

/-!
# Natural numbers of a fixed precision

A natural number to `p` significant binary digits: the nearest one, the even one of two that are as near (`roundTo`). With 53 digits
this is what a natural number is as a 64-bit floating-point number. A number that has no more digits is kept (`roundTo_of_dvd`,
`roundTo_of_lt`), and no power of two is passed downwards (`two_pow_le_roundTo`).
-/

namespace Hexstody

/-- The nearest number with `p` significant binary digits, with ties to even. -/
def roundTo (p n : Nat) : Nat :=
  let ulp := 2 ^ (n.log2 + 1 - p)
  let q := n / ulp
  let r := n % ulp
  if 2 * r < ulp ∨ 2 * r = ulp ∧ q % 2 = 0 then q * ulp else (q + 1) * ulp

/-- A number whose lower digits are zero is kept. -/
theorem roundTo_of_dvd {p n : Nat} (h : 2 ^ (n.log2 + 1 - p) ∣ n) : roundTo p n = n := by
  have hpos : 0 < 2 ^ (n.log2 + 1 - p) := Nat.two_pow_pos _
  have hrest : n % 2 ^ (n.log2 + 1 - p) = 0 := Nat.mod_eq_zero_of_dvd h
  unfold roundTo
  dsimp only
  rw [hrest, if_pos (Or.inl (by omega))]
  exact Nat.div_mul_cancel h

/-- A number of at most `p` digits is kept. -/
theorem roundTo_of_lt {p n : Nat} (h : n < 2 ^ p) : roundTo p n = n := by
  refine roundTo_of_dvd ?_
  by_cases hn : n = 0
  · subst hn
    exact Nat.dvd_zero _
  · have hlt := (Nat.log2_lt hn).mpr h
    have hlog : n.log2 + 1 - p = 0 := by omega
    rw [hlog]
    exact Nat.one_dvd n

/-- A power of two that a number reaches is reached by the rounded number. -/
theorem two_pow_le_roundTo {p n k : Nat} (hp : 0 < p) (h : 2 ^ k ≤ n) : 2 ^ k ≤ roundTo p n := by
  have hn : n ≠ 0 := by
    have hpos : 0 < 2 ^ k := Nat.two_pow_pos k
    omega
  have hlog : k ≤ n.log2 := (Nat.le_log2 hn).mpr h
  have hle : 2 ^ n.log2 ≤ n := Nat.log2_self_le hn
  -- the greatest power of two is a multiple of the last place
  obtain ⟨d, hd⟩ : 2 ^ (n.log2 + 1 - p) ∣ 2 ^ n.log2 := Nat.pow_dvd_pow 2 (by omega)
  have hq : d ≤ n / 2 ^ (n.log2 + 1 - p) := by
    rw [Nat.le_div_iff_mul_le (Nat.two_pow_pos _), Nat.mul_comm, ← hd]
    exact hle
  have hround : n / 2 ^ (n.log2 + 1 - p) * 2 ^ (n.log2 + 1 - p) ≤ roundTo p n := by
    unfold roundTo
    dsimp only
    split
    · exact Nat.le_refl _
    · exact Nat.mul_le_mul_right _ (Nat.le_succ _)
  calc 2 ^ k ≤ 2 ^ n.log2 := Nat.pow_le_pow_right (by decide) hlog
    _ = d * 2 ^ (n.log2 + 1 - p) := by rw [hd, Nat.mul_comm]
    _ ≤ n / 2 ^ (n.log2 + 1 - p) * 2 ^ (n.log2 + 1 - p) := Nat.mul_le_mul_right _ hq
    _ ≤ roundTo p n := hround

end Hexstody
