import Hexstody.Library.AssocMap
import Mathlib.Data.Int.ModEq
import Mathlib.Data.UInt

/-!
# 64-bit sums and exact sums

A sum that is computed in 64-bit arithmetic agrees with the sum of the exact integers up to a multiple of 2^64 (`Wrapped`), and
so does whatever is computed from such sums by additions, subtractions and casts between signed and unsigned. A signed result
that agrees with an exact value that is not negative is at most that value (`Wrapped.le_of_nonneg`).
-/

namespace Wrapping

/-- The number of 64-bit values. -/
def modulus : Int := 18446744073709551616

/-- Two integers that agree up to a multiple of 2^64. -/
def Wrapped (exact wrapped : Int) : Prop := exact ≡ wrapped [ZMOD modulus]

theorem wrapped_iff {a b : Int} : Wrapped a b ↔ (18446744073709551616 : Int) ∣ b - a := Int.modEq_iff_dvd

theorem Wrapped.refl (a : Int) : Wrapped a a := Int.ModEq.refl a

theorem Wrapped.add {a b c d : Int} (h : Wrapped a b) (h' : Wrapped c d) : Wrapped (a + c) (b + d) := Int.ModEq.add h h'

theorem Wrapped.sub {a b c d : Int} (h : Wrapped a b) (h' : Wrapped c d) : Wrapped (a - c) (b - d) := Int.ModEq.sub h h'

theorem Wrapped.trans {a b c : Int} (h : Wrapped a b) (h' : Wrapped b c) : Wrapped a c := Int.ModEq.trans h h'

/-! ## One operation -/

theorem wrapped_add (a b : UInt64) : Wrapped ((a.toNat : Int) + b.toNat) (a + b).toNat := by
  rw [wrapped_iff, UInt64.toNat_add]
  omega

theorem wrapped_add_signed (a b : Int64) : Wrapped (a.toInt + b.toInt) (a + b).toInt := by
  rw [wrapped_iff, Int64.toInt_add, Int.bmod_def]
  omega

theorem wrapped_sub_signed (a b : Int64) : Wrapped (a.toInt - b.toInt) (a - b).toInt := by
  rw [wrapped_iff, Int64.toInt_sub, Int.bmod_def]
  omega

theorem wrapped_toInt64 (a : UInt64) : Wrapped a.toNat a.toInt64.toInt := by
  have h : a.toInt64.toInt = (a.toNat : Int).bmod (2 ^ 64) := BitVec.toInt_eq_toNat_bmod _
  rw [wrapped_iff, h, Int.bmod_def]
  omega

/-! ## Sums -/

variable {α κ ν : Type}

theorem wrapped_sum {l : List α} {exact : α → Int} {g : α → UInt64} (h : ∀ a, Wrapped (exact a) (g a).toNat) :
    Wrapped (l.map exact).sum (l.map g).sum.toNat := by
  induction l with
  | nil => exact .refl 0
  | cons a l ih =>
    simp only [List.map_cons, List.sum_cons]
    exact ((h a).add ih).trans (wrapped_add _ _)

theorem wrapped_sum_signed {l : List α} {exact : α → Int} {g : α → Int64} (h : ∀ a, Wrapped (exact a) (g a).toInt) :
    Wrapped (l.map exact).sum (l.map g).sum.toInt := by
  induction l with
  | nil => exact .refl 0
  | cons a l ih =>
    simp only [List.map_cons, List.sum_cons]
    exact ((h a).add ih).trans (wrapped_add_signed _ _)

theorem wrapped_sumVals {m : AssocMap κ ν} {exact : ν → Int} {g : ν → UInt64} (h : ∀ v, Wrapped (exact v) (g v).toNat) :
    Wrapped (m.sumVals exact) (m.sumVals g).toNat := wrapped_sum h

/-! ## Bounds -/

/-- A signed value that agrees with an exact one that is not negative is at most that. -/
theorem Wrapped.le_of_nonneg {exact : Int} {x : Int64} (h : Wrapped exact x.toInt) (h0 : 0 ≤ exact) : x.toInt ≤ exact := by
  have hlt := x.toInt_lt
  rw [wrapped_iff] at h
  omega

/-- The exact values that a signed 64-bit value can have. -/
def Fits (n : Int) : Prop := -9223372036854775808 ≤ n ∧ n < 9223372036854775808

instance (n : Int) : Decidable (Fits n) := inferInstanceAs (Decidable (_ ∧ _))

theorem fits_toInt (x : Int64) : Fits x.toInt := ⟨x.le_toInt, x.toInt_lt⟩

/-- A signed value that agrees with an exact one is that value just when it fits. -/
theorem Wrapped.eq_iff {exact : Int} {x : Int64} (h : Wrapped exact x.toInt) : x.toInt = exact ↔ Fits exact := by
  constructor
  · rintro rfl
    exact fits_toInt x
  · rintro ⟨hlo, hhi⟩
    have hx := fits_toInt x
    rw [wrapped_iff] at h
    unfold Fits at hx
    omega

/-- Two signed values that agree with one exact value are one value. -/
theorem Wrapped.unique {exact : Int} {x y : Int64} (h : Wrapped exact x.toInt) (h' : Wrapped exact y.toInt) : x = y := by
  have hx := fits_toInt x
  have hy := fits_toInt y
  rw [wrapped_iff] at h h'
  unfold Fits at hx hy
  refine Int64.toInt_inj.mp ?_
  omega

/-- A signed value, clamped at zero, as an unsigned one. -/
theorem toNat_max_zero (x : Int64) : ((max 0 x).toUInt64.toNat : Int) = max 0 x.toInt := by
  by_cases hx : 0 ≤ x
  · have hle : 0 ≤ x.toInt := Int64.le_iff_toInt_le.mp hx
    have hmax : max 0 x = x := if_pos hx
    have hnat : x.toUInt64.toNat = x.toInt.toNat := Int64.toNat_toUInt64_of_le hx
    rw [hmax, hnat]
    omega
  · have hlt : x.toInt < 0 := by
      by_contra hle
      exact hx (Int64.le_iff_toInt_le.mpr (not_lt.mp hle))
    have hmax : max 0 x = 0 := if_neg hx
    have hzero : (0 : Int64).toUInt64.toNat = 0 := rfl
    rw [hmax, hzero]
    omega

end Wrapping
