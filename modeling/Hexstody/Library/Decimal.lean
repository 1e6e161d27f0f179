import Mathlib.Data.UInt

/-!
# Decimal texts

The number that a text of decimal digits stands for (`decimal?`), and the machine integers that a text with a sign is read as
(`parseU64`, `parseI64`): nothing if it has another character, no digit, or a value out of range. A text of digits alone is read as
its number, if that fits (`parseU64_of_decimal`).
-/

namespace Hexstody

/-- The number that decimal digits stand for. -/
def decimal? (ds : List Char) : Option Nat :=
  if ds ≠ [] ∧ ds.all Char.isDigit = true then some (Nat.ofDigitChars 10 ds 0) else none

/-- The integer that digits stand for, with a sign before them or not. -/
def signedDecimal? : List Char → Option Int
  | '+' :: ds => (decimal? ds).map Int.ofNat
  | '-' :: ds => (decimal? ds).map fun n => -Int.ofNat n
  | ds => (decimal? ds).map Int.ofNat

/-- An unsigned integer of 64 bits. -/
def parseU64 (s : String) : Option UInt64 :=
  let n? := match s.toList with
    | '+' :: ds => decimal? ds
    | ds => decimal? ds
  n?.bind fun n => if n < UInt64.size then some (UInt64.ofNat n) else none

/-- A signed integer of 64 bits. -/
def parseI64 (s : String) : Option Int :=
  (signedDecimal? s.toList).filter fun n => decide (-9223372036854775808 ≤ n ∧ n ≤ 9223372036854775807)

/-- The text is the number, in decimal digits. -/
def IsDecimal (s : String) (n : Nat) : Prop := decimal? s.toList = some n

instance (s : String) (n : Nat) : Decidable (IsDecimal s n) := inferInstanceAs (Decidable (decimal? s.toList = some n))

variable {s : String} {n : Nat}

/-- Digits have no sign before them. -/
theorem IsDecimal.head_ne (h : IsDecimal s n) : ∀ ds, s.toList ≠ '+' :: ds ∧ s.toList ≠ '-' :: ds := by
  intro ds
  unfold IsDecimal decimal? at h
  split at h
  · rename_i hdigits
    have hall := List.all_eq_true.mp hdigits.2
    constructor
    · intro hs
      exact absurd (hall '+' (hs ▸ List.mem_cons_self)) (by decide)
    · intro hs
      exact absurd (hall '-' (hs ▸ List.mem_cons_self)) (by decide)
  · cases h

/-- Digits are read as their number, if it fits. -/
theorem parseU64_of_decimal (h : IsDecimal s n) : parseU64 s = if n < UInt64.size then some (UInt64.ofNat n) else none := by
  have hhead := h.head_ne
  have hdec : decimal? s.toList = some n := h
  unfold parseU64
  split
  · rename_i ds hs
    exact absurd hs (hhead ds).1
  · rw [hdec]
    rfl

/-- The number is written in decimal digits as usual. -/
theorem isDecimal_toString (n : Nat) : IsDecimal (toString n) n := by
  have htext : (toString n).toList = Nat.toDigits 10 n := Nat.toList_repr
  unfold IsDecimal decimal?
  rw [htext, Nat.ofDigitChars_ten_toDigits, if_pos]
  refine ⟨Nat.toDigits_ne_nil, List.all_eq_true.mpr fun c hc => ?_⟩
  exact Nat.isDigit_of_mem_toDigits (by decide) (by decide) hc

end Hexstody
