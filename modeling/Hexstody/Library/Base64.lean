import Mathlib.Data.List.Basic

/-!
# Texts in base64

Three bytes are written as four digits of six bits each; what is left at the end is filled up with `=`. A text is read if it is the
text of some bytes (`decode_encode`), and nothing else occurs in it than digits and `=` (`mem_encode`).
-/

namespace Hexstody

namespace Base64

/-- The digit of a value below 64. -/
def digit (n : Nat) : Char :=
  if n < 26 then Char.ofNat ('A'.toNat + n)
  else if n < 52 then Char.ofNat ('a'.toNat + (n - 26))
  else if n < 62 then Char.ofNat ('0'.toNat + (n - 52))
  else if n = 62 then '+'
  else '/'

/-- The value of a digit. -/
def value? (c : Char) : Option Nat :=
  if 'A' ≤ c ∧ c ≤ 'Z' then some (c.toNat - 'A'.toNat)
  else if 'a' ≤ c ∧ c ≤ 'z' then some (c.toNat - 'a'.toNat + 26)
  else if '0' ≤ c ∧ c ≤ '9' then some (c.toNat - '0'.toNat + 52)
  else if c = '+' then some 62
  else if c = '/' then some 63
  else none

/-- The text of some bytes. -/
def encode : List UInt8 → List Char
  | [] => []
  | [a] => [digit (a.toNat / 4), digit (a.toNat % 4 * 16), '=', '=']
  | [a, b] => [digit (a.toNat / 4), digit (a.toNat % 4 * 16 + b.toNat / 16), digit (b.toNat % 16 * 4), '=']
  | a :: b :: c :: bs =>
    digit (a.toNat / 4) :: digit (a.toNat % 4 * 16 + b.toNat / 16) :: digit (b.toNat % 16 * 4 + c.toNat / 64) ::
      digit (c.toNat % 64) :: encode bs

/-- The bytes of a text. -/
def decode : List Char → Option (List UInt8)
  | [] => some []
  | w :: x :: y :: z :: cs =>
    match value? w, value? x, value? y, value? z with
    | some i, some j, some k, some l =>
      (decode cs).map fun bs => UInt8.ofNat (i * 4 + j / 16) :: UInt8.ofNat (j % 16 * 16 + k / 4) :: UInt8.ofNat (k % 4 * 64 + l) :: bs
    | some i, some j, some k, none =>
      if z = '=' ∧ cs = [] ∧ k % 4 = 0 then some [UInt8.ofNat (i * 4 + j / 16), UInt8.ofNat (j % 16 * 16 + k / 4)] else none
    | some i, some j, none, none =>
      if y = '=' ∧ z = '=' ∧ cs = [] ∧ j % 16 = 0 then some [UInt8.ofNat (i * 4 + j / 16)] else none
    | _, _, _, _ => none
  | _ => none

theorem value?_digit {n : Nat} (h : n < 64) : value? (digit n) = some n := by
  have hall : ∀ k : Fin 64, value? (digit k) = some (k : Nat) := by decide
  exact hall ⟨n, h⟩

/-- What has a value is a digit. -/
def IsDigit (c : Char) : Prop := (value? c).isSome = true

instance (c : Char) : Decidable (IsDigit c) := inferInstanceAs (Decidable ((value? c).isSome = true))

theorem isDigit_digit {n : Nat} (h : n < 64) : IsDigit (digit n) := by
  rw [IsDigit, value?_digit h]
  rfl

theorem value?_pad : value? '=' = none := by decide

/-- In the text of some bytes there are digits, and `=`. -/
theorem mem_encode {bs : List UInt8} {c : Char} (h : c ∈ encode bs) : IsDigit c ∨ c = '=' := by
  induction bs using encode.induct with
  | case1 => cases h
  | case2 a =>
    have ha := a.toNat_lt
    simp only [encode, List.mem_cons, List.not_mem_nil, or_false] at h
    rcases h with rfl | rfl | rfl | rfl
    · exact Or.inl (isDigit_digit (by omega))
    · exact Or.inl (isDigit_digit (by omega))
    · exact Or.inr rfl
    · exact Or.inr rfl
  | case3 a b =>
    have ha := a.toNat_lt
    have hb := b.toNat_lt
    simp only [encode, List.mem_cons, List.not_mem_nil, or_false] at h
    rcases h with rfl | rfl | rfl | rfl
    · exact Or.inl (isDigit_digit (by omega))
    · exact Or.inl (isDigit_digit (by omega))
    · exact Or.inl (isDigit_digit (by omega))
    · exact Or.inr rfl
  | case4 a b c' bs ih =>
    have ha := a.toNat_lt
    have hb := b.toNat_lt
    have hc := c'.toNat_lt
    simp only [encode, List.mem_cons] at h
    rcases h with rfl | rfl | rfl | rfl | h
    · exact Or.inl (isDigit_digit (by omega))
    · exact Or.inl (isDigit_digit (by omega))
    · exact Or.inl (isDigit_digit (by omega))
    · exact Or.inl (isDigit_digit (by omega))
    · exact ih h

theorem ofNat_eq {a : UInt8} {n : Nat} (h : n = a.toNat) : UInt8.ofNat n = a := by
  rw [h, UInt8.ofNat_toNat]

/-- What is written is read back. -/
theorem decode_encode (bs : List UInt8) : decode (encode bs) = some bs := by
  induction bs using encode.induct with
  | case1 => rfl
  | case2 a =>
    have ha := a.toNat_lt
    have hbyte : UInt8.ofNat (a.toNat / 4 * 4 + a.toNat % 4 * 16 / 16) = a := ofNat_eq (by omega)
    have hrest : a.toNat % 4 * 16 % 16 = 0 := Nat.mul_mod_left _ _
    rw [encode, decode, value?_digit (by omega), value?_digit (by omega), value?_pad]
    simp only [hbyte, hrest, and_self, if_true]
  | case3 a b =>
    have ha := a.toNat_lt
    have hb := b.toNat_lt
    have hfirst : UInt8.ofNat (a.toNat / 4 * 4 + (a.toNat % 4 * 16 + b.toNat / 16) / 16) = a := ofNat_eq (by omega)
    have hsecond : UInt8.ofNat ((a.toNat % 4 * 16 + b.toNat / 16) % 16 * 16 + b.toNat % 16 * 4 / 4) = b := ofNat_eq (by omega)
    have hrest : b.toNat % 16 * 4 % 4 = 0 := Nat.mul_mod_left _ _
    rw [encode, decode, value?_digit (by omega), value?_digit (by omega), value?_digit (by omega), value?_pad]
    simp only [hfirst, hsecond, hrest, and_self, if_true]
  | case4 a b c bs ih =>
    have ha := a.toNat_lt
    have hb := b.toNat_lt
    have hc := c.toNat_lt
    have hfirst : UInt8.ofNat (a.toNat / 4 * 4 + (a.toNat % 4 * 16 + b.toNat / 16) / 16) = a := ofNat_eq (by omega)
    have hsecond : UInt8.ofNat ((a.toNat % 4 * 16 + b.toNat / 16) % 16 * 16 + (b.toNat % 16 * 4 + c.toNat / 64) / 4) = b :=
      ofNat_eq (by omega)
    have hthird : UInt8.ofNat ((b.toNat % 16 * 4 + c.toNat / 64) % 4 * 64 + c.toNat % 64) = c := ofNat_eq (by omega)
    rw [encode, decode, value?_digit (by omega), value?_digit (by omega), value?_digit (by omega), value?_digit (by omega), ih]
    simp only [hfirst, hsecond, hthird, Option.map_some]

end Base64

end Hexstody
