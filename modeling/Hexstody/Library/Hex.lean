import Hexstody.Library.Radix

/-!
# Hexadecimal texts and big-endian bytes

A text of hexadecimal digits, two of them a byte (`decodeHex`), and a number as a fixed number of bytes, the highest first
(`bigEndian`). A number that is written with leading zeros is decoded to its bytes (`decodeHex_padded`), and a number that fits is
known from its bytes (`bigEndian_inj`).
-/

namespace Hexstody

/-- The value of a hexadecimal digit, of either case. -/
def hexDigit? (c : Char) : Option Nat :=
  if '0' ≤ c ∧ c ≤ '9' then some (c.toNat - '0'.toNat)
  else if 'a' ≤ c ∧ c ≤ 'f' then some (c.toNat - 'a'.toNat + 10)
  else if 'A' ≤ c ∧ c ≤ 'F' then some (c.toNat - 'A'.toNat + 10)
  else none

/-- The bytes that a text of hexadecimal digits stands for. -/
def decodeHex : List Char → Option (List UInt8)
  | [] => some []
  | [_] => none
  | a :: b :: cs =>
    match hexDigit? a, hexDigit? b, decodeHex cs with
    | some x, some y, some bs => some (UInt8.ofNat (16 * x + y) :: bs)
    | _, _, _ => none

/-- The last `k` bytes of a number, the highest first. -/
def bigEndian (k n : Nat) : List UInt8 := (digitsBE 256 k n).map UInt8.ofNat

theorem decodeHex_append {xs ys : List Char} {as : List UInt8} (h : decodeHex xs = some as) :
    decodeHex (xs ++ ys) = (decodeHex ys).map (as ++ ·) := by
  induction xs using decodeHex.induct generalizing as with
  | case1 =>
    obtain rfl := Option.some.inj h
    simp
  | case2 a => cases h
  | case3 a b cs x y bs hcs hb ha ih =>
    simp only [decodeHex, ha, hb, hcs, Option.some.injEq] at h
    rw [List.cons_append, List.cons_append, decodeHex, ha, hb, ih hcs, ← h]
    cases decodeHex ys <;> rfl
  | case4 a b cs hnone ih =>
    unfold decodeHex at h
    split at h
    · rename_i x y bs ha hb hcs
      exact absurd hcs (hnone x y bs ha hb)
    · cases h

theorem hexDigit?_digitChar {n : Nat} (h : n < 16) : hexDigit? n.digitChar = some n := by
  have hall : ∀ k : Fin 16, hexDigit? (k : Nat).digitChar = some (k : Nat) := by decide
  exact hall ⟨n, h⟩

/-- Two digits are decoded to a byte. -/
theorem decodeHex_byte {d : Nat} (h : d < 256) : decodeHex ((digitsBE 16 2 d).map Nat.digitChar) = some [UInt8.ofNat d] := by
  have hvalue : 16 * (d / 16) + d % 16 = d := Nat.div_add_mod d 16
  have hhigh : hexDigit? (d / 16 % 16).digitChar = some (d / 16) := by
    rw [hexDigit?_digitChar (Nat.mod_lt _ (by decide)), Nat.mod_eq_of_lt (by omega)]
  have hlow : hexDigit? (d % 16).digitChar = some (d % 16) := hexDigit?_digitChar (Nat.mod_lt _ (by decide))
  simp only [digitsBE, List.nil_append, List.cons_append, List.map_cons, List.map_nil, decodeHex, hhigh, hlow, hvalue]

/-- The digits of bytes are decoded to the bytes. -/
theorem decodeHex_bytes {ds : List Nat} (h : ∀ d ∈ ds, d < 256) :
    decodeHex ((ds.flatMap (digitsBE 16 2)).map Nat.digitChar) = some (ds.map UInt8.ofNat) := by
  induction ds with
  | nil => rfl
  | cons d ds ih =>
    rw [List.flatMap_cons, List.map_append, decodeHex_append (decodeHex_byte (h d (by simp))),
      ih (fun d' hd' => h d' (List.mem_cons_of_mem _ hd'))]
    rfl

/-- A number that is written with leading zeros is decoded to its bytes. -/
theorem decodeHex_padded {k n : Nat} (hk : 0 < k) (hn : n < 16 ^ (2 * k)) :
    decodeHex (List.replicate (2 * k - (Nat.toDigits 16 n).length) '0' ++ Nat.toDigits 16 n) = some (bigEndian k n) := by
  rw [padded_toDigits (by decide) (by omega) hn, ← digitsBE_pow]
  exact decodeHex_bytes (digitsBE_lt (by decide))

theorem length_bigEndian (k n : Nat) : (bigEndian k n).length = k := by
  rw [bigEndian, List.length_map, length_digitsBE]

theorem map_toNat_bigEndian (k n : Nat) : (bigEndian k n).map UInt8.toNat = digitsBE 256 k n := by
  rw [bigEndian, List.map_map]
  refine (List.map_congr_left fun d hd => ?_).trans (List.map_id _)
  exact UInt8.toNat_ofNat_of_lt' (digitsBE_lt (by decide) d hd)

/-- A number that fits is known from its bytes. -/
theorem bigEndian_inj {k m n : Nat} (hm : m < 256 ^ k) (hn : n < 256 ^ k) (h : bigEndian k m = bigEndian k n) : m = n := by
  refine digitsBE_inj hm hn ?_
  rw [← map_toNat_bigEndian, h, map_toNat_bigEndian]

end Hexstody
