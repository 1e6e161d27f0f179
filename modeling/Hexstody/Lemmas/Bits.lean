import Hexstody.Mnemonic
import Hexstody.Library.Hex
import Mathlib.Data.List.TakeWhile

/-!
# Bytes and groups of eleven bits

The mnemonic takes the bits of some bytes in groups of eleven, and back. A text of bits is cut into the groups it was made of
(`matchFrom_flatten`), each of which is read as its number (`parseInt2_digitsBE`); so 33 bytes become the digits of their number in
base 2048 (`toUint11Array_eq`), and 24 such digits the bytes of theirs (`fromUint11Array_eq`).
-/

namespace Hexstody

namespace Mnemonic

/-! ## Texts of bits -/

/-- The bits of some numbers, so many for each. -/
def bits (w : Nat) (ds : List Nat) : List Char := ds.flatMap fun d => (digitsBE 2 w d).map Nat.digitChar

theorem bits_eq (w : Nat) (ds : List Nat) : bits w ds = (ds.flatMap (digitsBE 2 w)).map Nat.digitChar := by
  rw [bits, List.map_flatMap]

/-- The bits of the digits of a number do not depend on the base. -/
theorem bits_digitsBE (w k n : Nat) : bits w (digitsBE (2 ^ w) k n) = (digitsBE 2 (w * k) n).map Nat.digitChar := by
  rw [bits_eq, digitsBE_pow]

/-- A number that fits is filled with leading zeros to its bits. -/
theorem dec2binFillN_toDigits {w d : Nat} (hw : 0 < w) (hd : d < 2 ^ w) :
    dec2binFillN (Nat.toDigits 2 d) w = (digitsBE 2 w d).map Nat.digitChar := by
  rw [← padded_toDigits (by decide) hw hd, dec2binFillN]
  split
  · rfl
  · rename_i hlen
    rw [Nat.sub_eq_zero_of_le (Nat.le_of_not_lt hlen)]
    rfl

theorem digitChar_bit {d : Nat} (h : d < 2) : isBit d.digitChar = true ∧ d.digitChar.toNat - '0'.toNat = d := by
  have hall : ∀ k : Fin 2, isBit (k : Nat).digitChar = true ∧ (k : Nat).digitChar.toNat - '0'.toNat = (k : Nat) := by decide
  exact hall ⟨d, h⟩

theorem isBit_of_mem {w d : Nat} : ∀ c ∈ (digitsBE 2 w d).map Nat.digitChar, isBit c = true := by
  intro c hc
  obtain ⟨x, hx, rfl⟩ := List.mem_map.mp hc
  exact (digitChar_bit (digitsBE_lt (by decide) x hx)).1

theorem not_isLineTerminator_of_isBit {c : Char} (h : isBit c = true) : isLineTerminator c = false := by
  rcases Bool.or_eq_true_iff.mp h with h | h <;>
    · rw [eq_of_beq h]
      decide

/-- Within a group, what is found is added to what was found of it. -/
theorem matchFrom_group {n : Nat} (g acc rest : List Char) (hne : g ≠ []) (hsum : acc.length + g.length = n)
    (hg : ∀ c ∈ g, isBit c = true) : matchFrom n acc (g ++ rest) = (acc ++ g) :: matchFrom n [] rest := by
  induction g generalizing acc with
  | nil => exact absurd rfl hne
  | cons c g ih =>
    have hline : isLineTerminator c = false := not_isLineTerminator_of_isBit (hg c (by simp))
    rw [List.length_cons] at hsum
    rw [List.cons_append, matchFrom, hline, if_neg Bool.false_ne_true]
    by_cases hlast : g = []
    · subst hlast
      rw [List.length_nil] at hsum
      rw [if_pos (by omega), List.nil_append]
    · have hpos : 0 < g.length := List.length_pos_iff.mpr hlast
      rw [if_neg (by omega), ih (acc ++ [c]) hlast (by rw [List.length_append, List.length_singleton]; omega)
        (fun c' hc' => hg c' (List.mem_cons_of_mem _ hc')), List.append_assoc, List.singleton_append]

/-- The groups that are found in groups of the right size are these groups. -/
theorem matchFrom_flatten {n : Nat} {gs : List (List Char)} (hn : 0 < n) (hlen : ∀ g ∈ gs, g.length = n)
    (hbits : ∀ g ∈ gs, ∀ c ∈ g, isBit c = true) : matchGroups n gs.flatten = gs := by
  unfold matchGroups
  induction gs with
  | nil => rfl
  | cons g gs ih =>
    have hg := hlen g (by simp)
    have hne : g ≠ [] := by
      rintro rfl
      rw [List.length_nil] at hg
      omega
    rw [List.flatten_cons, matchFrom_group g [] _ hne (by rw [List.length_nil, hg, Nat.zero_add]) (hbits g (by simp)),
      List.nil_append, ih (fun g' hg' => hlen g' (List.mem_cons_of_mem _ hg'))
        (fun g' hg' => hbits g' (List.mem_cons_of_mem _ hg'))]

theorem matchGroups_bits {w : Nat} (hw : 0 < w) (ds : List Nat) :
    matchGroups w (bits w ds) = ds.map fun d => (digitsBE 2 w d).map Nat.digitChar := by
  rw [bits, List.flatMap_def]
  refine matchFrom_flatten hw ?_ ?_
  · intro g hg
    obtain ⟨d, -, rfl⟩ := List.mem_map.mp hg
    rw [List.length_map, length_digitsBE]
  · intro g hg
    obtain ⟨d, -, rfl⟩ := List.mem_map.mp hg
    exact isBit_of_mem

/-- The characters of bits are read as these bits. -/
theorem ofDigitChars_digitChar (ds : List Nat) (n : Nat) (h : ∀ x ∈ ds, x < 2) :
    Nat.ofDigitChars 2 (ds.map Nat.digitChar) n = ds.foldl (fun n d => n * 2 + d) n := by
  induction ds generalizing n with
  | nil => exact Nat.ofDigitChars_nil
  | cons x ds ih =>
    rw [List.map_cons, Nat.ofDigitChars_cons, (digitChar_bit (h x (by simp))).2,
      ih _ (fun y hy => h y (List.mem_cons_of_mem _ hy)), List.foldl_cons, Nat.mul_comm]

/-- Bits are read as the number whose bits they are. -/
theorem parseInt2_digitsBE {w d : Nat} (hw : 0 < w) (hd : d < 2 ^ w) :
    parseInt2 ((digitsBE 2 w d).map Nat.digitChar) = some (d : Int) := by
  have hbits := isBit_of_mem (w := w) (d := d)
  have hvalue : Nat.ofDigitChars 2 ((digitsBE 2 w d).map Nat.digitChar) 0 = d := by
    rw [ofDigitChars_digitChar _ 0 (digitsBE_lt (by decide))]
    exact (ofBE_digitsBE 2 w d).trans (Nat.mod_eq_of_lt hd)
  have hlen : ((digitsBE 2 w d).map Nat.digitChar).length = w := by rw [List.length_map, length_digitsBE]
  generalize (digitsBE 2 w d).map Nat.digitChar = s at hbits hvalue hlen
  cases s with
  | nil =>
    rw [List.length_nil] at hlen
    omega
  | cons c cs =>
    have htake : (c :: cs).takeWhile isBit = c :: cs := List.takeWhile_eq_self_iff.mpr hbits
    have hc : c = '0' ∨ c = '1' := by
      rcases Bool.or_eq_true_iff.mp (hbits c (by simp)) with h | h
      · exact Or.inl (eq_of_beq h)
      · exact Or.inr (eq_of_beq h)
    have hdrop : (c :: cs).dropWhile Char.isWhitespace = c :: cs := by
      rcases hc with rfl | rfl <;> rfl
    have hread : parseInt2 (c :: cs) = leadingBits (c :: cs) := by
      unfold parseInt2
      rw [hdrop]
      rcases hc with rfl | rfl <;> rfl
    rw [hread, leadingBits, htake, if_neg (List.cons_ne_nil _ _), hvalue]

/-! ## Bytes and groups of eleven bits -/

/-- 33 bytes and 24 groups of eleven bits are as many bits. -/
theorem bits_regroup (n : Nat) : bits 8 (digitsBE 256 33 n) = bits 11 (digitsBE 2048 24 n) :=
  (bits_digitsBE 8 33 n).trans (bits_digitsBE 11 24 n).symm

/-- Numbers that fit are filled to their bits. -/
theorem flatMap_dec2binFillN {α : Type} {w : Nat} (hw : 0 < w) (xs : List α) (f : α → Nat) (h : ∀ x ∈ xs, f x < 2 ^ w) :
    (xs.flatMap fun x => dec2binFillN (Nat.toDigits 2 (f x)) w) = bits w (xs.map f) := by
  rw [bits, List.flatMap_map, List.flatMap_def, List.flatMap_def]
  exact congrArg List.flatten (List.map_congr_left fun x hx => dec2binFillN_toDigits hw (h x hx))

theorem toNat_lt_of_mem {bs : List UInt8} : ∀ d ∈ bs.map UInt8.toNat, d < 256 := by
  intro d hd
  obtain ⟨b, -, rfl⟩ := List.mem_map.mp hd
  exact b.toNat_lt

/-- Some bytes are those of their number. -/
theorem digitsBE_toNat {bs : List UInt8} {n : Nat} (h : bs.length = n) :
    digitsBE 256 n (ofBE 256 (bs.map UInt8.toNat)) = bs.map UInt8.toNat := by
  have hself : digitsBE 256 (bs.map UInt8.toNat).length (ofBE 256 (bs.map UInt8.toNat)) = bs.map UInt8.toNat :=
    digitsBE_ofBE toNat_lt_of_mem
  rw [List.length_map, h] at hself
  exact hself

/-- Bytes are grouped to the digits in base 2048 of their number. -/
theorem toUint11Array_eq {bs : List UInt8} (h : bs.length = 33) :
    toUint11Array bs = (digitsBE 2048 24 (ofBE 256 (bs.map UInt8.toNat))).map fun d : Nat => some (d : Int) := by
  have hself := digitsBE_toNat h
  generalize ofBE 256 (bs.map UInt8.toNat) = n at hself
  rw [toUint11Array, flatMap_dec2binFillN (by decide) bs UInt8.toNat (fun b _ => b.toNat_lt), ← hself, bits_regroup,
    matchGroups_bits (by decide), List.map_map]
  refine List.map_congr_left fun d hd => ?_
  have hgroup : d < 2048 := digitsBE_lt (by decide) d hd
  have hread : parseInt2 ((digitsBE 2 11 d).map Nat.digitChar) = some (d : Int) := parseInt2_digitsBE (by decide) hgroup
  rw [Function.comp_apply, hread]

theorem toUint8_natCast (d : Nat) : toUint8 (some (d : Int)) = UInt8.ofNat d := by
  have hmod : ((d : Int) % 256).toNat = d % 256 := by omega
  rw [toUint8, Option.getD_some, hmod]
  exact UInt8.toNat_inj.mp (by rw [UInt8.toNat_ofNat', UInt8.toNat_ofNat', Nat.mod_mod])

/-- Groups of eleven bits are the bytes of their number. -/
theorem fromUint11Array_eq {ds : List Nat} (h : ds.length = 24) (hlt : ∀ d ∈ ds, d < 2048) :
    fromUint11Array (ds.map .number) = bigEndian 33 (ofBE 2048 ds) := by
  have hself := digitsBE_ofBE hlt
  rw [h] at hself
  have htext : ((ds.map Property.number).flatMap fun p => dec2binFillN p.toString2 11) = bits 11 ds := by
    have hfill := flatMap_dec2binFillN (w := 11) (by decide) ds id hlt
    rw [List.map_id] at hfill
    rw [List.flatMap_map]
    exact hfill
  generalize ofBE 2048 ds = n at hself
  rw [fromUint11Array, htext, ← hself, ← bits_regroup, matchGroups_bits (by decide), List.map_map, bigEndian]
  refine List.map_congr_left fun d hd => ?_
  have hbyte : d < 256 := digitsBE_lt (by decide) d hd
  have hread : parseInt2 ((digitsBE 2 8 d).map Nat.digitChar) = some (d : Int) := parseInt2_digitsBE (by decide) hbyte
  rw [Function.comp_apply, hread, toUint8_natCast]

end Mnemonic

end Hexstody
