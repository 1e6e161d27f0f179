import Hexstody.Library.Wrapping

/-!
# Arithmetic that is checked

A machine integer type as the integers that it represents (`Width`), and computations in it that stop where an operation would
leave them. A checked operation succeeds exactly when the exact result is represented, and then returns it. So does the checked
sum of terms that are not negative (`Width.sum_eq_some_iff`): no partial sum leaves the range if the whole one does not.
-/

namespace Wrapping

/-- A type of machine integers: the integer that each stands for, and the check that an integer has one. -/
structure Width (β : Type) where
  val : β → Int
  check : Int → Option β
  check_eq_some_iff : ∀ {n x}, check n = some x ↔ val x = n
  zero : β
  val_zero : val zero = 0
  exists_of_le : ∀ {n x}, 0 ≤ n → n ≤ val x → ∃ y, val y = n

/-- Unsigned integers of 64 bits. -/
def u64 : Width UInt64 where
  val x := x.toNat
  check n := if 0 ≤ n ∧ n < 18446744073709551616 then some (UInt64.ofNat n.toNat) else none
  check_eq_some_iff := by
    intro n x
    have hx := x.toNat_lt
    constructor
    · intro h
      split at h
      · obtain rfl := Option.some.inj h
        rw [UInt64.toNat_ofNat']
        omega
      · cases h
    · rintro rfl
      rw [if_pos (by omega), Int.toNat_natCast, UInt64.ofNat_toNat]
  zero := 0
  val_zero := rfl
  exists_of_le := by
    intro n x h0 hle
    have hx := x.toNat_lt
    refine ⟨UInt64.ofNat n.toNat, ?_⟩
    rw [UInt64.toNat_ofNat']
    omega

/-- Signed integers of 64 bits. -/
def i64 : Width Int64 where
  val x := x.toInt
  check n := if Fits n then some (Int64.ofInt n) else none
  check_eq_some_iff := by
    intro n x
    constructor
    · intro h
      split at h
      · rename_i hn
        obtain rfl := Option.some.inj h
        exact Int64.toInt_ofInt_of_le hn.1 hn.2
      · cases h
    · rintro rfl
      rw [if_pos (fits_toInt x), Int64.ofInt_toInt]
  zero := 0
  val_zero := rfl
  exists_of_le := by
    intro n x h0 hle
    have hx := x.toInt_lt
    refine ⟨Int64.ofInt n, Int64.toInt_ofInt_of_le ?_ ?_⟩
    · omega
    · omega

theorem u64_check_eq_some_iff {n : Int} {x : UInt64} : u64.check n = some x ↔ (x.toNat : Int) = n := u64.check_eq_some_iff

theorem i64_check_eq_some_iff {n : Int} {x : Int64} : i64.check n = some x ↔ x.toInt = n := i64.check_eq_some_iff

theorem exists_toNat_eq {n : Int} (h0 : 0 ≤ n) (hn : n < 18446744073709551616) : ∃ x : UInt64, (x.toNat : Int) = n :=
  ⟨_, u64_check_eq_some_iff.mp (if_pos ⟨h0, hn⟩)⟩

theorem exists_toInt_eq {n : Int} (h : Fits n) : ∃ x : Int64, x.toInt = n := ⟨_, i64_check_eq_some_iff.mp (if_pos h)⟩

namespace Width

variable {α β : Type} (w : Width β)

/-- The checked sum of what is computed, and checked, for each element. -/
def sum (f : α → Option β) (l : List α) : Option β :=
  l.foldlM (fun acc a => (f a).bind (fun x => w.check (w.val acc + w.val x))) w.zero

/-- A checked sum of terms that are not negative succeeds exactly when the exact sum is represented. -/
theorem sum_eq_some_iff {f : α → Option β} {e : α → Int} {l : List α} {x : β}
    (hf : ∀ a ∈ l, ∀ y, f a = some y ↔ w.val y = e a) (h0 : ∀ a ∈ l, 0 ≤ e a) :
    w.sum f l = some x ↔ w.val x = (l.map e).sum := by
  have key : ∀ (l : List α) (acc : β), (∀ a ∈ l, ∀ y, f a = some y ↔ w.val y = e a) → (∀ a ∈ l, 0 ≤ e a) →
      0 ≤ w.val acc →
      (l.foldlM (fun acc a => (f a).bind (fun x => w.check (w.val acc + w.val x))) acc = some x ↔
        w.val x = w.val acc + (l.map e).sum) := by
    intro l
    induction l with
    | nil =>
      intro acc _ _ _
      simp only [List.foldlM_nil, List.map_nil, List.sum_nil, add_zero]
      rw [← w.check_eq_some_iff, (w.check_eq_some_iff (x := acc)).mpr rfl]
      rfl
    | cons a l ih =>
      intro acc hf h0 hacc
      have ha := hf a (List.mem_cons_self ..)
      have ha0 := h0 a (List.mem_cons_self ..)
      have hl0 : 0 ≤ (l.map e).sum := by
        refine List.sum_nonneg fun n hn => ?_
        obtain ⟨b, hb, rfl⟩ := List.mem_map.mp hn
        exact h0 b (List.mem_cons_of_mem _ hb)
      have ih := fun acc => ih acc (fun b hb => hf b (List.mem_cons_of_mem _ hb)) (fun b hb => h0 b (List.mem_cons_of_mem _ hb))
      rw [List.foldlM_cons, List.map_cons, List.sum_cons, Option.bind_eq_bind, Option.bind_eq_some_iff]
      constructor
      · rintro ⟨acc', hacc', hrest⟩
        obtain ⟨y, hy, hcheck⟩ := Option.bind_eq_some_iff.mp hacc'
        have hval : w.val acc' = w.val acc + w.val y := w.check_eq_some_iff.mp hcheck
        have hy : w.val y = e a := (ha y).mp hy
        have hx := (ih acc' (by omega)).mp hrest
        omega
      · intro hx
        -- the next term and the next partial sum are at most the whole sum
        obtain ⟨y, hy⟩ := w.exists_of_le (x := x) ha0 (by omega)
        obtain ⟨acc', hacc'⟩ := w.exists_of_le (n := w.val acc + e a) (x := x) (by omega) (by omega)
        refine ⟨acc', Option.bind_eq_some_iff.mpr ⟨y, (ha y).mpr hy, ?_⟩, (ih acc' (by omega)).mpr (by omega)⟩
        exact w.check_eq_some_iff.mpr (by omega)
  rw [sum, key l w.zero hf h0 (by rw [w.val_zero]), w.val_zero, zero_add]

end Width

end Wrapping
