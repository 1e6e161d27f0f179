import Mathlib.Data.List.Basic

/-!
# Delimited text

When the parts of a text can be read off it again. A separator splits a list where it occurs for the first time, or for the last: a
part that has none of it is determined, and so is what is on the other side (`separated_left`, `separated_right`). A family of
words none of which begins another is a prefix code (`PrefixFree`): the word at the head of a list is determined, and a sequence of
words is determined by its concatenation. What a list is split into at each separator are the only parts without separators that it
is put together of (`splitOn_eq_iff`).
-/

namespace Delimited

variable {α ι : Type*}

/-! ## Separators -/

/-- What stands before the first separator is determined. -/
theorem separated_left {c : α} {p q s t : List α} (hp : c ∉ p) (hq : c ∉ q) (h : p ++ c :: s = q ++ c :: t) :
    p = q ∧ s = t := by
  induction p generalizing q with
  | nil =>
    cases q with
    | nil => exact ⟨rfl, (List.cons.inj h).2⟩
    | cons b q => exact absurd ((List.cons.inj h).1 ▸ List.mem_cons_self) hq
  | cons a p ih =>
    cases q with
    | nil => exact absurd ((List.cons.inj h).1 ▸ List.mem_cons_self) hp
    | cons b q =>
      obtain ⟨hab, h⟩ := List.cons.inj h
      obtain ⟨hpq, hst⟩ := ih (fun hm => hp (List.mem_cons_of_mem a hm)) (fun hm => hq (List.mem_cons_of_mem b hm)) h
      exact ⟨by rw [hab, hpq], hst⟩

/-- What stands after the last separator is determined. -/
theorem separated_right {c : α} {p q s t : List α} (hs : c ∉ s) (ht : c ∉ t) (h : p ++ c :: s = q ++ c :: t) :
    p = q ∧ s = t := by
  have hrev : s.reverse ++ c :: p.reverse = t.reverse ++ c :: q.reverse := by simpa using congrArg List.reverse h
  obtain ⟨hst, hpq⟩ := separated_left (fun hm => hs (List.mem_reverse.mp hm)) (fun hm => ht (List.mem_reverse.mp hm)) hrev
  exact ⟨List.reverse_injective hpq, List.reverse_injective hst⟩

/-- What a list is split into has no separator. -/
theorem notMem_of_mem_splitOn [DecidableEq α] {c : α} {s p : List α} (h : p ∈ s.splitOn c) : c ∉ p := by
  induction s generalizing p with
  | nil =>
    rw [List.splitOn_nil, List.mem_singleton] at h
    rw [h]
    exact List.not_mem_nil
  | cons a s ih =>
    obtain ⟨q, qs, hsplit⟩ := List.exists_cons_of_ne_nil (List.splitOn_ne_nil c s)
    rw [List.splitOn_cons_eq_if_modifyHead, hsplit] at h
    split at h
    · rcases List.mem_cons.mp h with rfl | h
      · exact List.not_mem_nil
      · exact ih (hsplit ▸ h)
    · rename_i hac
      rw [List.modifyHead_cons] at h
      rcases List.mem_cons.mp h with rfl | h
      · intro hc
        rcases List.mem_cons.mp hc with rfl | hc
        · exact hac (beq_self_eq_true c)
        · exact ih (hsplit ▸ List.mem_cons_self) hc
      · exact ih (hsplit ▸ List.mem_cons_of_mem q h)

/-- There is one part more than separators. -/
theorem length_splitOn [DecidableEq α] {c : α} (s : List α) : (s.splitOn c).length = s.count c + 1 := by
  induction s with
  | nil => rfl
  | cons a s ih =>
    rw [List.splitOn_cons_eq_if_modifyHead, List.count_cons]
    split
    · rw [List.length_cons, ih]
    · rw [List.length_modifyHead, ih]

/-- A list is split into the parts without separators that it is put together of. -/
theorem splitOn_eq_iff [DecidableEq α] {c : α} {s : List α} {ps : List (List α)} :
    s.splitOn c = ps ↔ ps ≠ [] ∧ (∀ p ∈ ps, c ∉ p) ∧ s = [c].intercalate ps := by
  constructor
  · rintro rfl
    exact ⟨List.splitOn_ne_nil c s, fun p hp => notMem_of_mem_splitOn hp, (List.intercalate_splitOn c).symm⟩
  · rintro ⟨hne, hparts, rfl⟩
    exact List.splitOn_intercalate c hparts hne

/-! ## Prefix codes -/

/-- No word begins another. -/
def PrefixFree (w : ι → List α) : Prop := ∀ i j, w i <+: w j → i = j

namespace PrefixFree

variable {w : ι → List α}

/-- The word at the head is determined, and what follows it. -/
theorem eq_of_append (hw : PrefixFree w) {i j : ι} {s t : List α} (h : w i ++ s = w j ++ t) : i = j ∧ s = t := by
  have hi : w i <+: w j ++ t := h ▸ List.prefix_append (w i) s
  have hij : i = j := by
    rcases List.prefix_or_prefix_of_prefix hi (List.prefix_append (w j) t) with hp | hp
    · exact hw i j hp
    · exact (hw j i hp).symm
  subst hij
  exact ⟨rfl, List.append_cancel_left h⟩

/-- A sequence of words that are not empty is determined by its concatenation. -/
theorem flatMap_injective (hw : PrefixFree w) (hne : ∀ i, w i ≠ []) : Function.Injective (List.flatMap w) := by
  intro is
  induction is with
  | nil =>
    intro js h
    cases js with
    | nil => rfl
    | cons j js => exact absurd (List.append_eq_nil_iff.mp h.symm).1 (hne j)
  | cons i is ih =>
    intro js h
    cases js with
    | nil => exact absurd (List.append_eq_nil_iff.mp h).1 (hne i)
    | cons j js =>
      obtain ⟨hij, hrest⟩ := hw.eq_of_append h
      rw [hij, ih hrest]

end PrefixFree

end Delimited
