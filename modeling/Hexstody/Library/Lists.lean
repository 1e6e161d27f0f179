import Mathlib.Data.List.Induction
import Mathlib.Data.List.Nodup

/-!
# Lists

A loop that collects what each element gives, and gives nothing as soon as an element does (`mapM` in `Option`); a loop that
overwrites what it has at each element of a kind; the one element with a key; the pages of a list; what nested loops over maps collect;
and what holds since an element of a log (`Since`).
-/

namespace Hexstody

variable {α β : Type}

/-- The loop collects what the elements give, if all of them give something. -/
theorem mapM_eq_some_iff {f : α → Option β} {xs : List α} {ys : List β} : xs.mapM f = some ys ↔ xs.map f = ys.map some := by
  induction xs generalizing ys with
  | nil =>
    rw [List.mapM_nil, List.map_nil, eq_comm (a := []), List.map_eq_nil_iff]
    exact Option.some_inj.trans eq_comm
  | cons x xs ih =>
    rw [List.mapM_cons, List.map_cons]
    cases hx : f x with
    | none => cases ys <;> simp
    | some y =>
      cases hxs : xs.mapM f with
      | none => cases ys <;> simp [← ih, hxs]
      | some ys' => cases ys <;> simp [← ih, hxs]

theorem mapM_isSome_iff {f : α → Option β} {xs : List α} : (∃ ys, xs.mapM f = some ys) ↔ ∀ x ∈ xs, ∃ y, f x = some y := by
  constructor
  · rintro ⟨ys, hys⟩ x hx
    have hfx : f x ∈ ys.map some := mapM_eq_some_iff.mp hys ▸ List.mem_map_of_mem hx
    obtain ⟨y, -, hy⟩ := List.mem_map.mp hfx
    exact ⟨y, hy.symm⟩
  · intro h
    induction xs with
    | nil => exact ⟨[], rfl⟩
    | cons x xs ih =>
      obtain ⟨y, hy⟩ := h x List.mem_cons_self
      obtain ⟨ys, hys⟩ := ih fun z hz => h z (List.mem_cons_of_mem _ hz)
      exact ⟨y :: ys, mapM_eq_some_iff.mpr (by rw [List.map_cons, List.map_cons, hy, mapM_eq_some_iff.mp hys])⟩

/-- What is collected comes from the elements. -/
theorem mem_of_mapM {f : α → Option β} {xs : List α} {ys : List β} (h : xs.mapM f = some ys) {y : β} :
    y ∈ ys ↔ ∃ x ∈ xs, f x = some y := by
  rw [← List.mem_map, mapM_eq_some_iff.mp h]
  simp

/-- A key that each element gives to what it yields is kept by the loop. -/
theorem map_of_mapM {κ : Type} {f : α → Option β} {xs : List α} {ys : List β} {key : β → κ} {key' : α → κ}
    (h : xs.mapM f = some ys) (hkey : ∀ x y, f x = some y → key y = key' x) : ys.map key = xs.map key' := by
  have hmap := mapM_eq_some_iff.mp h
  clear h
  induction xs generalizing ys with
  | nil => rw [List.map_eq_nil_iff.mp hmap.symm, List.map_nil, List.map_nil]
  | cons x xs ih =>
    obtain ⟨y, ys', rfl, hy, hys⟩ := List.map_eq_cons_iff.mp hmap.symm
    rw [List.map_cons, List.map_cons, hkey x y hy.symm, ih hys.symm]

/-- A loop that overwrites its value ends with what the last element gives. -/
theorem foldl_overwrite (p : α → Bool) (g : α → β) (xs : List α) (b : β) :
    xs.foldl (fun b x => if p x then g x else b) b = ((xs.filter p).getLast?.map g).getD b := by
  induction xs using List.reverseRecOn with
  | nil => rfl
  | append_singleton xs x ih =>
    rw [List.foldl_append, List.foldl_cons, List.foldl_nil, List.filter_append]
    by_cases hp : p x
    · rw [if_pos hp, List.filter_cons_of_pos hp, List.filter_nil, List.getLast?_concat, Option.map_some, Option.getD_some]
    · rw [if_neg hp, List.filter_cons_of_neg hp, List.filter_nil, List.append_nil, ih]

/-- Where no two elements have one key, an element is the only one with its key. -/
theorem filter_key_eq_singleton {κ : Type} [DecidableEq κ] {key : α → κ} {xs : List α} (hn : (xs.map key).Nodup) {x : α}
    (hx : x ∈ xs) : (xs.filter fun y => key y = key x) = [x] := by
  induction xs with
  | nil => cases hx
  | cons y ys ih =>
    rw [List.map_cons, List.nodup_cons] at hn
    rcases List.mem_cons.mp hx with rfl | hx
    · rw [List.filter_cons_of_pos (by rw [decide_eq_true_iff]), List.filter_eq_nil_iff.mpr]
      intro z hz hkey
      exact hn.1 (List.mem_map.mpr ⟨z, hz, of_decide_eq_true hkey⟩)
    · have hne : key y ≠ key x := fun hkey => hn.1 (hkey ▸ List.mem_map_of_mem hx)
      rw [List.filter_cons_of_neg (by rwa [decide_eq_true_iff]), ih hn.2 hx]

/-- The first pages of a list, one after another, are its beginning. -/
theorem flatMap_pages (l : List α) (n k : Nat) : (List.range k).flatMap (fun i => (l.drop (i * n)).take n) = l.take (k * n) := by
  induction k with
  | zero => rw [List.range_zero, List.flatMap_nil, Nat.zero_mul, List.take_zero]
  | succ k ih =>
    rw [List.range_succ, List.flatMap_append, ih, List.flatMap_cons, List.flatMap_nil, List.append_nil, Nat.succ_mul, List.take_add]

/-! ## Nested loops -/

/-- What is collected from the entries of a map is without repetition, if it is so from each and no two entries give the same. -/
theorem nodup_flatMap_of_keys {κ ν : Type} {l : List (κ × ν)} {f : κ × ν → List β} (hkeys : (l.map (·.1)).Nodup)
    (hf : ∀ e ∈ l, (f e).Nodup) (hkey : ∀ e ∈ l, ∀ e' ∈ l, ∀ b ∈ f e, b ∈ f e' → e.1 = e'.1) : (l.flatMap f).Nodup := by
  refine List.nodup_flatMap.mpr ⟨hf, ?_⟩
  refine (List.pairwise_map.mp hkeys).imp_of_mem ?_
  intro e e' he he' hne b hb hb'
  exact hne (hkey e he e' he' b hb hb')

/-- What is selected from a map, each with the key of its entry, is without repetition. -/
theorem nodup_filterMap_of_keys {κ ν : Type} {l : List (κ × ν)} {f : κ × ν → Option β} {key : β → κ} (hkeys : (l.map (·.1)).Nodup)
    (hkey : ∀ e ∈ l, ∀ b, f e = some b → key b = e.1) : ((l.filterMap f).map key).Nodup := by
  have hone : ∀ e ∈ l, ∀ k ∈ (f e).toList.map key, k = e.1 := by
    intro e he k hk
    obtain ⟨b, hb, rfl⟩ := List.mem_map.mp hk
    exact hkey e he b (Option.mem_toList.mp hb)
  rw [List.filterMap_eq_flatMap_toList, List.map_flatMap]
  refine nodup_flatMap_of_keys hkeys ?_ ?_
  · intro e _
    cases f e with
    | none => exact List.nodup_nil
    | some b => exact List.nodup_singleton _
  · intro e he e' he' k hk hk'
    exact (hone e he k hk).symm.trans (hone e' he' k hk')

/-! ## Since -/

/-- An element of the log is of the one kind, and all after it are of the other. -/
def Since (p q : α → Prop) (log : List α) : Prop := ∃ before a after, log = before ++ a :: after ∧ p a ∧ ∀ b ∈ after, q b

variable {p q : α → Prop}

theorem since_nil : ¬Since p q [] := by
  rintro ⟨before, a, after, hlog, -⟩
  exact List.append_ne_nil_of_right_ne_nil before (List.cons_ne_nil a after) hlog.symm

theorem Since.exists_mem {log : List α} (h : Since p q log) : ∃ a ∈ log, p a := by
  obtain ⟨before, a, after, rfl, hp, -⟩ := h
  exact ⟨a, List.mem_append_right _ List.mem_cons_self, hp⟩

/-- (step) An element that is put at the end of the log is of the one kind, or it was so before and the element is of the other. -/
theorem since_concat {log : List α} {a : α} : Since p q (log ++ [a]) ↔ p a ∨ (Since p q log ∧ q a) := by
  constructor
  · rintro ⟨before, a', after, hlog, hp, hq⟩
    rcases List.eq_nil_or_concat after with rfl | ⟨init, last, rfl⟩
    · obtain ⟨-, hlast⟩ := List.append_inj' hlog rfl
      obtain rfl := (List.cons.inj hlast).1
      exact Or.inl hp
    · rw [List.concat_eq_append, ← List.cons_append, ← List.append_assoc] at hlog
      obtain ⟨hinit, hlast⟩ := List.append_inj' hlog rfl
      obtain rfl := (List.cons.inj hlast).1
      rw [List.concat_eq_append] at hq
      exact Or.inr ⟨⟨before, a', init, hinit, hp, fun b hb => hq b (List.mem_append_left _ hb)⟩,
        hq a (List.mem_append_right _ List.mem_cons_self)⟩
  · rintro (hp | ⟨⟨before, a', after, rfl, hp, hq⟩, hqa⟩)
    · exact ⟨log, a, [], rfl, hp, fun b hb => absurd hb List.not_mem_nil⟩
    · refine ⟨before, a', after ++ [a], by rw [List.append_assoc, List.cons_append], hp, fun b hb => ?_⟩
      rcases List.mem_append.mp hb with hb | hb
      · exact hq b hb
      · rw [List.mem_singleton.mp hb]
        exact hqa

end Hexstody
