import Mathlib.Data.List.AList
import Mathlib.Data.List.Dedup
import Mathlib.Algebra.BigOperators.Group.List.Basic
import Mathlib.Algebra.Order.BigOperators.Group.List
import Mathlib.Algebra.Order.Group.Int

/-!
# Finite maps as association lists

A map from keys to values is Mathlib's `AList`: its entries in some order, each key once. A hash map iterates over its entries
in an order that nobody chooses, which a program observes when it searches for the first entry that fits: `IterOrder` is such
an order, and a search (`findVal?`) takes one. Here: the operations of such a map (`get?`, `insert`, `erase`), those that update
values in place (`mapVals`, `modify`), the search, and the sum of a measure over all values (`sumVals`), each with the lemmas
that say what it does to a lookup or to the sum. A finite set (`AssocSet`) is a list without repetition.
-/

/-- An iteration order: it lists every key of a map once, in any order. -/
structure IterOrder (κ : Type) where
  list : List κ → List κ
  perm : ∀ l, (list l).Perm l

namespace IterOrder

variable {κ : Type}

/-- The order the entries are stored in. -/
def stored : IterOrder κ := ⟨id, fun l => List.Perm.refl l⟩

theorem mem_list (o : IterOrder κ) {l : List κ} {k : κ} : k ∈ o.list l ↔ k ∈ l := (o.perm l).mem_iff

/-- One key before all others, if it is there. -/
def first [DecidableEq κ] (k : κ) : IterOrder κ where
  list l := if k ∈ l then k :: l.erase k else l
  perm l := by
    by_cases h : k ∈ l
    · rw [if_pos h]
      exact (List.perm_cons_erase h).symm
    · rw [if_neg h]

end IterOrder

/-- A finite map from `κ` to `ν`, its entries in iteration order. -/
abbrev AssocMap (κ ν : Type) : Type := AList (fun _ : κ => ν)

namespace AssocMap

variable {κ ν ω : Type}

/-- The map with no entry. -/
def empty : AssocMap κ ν := ∅

/-- The values of all entries. -/
def values (m : AssocMap κ ν) : List ν := m.entries.map (·.2)

/-- The entries, in the order they are stored in. -/
def toList (m : AssocMap κ ν) : List (κ × ν) := m.entries.map fun e => (e.1, e.2)

/-- Replace every value, in place. -/
def mapVals (m : AssocMap κ ν) (f : κ → ν → ω) : AssocMap κ ω :=
  ⟨m.entries.map (fun e => ⟨e.1, f e.1 e.2⟩), by
    have h : (m.entries.map (fun e => (⟨e.1, f e.1 e.2⟩ : Sigma fun _ : κ => ω))).keys = m.entries.keys := by
      simp [List.keys, Function.comp_def]
    have hn := m.nodupKeys
    unfold List.NodupKeys at hn ⊢
    rw [h]
    exact hn⟩

/-- The sum of a measure over all values. -/
def sumVals {A : Type} [AddCommMonoid A] (m : AssocMap κ ν) (g : ν → A) : A := (m.values.map g).sum

@[simp] theorem values_empty : (empty : AssocMap κ ν).values = [] := rfl

@[simp] theorem sumVals_empty {A : Type} [AddCommMonoid A] (g : ν → A) : (empty : AssocMap κ ν).sumVals g = 0 := rfl

theorem toList_keys (m : AssocMap κ ν) : m.toList.map (·.1) = m.keys := by
  rw [toList, List.map_map]
  rfl

theorem nodup_toList (m : AssocMap κ ν) : m.toList.Nodup := List.Nodup.of_map (·.1) (by rw [toList_keys]; exact m.nodupKeys)

variable [DecidableEq κ]

/-- The value at a key. -/
def get? (m : AssocMap κ ν) (k : κ) : Option ν := m.lookup k

/-- Whether a key has a value. -/
def contains (m : AssocMap κ ν) (k : κ) : Bool := (m.get? k).isSome

/-- Put a value at a key, in place of the old one if there is one. -/
def insert (m : AssocMap κ ν) (k : κ) (v : ν) : AssocMap κ ν := AList.insert k v m

/-- Drop a key and its value. -/
def erase (m : AssocMap κ ν) (k : κ) : AssocMap κ ν := AList.erase k m

/-- Change the value at a key, in place, if there is one. -/
def modify (m : AssocMap κ ν) (k : κ) (f : ν → ν) : AssocMap κ ν := m.mapVals (fun k' v => if k' = k then f v else v)

/-- Change the value at a key, in place, or put one there if there is none (`entry(..).and_modify(..).or_insert(..)`). -/
def modifyOrInsert (m : AssocMap κ ν) (k : κ) (f : ν → ν) (v : ν) : AssocMap κ ν :=
  if m.contains k then m.modify k f else m.insert k v

/-- What a search finds at the first entry, in an iteration order, at which it finds something. -/
def findVal? (m : AssocMap κ ν) (o : IterOrder κ) (f : κ → ν → Option ω) : Option ω :=
  (o.list m.keys).findSome? (fun k => (m.get? k).bind (f k))

/-- The map of a list of entries; of two entries with one key the later stands. -/
def ofList (l : List (κ × ν)) : AssocMap κ ν := l.foldl (fun m e => m.insert e.1 e.2) empty

/-- The entries, in an iteration order. -/
def iter (m : AssocMap κ ν) (o : IterOrder κ) : List (κ × ν) := (o.list m.keys).filterMap (fun k => (m.get? k).map (k, ·))

/-! ## Lookups -/

@[simp] theorem get?_empty (k : κ) : (empty : AssocMap κ ν).get? k = none := rfl

@[simp] theorem get?_mapVals (m : AssocMap κ ν) (f : κ → ν → ω) (k : κ) :
    (m.mapVals f).get? k = (m.get? k).map (f k) :=
  @List.dlookup_map₂ κ _ (fun _ => ν) (fun _ => ω) m.entries f k

theorem get?_modify (m : AssocMap κ ν) (k k' : κ) (f : ν → ν) :
    (m.modify k f).get? k' = if k' = k then (m.get? k').map f else m.get? k' := by
  rw [modify, get?_mapVals]
  by_cases h : k' = k
  · simp [h]
  · simp [h]

@[simp] theorem get?_modify_self (m : AssocMap κ ν) (k : κ) (f : ν → ν) :
    (m.modify k f).get? k = (m.get? k).map f := by
  rw [get?_modify, if_pos rfl]

theorem get?_insert (m : AssocMap κ ν) (k k' : κ) (v : ν) :
    (m.insert k v).get? k' = if k' = k then some v else m.get? k' := by
  by_cases h : k' = k
  · subst h
    simp [get?, insert]
  · rw [if_neg h]
    exact AList.lookup_insert_ne h

@[simp] theorem get?_insert_self (m : AssocMap κ ν) (k : κ) (v : ν) : (m.insert k v).get? k = some v := by
  rw [get?_insert, if_pos rfl]

theorem get?_modifyOrInsert (m : AssocMap κ ν) (k k' : κ) (f : ν → ν) (v : ν) :
    (m.modifyOrInsert k f v).get? k' = if k' = k then some ((m.get? k).elim v f) else m.get? k' := by
  unfold modifyOrInsert contains
  cases hk : m.get? k with
  | none =>
    rw [if_neg (by simp), get?_insert]
    rfl
  | some w =>
    rw [Option.isSome_some, if_pos rfl, get?_modify]
    by_cases h : k' = k
    · rw [if_pos h, if_pos h, h, hk]
      rfl
    · rw [if_neg h, if_neg h]

theorem get?_erase (m : AssocMap κ ν) (k k' : κ) :
    (m.erase k).get? k' = if k' = k then none else m.get? k' := by
  by_cases h : k' = k
  · subst h
    simp [get?, erase]
  · rw [if_neg h]
    exact AList.lookup_erase_ne h

/-- The entries are what the lookups return. -/
theorem mem_entries_iff (m : AssocMap κ ν) (k : κ) (v : ν) : ⟨k, v⟩ ∈ m.entries ↔ m.get? k = some v :=
  AList.mem_lookup_iff.symm

theorem mem_toList_iff (m : AssocMap κ ν) (k : κ) (v : ν) : (k, v) ∈ m.toList ↔ m.get? k = some v := by
  rw [← mem_entries_iff, toList, List.mem_map]
  constructor
  · rintro ⟨e, he, heq⟩
    cases heq
    exact he
  · intro h
    exact ⟨⟨k, v⟩, h, rfl⟩

/-- Replacements that agree at every entry are one. -/
theorem mapVals_congr {m : AssocMap κ ν} {f g : κ → ν → ω} (h : ∀ k v, m.get? k = some v → f k v = g k v) :
    m.mapVals f = m.mapVals g := by
  apply AList.ext
  refine List.map_congr_left fun e he => ?_
  rw [h e.1 e.2 ((mem_entries_iff m e.1 e.2).mp he)]

/-- A replacement that leaves every entry as it is. -/
theorem mapVals_eq_self {m : AssocMap κ ν} {f : κ → ν → ν} (h : ∀ k v, m.get? k = some v → f k v = v) : m.mapVals f = m := by
  rw [mapVals_congr (g := fun _ v => v) h]
  exact AList.ext (List.map_id _)

/-- A change that leaves the value at its key as it is. -/
theorem modify_eq_self {m : AssocMap κ ν} {k : κ} {f : ν → ν} (h : ∀ v, m.get? k = some v → f v = v) : m.modify k f = m := by
  refine mapVals_eq_self fun k' v hv => ?_
  by_cases hk : k' = k
  · rw [if_pos hk]
    exact h v (hk ▸ hv)
  · rw [if_neg hk]

/-- The values are what the lookups return. -/
theorem mem_values_iff (m : AssocMap κ ν) (v : ν) : v ∈ m.values ↔ ∃ k, m.get? k = some v := by
  simp only [values, List.mem_map]
  constructor
  · rintro ⟨⟨k, w⟩, he, rfl⟩
    exact ⟨k, (mem_entries_iff m k w).mp he⟩
  · rintro ⟨k, hk⟩
    exact ⟨⟨k, v⟩, (mem_entries_iff m k v).mpr hk, rfl⟩

theorem mem_keys_iff {m : AssocMap κ ν} {k : κ} : k ∈ m.keys ↔ ∃ v, m.get? k = some v := by
  rw [← Option.isSome_iff_exists]
  exact AList.lookup_isSome.symm

theorem mem_keys_of_get? {m : AssocMap κ ν} {k : κ} {v : ν} (h : m.get? k = some v) : k ∈ m.keys := mem_keys_iff.mpr ⟨v, h⟩

/-- A key stays one when a value is changed or put in. -/
theorem mem_keys_modifyOrInsert {m : AssocMap κ ν} {k : κ} (hk : k ∈ m.keys) (k' : κ) (f : ν → ν) (v : ν) :
    k ∈ (m.modifyOrInsert k' f v).keys := by
  obtain ⟨w, hw⟩ := mem_keys_iff.mp hk
  rw [mem_keys_iff, get?_modifyOrInsert]
  by_cases h : k = k'
  · exact ⟨_, if_pos h⟩
  · exact ⟨w, by rw [if_neg h, hw]⟩

/-- What is iterated over is what the lookups return. -/
theorem mem_iter_iff {m : AssocMap κ ν} {o : IterOrder κ} {k : κ} {v : ν} : (k, v) ∈ m.iter o ↔ m.get? k = some v := by
  simp only [iter, List.mem_filterMap, Option.map_eq_some_iff]
  constructor
  · rintro ⟨k', -, w, hw, heq⟩
    obtain ⟨rfl, rfl⟩ := Prod.mk.inj heq
    exact hw
  · intro h
    exact ⟨k, o.mem_list.mpr (mem_keys_of_get? h), v, h, rfl⟩

/-- Every entry once, in an iteration order. -/
theorem iter_perm (m : AssocMap κ ν) (o : IterOrder κ) : (m.iter o).Perm m.toList := by
  have hself : m.keys.filterMap (fun k => (m.get? k).map (k, ·)) = m.toList := by
    unfold toList AList.keys List.keys
    rw [List.filterMap_map, ← List.filterMap_eq_map]
    refine List.filterMap_congr fun e he => ?_
    rw [Function.comp_apply, (mem_entries_iff m e.1 e.2).mp he]
    rfl
  rw [← hself]
  exact (o.perm m.keys).filterMap _

theorem iter_values_perm (m : AssocMap κ ν) (o : IterOrder κ) : ((m.iter o).map (·.2)).Perm m.values := by
  refine ((m.iter_perm o).map (·.2)).trans (List.Perm.of_eq ?_)
  rw [toList, values, List.map_map]
  rfl

theorem iter_keys_nodup (m : AssocMap κ ν) (o : IterOrder κ) : ((m.iter o).map (·.1)).Nodup := by
  rw [((m.iter_perm o).map (·.1)).nodup_iff, toList_keys]
  exact m.nodupKeys

/-- A map of a list holds what is in the list. -/
theorem mem_of_get?_ofList {l : List (κ × ν)} {k : κ} {v : ν} (h : (ofList l).get? k = some v) : (k, v) ∈ l := by
  have key : ∀ (l : List (κ × ν)) (m : AssocMap κ ν), (l.foldl (fun m e => m.insert e.1 e.2) m).get? k = some v →
      (k, v) ∈ l ∨ m.get? k = some v := by
    intro l
    induction l with
    | nil => exact fun m h => Or.inr h
    | cons e l ih =>
      intro m h
      rcases ih _ h with hm | hm
      · exact Or.inl (List.mem_cons_of_mem _ hm)
      · rw [get?_insert] at hm
        by_cases hk : k = e.1
        · rw [if_pos hk] at hm
          exact Or.inl (List.mem_cons.mpr (Or.inl (Prod.ext hk (Option.some.inj hm).symm)))
        · rw [if_neg hk] at hm
          exact Or.inr hm
  rcases key l empty h with hm | hm
  · exact hm
  · cases hm

/-- The entries of a map, entered from the last to the first, are the map. -/
theorem ofList_reverse_toList (m : AssocMap κ ν) : ofList m.toList.reverse = m := by
  rw [ofList, List.foldl_reverse]
  obtain ⟨l, hl⟩ := m
  induction l with
  | nil => rfl
  | cons e l ih =>
    have hn := List.nodupKeys_cons.mp hl
    have hins : (⟨l, hn.2⟩ : AssocMap κ ν).insert e.1 e.2 = ⟨e :: l, hl⟩ := AList.insert_of_notMem hn.1
    exact (congrArg (·.insert e.1 e.2) (ih hn.2)).trans hins

/-- A map of a list that has one value for a key holds that value. -/
theorem get?_ofList_of_unique {l : List (κ × ν)} {k : κ} {v : ν} (hm : (k, v) ∈ l) (hu : ∀ w, (k, w) ∈ l → w = v) :
    (ofList l).get? k = some v := by
  have key : ∀ (l : List (κ × ν)) (m : AssocMap κ ν), ((k, v) ∈ l ∨ ∃ w, m.get? k = some w) →
      ((l.foldl (fun m e => m.insert e.1 e.2) m).get? k).isSome = true := by
    intro l
    induction l with
    | nil =>
      rintro m (h | ⟨w, hw⟩)
      · cases h
      · rw [List.foldl_nil, hw]
        rfl
    | cons e l ih =>
      rintro m h
      refine ih _ ?_
      rw [get?_insert]
      by_cases hk : k = e.1
      · rw [if_pos hk]
        exact Or.inr ⟨_, rfl⟩
      · rw [if_neg hk]
        rcases h with h | h
        · rcases List.mem_cons.mp h with rfl | h
          · exact absurd rfl hk
          · exact Or.inl h
        · exact Or.inr h
  obtain ⟨w, hw⟩ := Option.isSome_iff_exists.mp (key l empty (Or.inl hm))
  have heq := hu w (mem_of_get?_ofList hw)
  subst heq
  exact hw

/-- The map holds the values of a function, at the keys that meet a condition. -/
def Tabulates (m : AssocMap κ ν) (p : κ → Prop) (g : κ → ν) : Prop := ∀ k v, m.get? k = some v ↔ p k ∧ v = g k

/-- A map of a list of values of a function holds them. -/
theorem tabulates_ofList {l : List (κ × ν)} {g : κ → ν} (h : ∀ e ∈ l, e.2 = g e.1) :
    (ofList l).Tabulates (fun k => ∃ v, (k, v) ∈ l) g := by
  intro k v
  constructor
  · intro hget
    have hm := mem_of_get?_ofList hget
    exact ⟨⟨v, hm⟩, h _ hm⟩
  · rintro ⟨⟨w, hw⟩, rfl⟩
    have hwg : w = g k := h _ hw
    subst hwg
    exact get?_ofList_of_unique hw fun v hv => h _ hv

/-- What holds the values at some keys holds them at others just when these are the same keys. -/
theorem Tabulates.congr_iff {m : AssocMap κ ν} {p q : κ → Prop} {g : κ → ν} (h : m.Tabulates p g) :
    m.Tabulates q g ↔ ∀ k, p k ↔ q k := by
  constructor
  · intro h' k
    have hboth := (h k (g k)).symm.trans (h' k (g k))
    rwa [and_iff_left rfl, and_iff_left rfl] at hboth
  · intro hpq k v
    rw [h k v, hpq k]

/-- What a search finds, it finds at some key. -/
theorem findVal?_eq_some {m : AssocMap κ ν} {o : IterOrder κ} {f : κ → ν → Option ω} {x : ω}
    (h : m.findVal? o f = some x) : ∃ k v, m.get? k = some v ∧ f k v = some x := by
  obtain ⟨k, -, hx⟩ := List.exists_of_findSome?_eq_some h
  obtain ⟨v, hv, hf⟩ := Option.bind_eq_some_iff.mp hx
  exact ⟨k, v, hv, hf⟩

/-- A search finds nothing when there is nothing to find at any key. -/
theorem findVal?_eq_none_iff {m : AssocMap κ ν} {o : IterOrder κ} {f : κ → ν → Option ω} :
    m.findVal? o f = none ↔ ∀ k v, m.get? k = some v → f k v = none := by
  simp only [findVal?, List.findSome?_eq_none_iff]
  constructor
  · intro h k v hk
    have hb := h k (o.mem_list.mpr (mem_keys_of_get? hk))
    rw [hk] at hb
    exact hb
  · intro h k _
    cases hk : m.get? k with
    | none => rfl
    | some v => exact h k v hk

/-- A search that begins at an entry finds what it finds there. -/
theorem findVal?_first {m : AssocMap κ ν} {f : κ → ν → Option ω} {k : κ} {v : ν} {x : ω} (hk : m.get? k = some v)
    (hf : f k v = some x) : m.findVal? (IterOrder.first k) f = some x := by
  have hl : (IterOrder.first k).list m.keys = k :: m.keys.erase k := if_pos (mem_keys_of_get? hk)
  unfold findVal?
  rw [hl, List.findSome?_cons, hk, Option.bind_some, hf]

/-- Searches that agree at every entry find the same. -/
theorem findVal?_congr {m : AssocMap κ ν} {o : IterOrder κ} {f g : κ → ν → Option ω}
    (h : ∀ k v, m.get? k = some v → f k v = g k v) : m.findVal? o f = m.findVal? o g := by
  unfold findVal?
  have hfun : ∀ k, (m.get? k).bind (f k) = (m.get? k).bind (g k) := by
    intro k
    cases hk : m.get? k with
    | none => rfl
    | some v => exact h k v hk
  simp only [hfun]

/-- Where all that can be found is one thing, a search finds it, in whatever order it goes. -/
theorem findVal?_eq_of_unique {m : AssocMap κ ν} {f : κ → ν → Option ω} (o o' : IterOrder κ)
    (h : ∀ k v k' v' x x', m.get? k = some v → f k v = some x → m.get? k' = some v' → f k' v' = some x' → x = x') :
    m.findVal? o f = m.findVal? o' f := by
  cases hx : m.findVal? o f with
  | none => exact (findVal?_eq_none_iff.mpr (findVal?_eq_none_iff.mp hx)).symm
  | some x =>
    obtain ⟨k, v, hk, hf⟩ := findVal?_eq_some hx
    cases hy : m.findVal? o' f with
    | none =>
      have hn := findVal?_eq_none_iff.mp hy k v hk
      rw [hf] at hn
      cases hn
    | some y =>
      obtain ⟨k', v', hk', hf'⟩ := findVal?_eq_some hy
      exact congrArg some (h k v k' v' x y hk hf hk' hf')

/-! ## Sums over the values -/

variable {A : Type} [AddCommMonoid A]

/-- The entries of a map that holds a value at a key are that entry and the entries of the map without it. -/
theorem entries_perm_of_get? {m : AssocMap κ ν} {k : κ} {v : ν} (hk : m.get? k = some v) :
    m.entries.Perm (⟨k, v⟩ :: (m.erase k).entries) := by
  have hs : (List.dlookup k m.entries).isSome = true := by
    have h1 : List.dlookup k m.entries = some v := hk
    rw [h1]
    rfl
  obtain ⟨b, l₁, l₂, -, he, hke⟩ := List.exists_of_kerase (List.dlookup_isSome.mp hs)
  have hb : m.get? k = some b := (mem_entries_iff m k b).mp (by rw [he]; simp)
  rw [hk] at hb
  obtain rfl := Option.some.inj hb
  have herase : (m.erase k).entries = l₁ ++ l₂ := hke
  rw [herase, he]
  exact List.perm_middle

/-- The sum over a map is the part of the value at a key and the sum over the rest. -/
theorem sumVals_erase_add (m : AssocMap κ ν) (g : ν → A) (k : κ) :
    (m.erase k).sumVals g + (m.get? k).elim 0 g = m.sumVals g := by
  cases hk : m.get? k with
  | none =>
    have hn : k ∉ m.entries.keys := List.dlookup_eq_none.mp hk
    have he : m.erase k = m := AList.ext (List.kerase_of_notMem_keys hn)
    simp [he]
  | some v =>
    have hs := (((entries_perm_of_get? hk).map (·.2)).map g).sum_eq
    simp only [List.map_cons, List.sum_cons] at hs
    simp only [sumVals, values, Option.elim_some]
    rw [hs, add_comm]

/-- An insertion puts the new value's part in place of the old one's. -/
theorem sumVals_insert_add (m : AssocMap κ ν) (g : ν → A) (k : κ) (v : ν) :
    (m.insert k v).sumVals g + (m.get? k).elim 0 g = m.sumVals g + g v := by
  have he : (m.insert k v).entries = ⟨k, v⟩ :: (m.erase k).entries := AList.entries_insert
  have h : (m.insert k v).sumVals g = g v + (m.erase k).sumVals g := by
    simp only [sumVals, values, he, List.map_cons, List.sum_cons]
  rw [h, add_assoc, sumVals_erase_add, add_comm]

/-- A change in place at a key leaves the map without that key as it was. -/
theorem erase_modify (m : AssocMap κ ν) (k : κ) (f : ν → ν) : (m.modify k f).erase k = m.erase k := by
  apply AList.ext
  have key : ∀ l : List (Sigma fun _ : κ => ν), l.keys.Nodup →
      List.kerase k (l.map (fun e => ⟨e.1, if e.1 = k then f e.2 else e.2⟩)) = List.kerase k l := by
    intro l
    induction l with
    | nil => intro _; rfl
    | cons e l ih =>
      intro hn
      rw [List.keys_cons, List.nodup_cons] at hn
      by_cases hk : k = e.1
      · rw [List.map_cons, List.kerase_cons_eq (by exact hk), List.kerase_cons_eq hk]
        -- the key does not occur again, so the rest is left as it was
        refine (List.map_congr_left ?_).trans (List.map_id _)
        intro e' he'
        have hne : e'.1 ≠ k := fun h => hn.1 (hk ▸ h ▸ List.mem_keys_of_mem he')
        simp [hne]
      · have hne : ¬e.1 = k := fun h => hk h.symm
        rw [List.map_cons, List.kerase_cons_ne (by exact hk), List.kerase_cons_ne hk, ih hn.2]
        simp [hne]
  exact key m.entries m.nodupKeys

/-- A change in place at a key changes only the part of the value there. -/
theorem sumVals_modify_add (m : AssocMap κ ν) (g : ν → A) (k : κ) (f : ν → ν) :
    (m.modify k f).sumVals g + (m.get? k).elim 0 g = m.sumVals g + ((m.get? k).map f).elim 0 g := by
  have h1 := sumVals_erase_add (m.modify k f) g k
  have h2 := sumVals_erase_add m g k
  rw [get?_modify_self, erase_modify] at h1
  rw [← h1, ← h2]
  exact add_right_comm _ _ _

omit [DecidableEq κ] in
omit [DecidableEq κ] in
theorem sumVals_nonneg (m : AssocMap κ ν) {g : ν → Int} (h : ∀ v, 0 ≤ g v) : 0 ≤ m.sumVals g := by
  refine List.sum_nonneg fun n hn => ?_
  obtain ⟨v, -, rfl⟩ := List.mem_map.mp hn
  exact h v

omit [DecidableEq κ] in
omit [DecidableEq κ] in
/-- Values that count for nothing come to nothing. -/
theorem sumVals_eq_zero {m : AssocMap κ ν} {g : ν → A} (h : ∀ v ∈ m.values, g v = 0) : m.sumVals g = 0 := by
  refine List.sum_eq_zero fun n hn => ?_
  obtain ⟨v, hv, rfl⟩ := List.mem_map.mp hn
  exact h v hv

end AssocMap

/-- A finite set, its elements in iteration order. -/
abbrev AssocSet (α : Type) : Type := {l : List α // l.Nodup}

namespace AssocSet

variable {α : Type}

/-- The set with no element. -/
def empty : AssocSet α := ⟨[], List.nodup_nil⟩

variable [DecidableEq α]

/-- The set of the elements of a list. -/
def ofList (l : List α) : AssocSet α := ⟨l.dedup, l.nodup_dedup⟩

theorem ofList_val (s : AssocSet α) : ofList s.1 = s := Subtype.ext s.2.dedup

end AssocSet
