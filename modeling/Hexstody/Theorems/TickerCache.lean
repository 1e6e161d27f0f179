import Hexstody.Library.Lists
import Hexstody.Tickers

/-!
# The cache of tickers

Whether the cache shows. The rates that are cached are always the provider's (`Faithful`), so that a single pair is answered right. For
several pairs the answer of the provider replaces what was cached for the first symbol, and `symbolToSymbolsGeneric` then answers
nothing else. `tickers_transparent_iff` says when a lookup answers what was asked and keeps what was cached, in every state that lookups
and refreshes lead to.
-/

namespace Hexstody

variable {ρ : Type} {provider : String → String → ρ}

/-! ## The provider -/

namespace Symbol

/-- A symbol that is read from a key is written as that key. -/
theorem symbol_of_ofKey {k : String} {t : Symbol} (h : ofKey k = some t) : t.symbol = k := by
  unfold ofKey at h
  split_ifs at h with h1 h2 h3 h4 <;> cases h <;> simp [symbol, *]

/-- The symbol is no token. -/
def Plain (t : Symbol) : Prop := ∀ ticker, t ≠ .erc20 ticker

/-- Those that are not tokens, and no others, are read back from their text. -/
theorem ofKey_symbol_iff {t : Symbol} : ofKey t.symbol = some t ↔ t.Plain := by
  cases t with
  | erc20 ticker =>
    refine iff_of_false (fun h => ?_) (fun h => h ticker rfl)
    unfold ofKey at h
    split_ifs at h <;> cases h
  | _ => exact iff_of_true (by decide) nofun

theorem plain_of_ofKey {k : String} {t : Symbol} (h : ofKey k = some t) : t.Plain := by
  rw [← ofKey_symbol_iff, symbol_of_ofKey h, h]

end Symbol

namespace TickerClient

/-- The symbols that the answer to a request is read as. -/
def Answered (to' : List Symbol) (d : Symbol) : Prop := ∃ t ∈ to', Symbol.ofKey t.symbol = some d

theorem price_tabulates (fsym : String) (tsyms : List String) :
    (price provider fsym tsyms).Tabulates (· ∈ tsyms) (provider fsym) := by
  refine (AssocMap.tabulates_ofList fun e he => ?_).congr_iff.mpr fun k => ?_
  · obtain ⟨t, -, rfl⟩ := List.mem_map.mp he
    rfl
  · constructor
    · rintro ⟨v, hv⟩
      obtain ⟨t, ht, heq⟩ := List.mem_map.mp hv
      exact (Prod.mk.inj heq).1 ▸ ht
    · exact fun hk => ⟨_, List.mem_map_of_mem hk⟩

theorem mem_price {fsym : String} {to' : List Symbol} {k : String} {v : ρ} :
    (k, v) ∈ (price provider fsym (to'.map Symbol.symbol)).toList ↔ (∃ t ∈ to', t.symbol = k) ∧ v = provider fsym k := by
  rw [AssocMap.mem_toList_iff, price_tabulates fsym (to'.map Symbol.symbol) k v]
  exact and_congr List.mem_map Iff.rfl

theorem symbolToSymbol_eq (from' to' : Symbol) :
    symbolToSymbol provider from' to' = some (provider from'.symbol to'.symbol) :=
  (price_tabulates _ _ _ _).mpr ⟨List.mem_singleton_self _, rfl⟩

/-- An answer has the rates of what it is read as. -/
theorem symbolToSymbols_tabulates {from' : Symbol} {to' : List Symbol} {res : AssocMap Symbol ρ}
    (h : symbolToSymbols provider from' to' = some res) :
    res.Tabulates (Answered to') (fun d => provider from'.symbol d.symbol) := by
  obtain ⟨l, hl, rfl⟩ := Option.map_eq_some_iff.mp h
  have hmem : ∀ d r, (d, r) ∈ l ↔ Answered to' d ∧ r = provider from'.symbol d.symbol := by
    intro d r
    rw [mem_of_mapM hl]
    constructor
    · rintro ⟨⟨k, v⟩, he, hread⟩
      obtain ⟨d', hd, heq⟩ := Option.map_eq_some_iff.mp hread
      obtain ⟨rfl, rfl⟩ := Prod.mk.inj heq
      obtain ⟨⟨t, ht, rfl⟩, hv⟩ := mem_price.mp he
      exact ⟨⟨t, ht, hd⟩, by rw [hv, Symbol.symbol_of_ofKey hd]⟩
    · rintro ⟨⟨t, ht, hd⟩, rfl⟩
      exact ⟨(t.symbol, provider from'.symbol t.symbol), mem_price.mpr ⟨⟨t, ht, rfl⟩, rfl⟩,
        by rw [hd, Symbol.symbol_of_ofKey hd]; rfl⟩
  refine (AssocMap.tabulates_ofList fun e he => ((hmem e.1 e.2).mp he).2).congr_iff.mpr fun d => ?_
  exact ⟨fun ⟨r, hr⟩ => ((hmem d r).mp hr).1, fun hd => ⟨_, (hmem d _).mpr ⟨hd, rfl⟩⟩⟩

/-- A request is answered just when each of its texts is read as a symbol. -/
theorem symbolToSymbols_isSome_iff {from' : Symbol} {to' : List Symbol} :
    (∃ res, symbolToSymbols provider from' to' = some res) ↔ ∀ t ∈ to', ∃ d, Symbol.ofKey t.symbol = some d := by
  have hmap : (∃ res, symbolToSymbols provider from' to' = some res) ↔
      ∃ l, (price provider from'.symbol (to'.map Symbol.symbol)).toList.mapM
        (fun e => (Symbol.ofKey e.1).map (·, e.2)) = some l := by
    constructor
    · rintro ⟨res, hres⟩
      obtain ⟨l, hl, -⟩ := Option.map_eq_some_iff.mp hres
      exact ⟨l, hl⟩
    · rintro ⟨l, hl⟩
      exact ⟨_, Option.map_eq_some_iff.mpr ⟨l, hl, rfl⟩⟩
  rw [hmap, mapM_isSome_iff]
  constructor
  · intro h t ht
    obtain ⟨y, hy⟩ := h (t.symbol, provider from'.symbol t.symbol) (mem_price.mpr ⟨⟨t, ht, rfl⟩, rfl⟩)
    obtain ⟨d, hd, -⟩ := Option.map_eq_some_iff.mp hy
    exact ⟨d, hd⟩
  · rintro h ⟨k, v⟩ he
    obtain ⟨⟨t, ht, rfl⟩, -⟩ := mem_price.mp he
    obtain ⟨d, hd⟩ := h t ht
    exact ⟨(d, v), Option.map_eq_some_iff.mpr ⟨d, hd, rfl⟩⟩

end TickerClient

/-! ## The cache -/

namespace CachedTickers

variable (provider) in
/-- What is cached is what the provider would answer. -/
def Faithful (c : CachedTickers ρ) : Prop := ∀ from' to' r, c.rate? from' to' = some r → r = provider from'.symbol to'.symbol

/-- No pair is removed. -/
def Keeps (c c' : CachedTickers ρ) : Prop := ∀ from' to' r, c.rate? from' to' = some r → ∃ r', c'.rate? from' to' = some r'

/-- A pair that is asked for and is not cached. -/
def Uncached (c : CachedTickers ρ) (from' : Symbol) (to' : List Symbol) (t : Symbol) : Prop := t ∈ to' ∧ c.rate? from' t = none

/-- All that is asked for is cached; or else what is cached for the first symbol is among what the provider answers now. -/
def Refetches (c : CachedTickers ρ) (from' : Symbol) (to' : List Symbol) : Prop :=
  (∀ t, ¬c.Uncached from' to' t) ∨
    ∀ d r, c.rate? from' d = some r → ∃ t, c.Uncached from' to' t ∧ Symbol.ofKey t.symbol = some d

variable {c : CachedTickers ρ} {from' d t : Symbol} {to' : List Symbol} {submap res : AssocMap Symbol ρ}

theorem rate?_of_get? (hc : c.get? from' = some submap) (t : Symbol) : c.rate? from' t = submap.get? t := by
  rw [rate?, hc, Option.bind_some]

theorem rate?_of_none (hc : c.get? from' = none) (t : Symbol) : c.rate? from' t = none := by
  rw [rate?, hc, Option.bind_none]

theorem rate?_insert (c : CachedTickers ρ) (from' : Symbol) (res : AssocMap Symbol ρ) (f t : Symbol) :
    rate? (c.insert from' res) f t = if f = from' then res.get? t else c.rate? f t := by
  rw [rate?, AssocMap.get?_insert]
  by_cases hf : f = from'
  · rw [if_pos hf, if_pos hf, Option.bind_some]
  · rw [if_neg hf, if_neg hf, rate?]

theorem mem_missing (hc : c.get? from' = some submap) : t ∈ missing submap to' ↔ c.Uncached from' to' t := by
  rw [missing, List.mem_filter, Uncached, rate?_of_get? hc, AssocMap.contains]
  cases submap.get? t <;> simp

theorem mem_hits {r : ρ} (hc : c.get? from' = some submap) : (t, r) ∈ hits submap to' ↔ t ∈ to' ∧ c.rate? from' t = some r := by
  rw [hits, List.mem_filterMap, rate?_of_get? hc]
  constructor
  · rintro ⟨t', ht', heq⟩
    obtain ⟨r', hr', heq⟩ := Option.map_eq_some_iff.mp heq
    obtain ⟨rfl, rfl⟩ := Prod.mk.inj heq
    exact ⟨ht', hr'⟩
  · rintro ⟨ht, hr⟩
    exact ⟨t, ht, Option.map_eq_some_iff.mpr ⟨r, hr, rfl⟩⟩

/-- Rates that are the provider's, by the texts of their symbols. -/
theorem byText_tabulates {l : List (Symbol × ρ)} (h : ∀ e ∈ l, e.2 = provider from'.symbol e.1.symbol) :
    (byText l).Tabulates (fun k => ∃ t r, (t, r) ∈ l ∧ t.symbol = k) (provider from'.symbol) := by
  refine (AssocMap.tabulates_ofList fun e he => ?_).congr_iff.mpr fun k => ?_
  · obtain ⟨e', he', rfl⟩ := List.mem_map.mp he
    exact h e' he'
  · constructor
    · rintro ⟨v, hv⟩
      obtain ⟨e, he, heq⟩ := List.mem_map.mp hv
      exact ⟨e.1, e.2, he, (Prod.mk.inj heq).1⟩
    · rintro ⟨t, r, hm, rfl⟩
      exact ⟨r, List.mem_map.mpr ⟨(t, r), hm, rfl⟩⟩

/-! ### What stays right -/

theorem Faithful.insert (hf : c.Faithful provider) (hres : TickerClient.symbolToSymbols provider from' to' = some res) :
    Faithful provider (c.insert from' res) := by
  intro f t r hr
  rw [rate?_insert] at hr
  split at hr
  · rename_i heq
    rw [heq]
    exact ((TickerClient.symbolToSymbols_tabulates hres t r).mp hr).2
  · exact hf f t r hr

theorem Faithful.refreshed (pairs : List (Symbol × List Symbol)) : Faithful provider (refreshed provider pairs) := by
  intro f t r hr
  obtain ⟨submap, hsub, hr⟩ := Option.bind_eq_some_iff.mp hr
  obtain ⟨⟨f', to'⟩, -, heq⟩ := List.mem_filterMap.mp (AssocMap.mem_of_get?_ofList hsub)
  obtain ⟨res, hres, heq⟩ := Option.map_eq_some_iff.mp heq
  obtain ⟨rfl, rfl⟩ := Prod.mk.inj heq
  exact ((TickerClient.symbolToSymbols_tabulates hres t r).mp hr).2

/-- A new answer keeps what was cached just when it has it. -/
theorem keeps_insert_iff (hres : TickerClient.symbolToSymbols provider from' to' = some res) :
    Keeps c (c.insert from' res) ↔ ∀ d r, c.rate? from' d = some r → TickerClient.Answered to' d := by
  have htab := TickerClient.symbolToSymbols_tabulates hres
  constructor
  · intro h d r hr
    obtain ⟨r', hr'⟩ := h from' d r hr
    rw [rate?_insert, if_pos rfl] at hr'
    exact ((htab d r').mp hr').1
  · intro h f d r hr
    rw [rate?_insert]
    split
    · rename_i heq
      exact ⟨_, (htab d _).mpr ⟨h d r (heq ▸ hr), rfl⟩⟩
    · exact ⟨r, hr⟩

theorem Keeps.refl (c : CachedTickers ρ) : Keeps c c := fun _ _ r hr => ⟨r, hr⟩

/-! ### One pair -/

theorem rate?_modify_insert (from' to' : Symbol) (rate : ρ) (f t : Symbol) :
    rate? (c.modify from' (·.insert to' rate)) f t =
      if f = from' ∧ t = to' then (c.get? from').map fun _ => rate else c.rate? f t := by
  rw [rate?, AssocMap.get?_modify]
  by_cases hf : f = from'
  · subst hf
    rw [if_pos rfl, rate?]
    cases c.get? f with
    | none => simp
    | some submap =>
      rw [Option.map_some, Option.bind_some, AssocMap.get?_insert]
      by_cases ht : t = to' <;> simp [ht]
  · rw [if_neg hf, if_neg (fun h => hf h.1), rate?]

/-- The cache after a lookup of one pair: as before, but for the pair. -/
theorem symbolToSymbol_cases (provider : String → String → ρ) (c : CachedTickers ρ) (from' to' : Symbol) :
    (c.rate? from' to' ≠ none ∧ c.symbolToSymbol provider from' to' = (c, c.rate? from' to')) ∨
      c.rate? from' to' = none ∧ c.symbolToSymbol provider from' to' =
        (c.modify from' (·.insert to' (provider from'.symbol to'.symbol)), some (provider from'.symbol to'.symbol)) := by
  unfold symbolToSymbol
  cases hr : c.rate? from' to' with
  | some rate => exact Or.inl ⟨nofun, rfl⟩
  | none =>
    rw [TickerClient.symbolToSymbol_eq]
    exact Or.inr ⟨rfl, rfl⟩

theorem Faithful.symbolToSymbol (hf : c.Faithful provider) (from' to' : Symbol) :
    Faithful provider (c.symbolToSymbol provider from' to').1 := by
  rcases symbolToSymbol_cases provider c from' to' with ⟨-, heq⟩ | ⟨-, heq⟩
  · rw [heq]
    exact hf
  · rw [heq]
    intro f t r hr
    rw [rate?_modify_insert] at hr
    split at hr
    · rename_i hft
      obtain ⟨submap, -, rfl⟩ := Option.map_eq_some_iff.mp hr
      rw [hft.1, hft.2]
    · exact hf f t r hr

/-- The rate of a pair is answered, and nothing is removed. -/
theorem symbolToSymbol_transparent (hf : c.Faithful provider) (from' to' : Symbol) :
    (c.symbolToSymbol provider from' to').2 = some (provider from'.symbol to'.symbol) ∧
      Keeps c (c.symbolToSymbol provider from' to').1 := by
  rcases symbolToSymbol_cases provider c from' to' with ⟨hne, heq⟩ | ⟨hnone, heq⟩
  · obtain ⟨r, hr⟩ := Option.ne_none_iff_exists'.mp hne
    rw [heq]
    exact ⟨hr.trans (congrArg some (hf _ _ r hr)), .refl c⟩
  · rw [heq]
    refine ⟨rfl, fun f t r hr => ⟨r, ?_⟩⟩
    rw [rate?_modify_insert, if_neg]
    · exact hr
    · rintro ⟨rfl, rfl⟩
      rw [hnone] at hr
      cases hr

/-! ### Several pairs -/

variable (provider) in
/-- The answer has an entry for every symbol that is asked for, and no other. -/
def Exact (from' : Symbol) (to' : List Symbol) (answer : Option (AssocMap Symbol ρ)) : Prop :=
  ∃ m, answer = some m ∧ m.Tabulates (· ∈ to') fun t => provider from'.symbol t.symbol

variable (provider) in
/-- The same, of an answer by texts. -/
def ExactByText (from' : Symbol) (to' : List Symbol) (answer : Option (AssocMap String ρ)) : Prop :=
  ∃ m, answer = some m ∧ m.Tabulates (fun k => ∃ t ∈ to', t.symbol = k) (provider from'.symbol)

/-- Every text that the provider is asked for is read back as a symbol. -/
def Readable (c : CachedTickers ρ) (from' : Symbol) (to' : List Symbol) : Prop :=
  ∀ t, c.Uncached from' to' t → ∃ d, Symbol.ofKey t.symbol = some d

section Fetching

variable {miss : List Symbol} (hmiss : ∀ t, t ∈ miss ↔ c.Uncached from' to' t)

include hmiss

theorem readable_of_fetched (hres : TickerClient.symbolToSymbols provider from' miss = some res) : c.Readable from' to' := by
  intro t ht
  exact TickerClient.symbolToSymbols_isSome_iff.mp ⟨res, hres⟩ t ((hmiss t).mpr ht)

theorem not_readable_of_none (hres : TickerClient.symbolToSymbols provider from' miss = none) : ¬c.Readable from' to' := by
  intro h
  obtain ⟨res, hsome⟩ := TickerClient.symbolToSymbols_isSome_iff.mpr fun t ht => h t ((hmiss t).mp ht)
  cases hres.symm.trans hsome

/-- If something is fetched, or nothing was cached, what was cached has to be fetched again. -/
theorem refetches_iff (h : miss ≠ [] ∨ ∀ d, c.rate? from' d = none) :
    c.Refetches from' to' ↔ ∀ d r, c.rate? from' d = some r → TickerClient.Answered miss d := by
  have hanswered : ∀ d, TickerClient.Answered miss d ↔ ∃ t, c.Uncached from' to' t ∧ Symbol.ofKey t.symbol = some d := by
    intro d
    simp only [TickerClient.Answered, hmiss]
  simp only [Refetches, hanswered]
  refine or_iff_right_of_imp fun hall d r hr => ?_
  rcases h with hne | hnone
  · obtain ⟨t, ht⟩ := List.exists_mem_of_ne_nil miss hne
    exact absurd ((hmiss t).mp ht) (hall t)
  · cases (hnone d).symm.trans hr

/-- Symbols that are fetched are answered under themselves just when they are no tokens. -/
theorem tabulates_fetched_iff {m : AssocMap Symbol ρ} {g : Symbol → ρ}
    (hm : m.Tabulates (fun k => (k ∈ to' ∧ ∃ r, c.rate? from' k = some r) ∨ TickerClient.Answered miss k) g) :
    m.Tabulates (· ∈ to') g ↔ ∀ t, c.Uncached from' to' t → t.Plain := by
  rw [hm.congr_iff]
  constructor
  · intro h t ht
    rcases (h t).mpr ht.1 with ⟨-, r, hr⟩ | ⟨x, -, hx⟩
    · cases ht.2.symm.trans hr
    · exact Symbol.plain_of_ofKey hx
  · intro h k
    constructor
    · rintro (⟨hk, -⟩ | ⟨x, hx, hk⟩)
      · exact hk
      · have hunc := (hmiss x).mp hx
        obtain rfl := Option.some.inj ((Symbol.ofKey_symbol_iff.mpr (h x hunc)).symm.trans hk)
        exact hunc.1
    · intro hk
      cases hr : c.rate? from' k with
      | some r => exact Or.inl ⟨hk, r, rfl⟩
      | none => exact Or.inr ⟨k, (hmiss k).mpr ⟨hk, hr⟩, Symbol.ofKey_symbol_iff.mpr (h k ⟨hk, hr⟩)⟩

/-- An answer of what was fetched alone is exact if what was cached is fetched again. -/
theorem exactByText_fetched (hres : TickerClient.symbolToSymbols provider from' miss = some res)
    (hall : ∀ d r, c.rate? from' d = some r → TickerClient.Answered miss d) :
    ExactByText provider from' to' (some (byText res.toList)) := by
  have htab := TickerClient.symbolToSymbols_tabulates hres
  have hmem : ∀ t r, (t, r) ∈ res.toList ↔ TickerClient.Answered miss t ∧ r = provider from'.symbol t.symbol :=
    fun t r => (AssocMap.mem_toList_iff _ _ _).trans (htab t r)
  refine ⟨_, rfl, (byText_tabulates fun e he => ((hmem e.1 e.2).mp he).2).congr_iff.mpr fun k => ?_⟩
  constructor
  · rintro ⟨t, r, ht, rfl⟩
    obtain ⟨⟨x, hx, hread⟩, -⟩ := (hmem t r).mp ht
    exact ⟨x, ((hmiss x).mp hx).1, (Symbol.symbol_of_ofKey hread).symm⟩
  · rintro ⟨t, ht, rfl⟩
    have hanswered : ∃ d, TickerClient.Answered miss d ∧ d.symbol = t.symbol := by
      cases hr : c.rate? from' t with
      | some r => exact ⟨t, hall t r hr, rfl⟩
      | none =>
        obtain ⟨d, hd⟩ := readable_of_fetched hmiss hres t ⟨ht, hr⟩
        exact ⟨d, ⟨t, (hmiss t).mpr ⟨ht, hr⟩, hd⟩, Symbol.symbol_of_ofKey hd⟩
    obtain ⟨d, hd, hsym⟩ := hanswered
    exact ⟨d, _, (hmem d _).mpr ⟨hd, rfl⟩, hsym⟩

end Fetching

/-- What is answered when all is cached. -/
theorem hits_tabulate (hf : c.Faithful provider) (hc : c.get? from' = some submap) :
    (AssocMap.ofList (hits submap to')).Tabulates (fun k => k ∈ to' ∧ ∃ r, c.rate? from' k = some r)
      fun t => provider from'.symbol t.symbol := by
  refine (AssocMap.tabulates_ofList fun e he => hf _ _ _ ((mem_hits hc).mp he).2).congr_iff.mpr fun k => ?_
  exact ⟨fun ⟨r, hr⟩ => let h := (mem_hits hc).mp hr; ⟨h.1, r, h.2⟩, fun ⟨hk, r, hr⟩ => ⟨r, (mem_hits hc).mpr ⟨hk, hr⟩⟩⟩

/-- What is answered when a part was fetched. -/
theorem hits_append_tabulate (hf : c.Faithful provider) (hc : c.get? from' = some submap) {miss : List Symbol}
    (hres : TickerClient.symbolToSymbols provider from' miss = some res) :
    (AssocMap.ofList (hits submap to' ++ res.toList)).Tabulates
      (fun k => (k ∈ to' ∧ ∃ r, c.rate? from' k = some r) ∨ TickerClient.Answered miss k)
      fun t => provider from'.symbol t.symbol := by
  have htab := TickerClient.symbolToSymbols_tabulates hres
  have hmem : ∀ t r, (t, r) ∈ res.toList ↔ TickerClient.Answered miss t ∧ r = provider from'.symbol t.symbol :=
    fun t r => (AssocMap.mem_toList_iff _ _ _).trans (htab t r)
  refine (AssocMap.tabulates_ofList fun e he => ?_).congr_iff.mpr fun k => ?_
  · rcases List.mem_append.mp he with he | he
    · exact hf _ _ _ ((mem_hits hc).mp he).2
    · exact ((hmem e.1 e.2).mp he).2
  · simp only [List.mem_append, exists_or, hmem, mem_hits hc, exists_and_left, exists_eq, and_true]

/-- With all of it cached, whatever is asked for can be read, and need not be fetched. -/
theorem missing_eq_nil_iff (hc : c.get? from' = some submap) : missing submap to' = [] ↔ ∀ t, ¬c.Uncached from' to' t := by
  rw [List.eq_nil_iff_forall_not_mem]
  exact forall_congr' fun t => not_congr (mem_missing hc)

/-- A lookup of several pairs answers all of them and removes none, just when those that are not cached are no tokens, and all are
cached or nothing is lost in fetching. -/
theorem symbolToSymbols_transparent_iff (hf : c.Faithful provider) (from' : Symbol) (to' : List Symbol) :
    (Exact provider from' to' (c.symbolToSymbols provider from' to').2 ∧ Keeps c (c.symbolToSymbols provider from' to').1) ↔
      (∀ t, c.Uncached from' to' t → t.Plain) ∧ c.Refetches from' to' := by
  have hread : (∀ t, c.Uncached from' to' t → t.Plain) → c.Readable from' to' :=
    fun h t ht => ⟨t, Symbol.ofKey_symbol_iff.mpr (h t ht)⟩
  have hexact : ∀ m : AssocMap Symbol ρ, Exact provider from' to' (some m) ↔
      m.Tabulates (· ∈ to') fun t => provider from'.symbol t.symbol :=
    fun m => ⟨fun ⟨_, heq, hm⟩ => Option.some.inj heq ▸ hm, fun hm => ⟨m, rfl, hm⟩⟩
  unfold symbolToSymbols
  cases hc : c.get? from' with
  | none =>
    have hnone := rate?_of_none hc
    have hmiss : ∀ t, t ∈ to' ↔ c.Uncached from' to' t := fun t => (and_iff_left (hnone t)).symm
    cases hres : TickerClient.symbolToSymbols provider from' to' with
    | none => exact iff_of_false (fun h => nomatch h.1) fun h => not_readable_of_none hmiss hres (hread h.1)
    | some res =>
      dsimp only
      rw [hexact, keeps_insert_iff hres, refetches_iff hmiss (Or.inr hnone)]
      refine and_congr_left' (tabulates_fetched_iff hmiss ?_)
      refine (TickerClient.symbolToSymbols_tabulates hres).congr_iff.mpr fun k => (or_iff_right ?_).symm
      rintro ⟨-, r, hr⟩
      cases (hnone k).symm.trans hr
  | some submap =>
    dsimp only
    by_cases hmissing : missing submap to' = []
    · have hall := (missing_eq_nil_iff hc).mp hmissing
      rw [if_pos hmissing]
      refine iff_of_true ⟨(hexact _).mpr ((hits_tabulate hf hc).congr_iff.mpr fun k => ?_), .refl c⟩
        ⟨fun t ht => absurd ht (hall t), Or.inl hall⟩
      exact and_iff_left_of_imp fun hk => Option.ne_none_iff_exists'.mp fun hnone => hall k ⟨hk, hnone⟩
    · rw [if_neg hmissing]
      have hmiss : ∀ t, t ∈ missing submap to' ↔ c.Uncached from' to' t := fun t => mem_missing hc
      cases hres : TickerClient.symbolToSymbols provider from' (missing submap to') with
      | none => exact iff_of_false (fun h => nomatch h.1) fun h => not_readable_of_none hmiss hres (hread h.1)
      | some res =>
        dsimp only
        rw [hexact, keeps_insert_iff hres, refetches_iff hmiss (Or.inl hmissing)]
        exact and_congr_left' (tabulates_fetched_iff hmiss (hits_append_tabulate hf hc hres))

/-- The same of the generic lookup, which asks of what is not cached only that its text can be read. -/
theorem symbolToSymbolsGeneric_transparent_iff (hf : c.Faithful provider) (from' : Symbol) (to' : List Symbol) :
    (ExactByText provider from' to' (c.symbolToSymbolsGeneric provider from' to').2 ∧
        Keeps c (c.symbolToSymbolsGeneric provider from' to').1) ↔
      c.Readable from' to' ∧ c.Refetches from' to' := by
  unfold symbolToSymbolsGeneric
  cases hc : c.get? from' with
  | none =>
    have hnone := rate?_of_none hc
    have hmiss : ∀ t, t ∈ to' ↔ c.Uncached from' to' t := fun t => (and_iff_left (hnone t)).symm
    cases hres : TickerClient.symbolToSymbols provider from' to' with
    | none => exact iff_of_false (fun h => nomatch h.1) fun h => not_readable_of_none hmiss hres h.1
    | some res =>
      dsimp only
      rw [keeps_insert_iff hres, refetches_iff hmiss (Or.inr hnone)]
      exact and_congr_left fun hall => iff_of_true (exactByText_fetched hmiss hres hall) (readable_of_fetched hmiss hres)
  | some submap =>
    dsimp only
    by_cases hmissing : missing submap to' = []
    · have hall := (missing_eq_nil_iff hc).mp hmissing
      rw [if_pos hmissing]
      refine iff_of_true ⟨⟨_, rfl, ?_⟩, .refl c⟩ ⟨fun t ht => absurd ht (hall t), Or.inl hall⟩
      refine (byText_tabulates fun e he => hf _ _ _ ((mem_hits hc).mp he).2).congr_iff.mpr fun k => ?_
      constructor
      · rintro ⟨t, r, ht, rfl⟩
        exact ⟨t, ((mem_hits hc).mp ht).1, rfl⟩
      · rintro ⟨t, ht, rfl⟩
        obtain ⟨r, hr⟩ := Option.ne_none_iff_exists'.mp fun hnone => hall t ⟨ht, hnone⟩
        exact ⟨t, r, (mem_hits hc).mpr ⟨ht, hr⟩, rfl⟩
    · rw [if_neg hmissing]
      have hmiss : ∀ t, t ∈ missing submap to' ↔ c.Uncached from' to' t := fun t => mem_missing hc
      cases hres : TickerClient.symbolToSymbols provider from' (missing submap to') with
      | none => exact iff_of_false (fun h => nomatch h.1) fun h => not_readable_of_none hmiss hres h.1
      | some res =>
        dsimp only
        rw [keeps_insert_iff hres, refetches_iff hmiss (Or.inl hmissing)]
        exact and_congr_left fun hall => iff_of_true (exactByText_fetched hmiss hres hall) (readable_of_fetched hmiss hres)

/-- Both lookups leave the same cache. -/
theorem symbolToSymbolsGeneric_fst (c : CachedTickers ρ) (from' : Symbol) (to' : List Symbol) :
    (c.symbolToSymbolsGeneric provider from' to').1 = (c.symbolToSymbols provider from' to').1 := by
  unfold symbolToSymbolsGeneric symbolToSymbols
  cases c.get? from' with
  | none => cases TickerClient.symbolToSymbols provider from' to' <;> rfl
  | some submap =>
    dsimp only
    split
    · rfl
    · cases TickerClient.symbolToSymbols provider from' (missing submap to') <;> rfl

/-- The cache is left as it is, or an answer is put in. -/
theorem symbolToSymbols_fst (provider : String → String → ρ) (c : CachedTickers ρ) (from' : Symbol) (to' : List Symbol) :
    (c.symbolToSymbols provider from' to').1 = c ∨ ∃ miss res, TickerClient.symbolToSymbols provider from' miss = some res ∧
      (c.symbolToSymbols provider from' to').1 = c.insert from' res := by
  unfold symbolToSymbols
  cases c.get? from' with
  | none =>
    cases hres : TickerClient.symbolToSymbols provider from' to' with
    | none => exact Or.inl rfl
    | some res => exact Or.inr ⟨to', res, hres, rfl⟩
  | some submap =>
    dsimp only
    split
    · exact Or.inl rfl
    · cases hres : TickerClient.symbolToSymbols provider from' (missing submap to') with
      | none => exact Or.inl rfl
      | some res => exact Or.inr ⟨_, res, hres, rfl⟩

theorem Faithful.symbolToSymbols (hf : c.Faithful provider) (from' : Symbol) (to' : List Symbol) :
    Faithful provider (c.symbolToSymbols provider from' to').1 := by
  rcases symbolToSymbols_fst provider c from' to' with heq | ⟨miss, res, hres, heq⟩
  · rw [heq]
    exact hf
  · rw [heq]
    exact hf.insert hres

/-- Whatever is looked up, the cache stays faithful. -/
theorem Faithful.afterCall (hf : c.Faithful provider) (call : TickerCall) :
    Faithful provider (TickerState.afterCall provider c call) := by
  cases call with
  | symbolToSymbol from' to' => exact hf.symbolToSymbol from' to'
  | symbolToSymbolsGeneric from' to' =>
    rw [TickerState.afterCall, symbolToSymbolsGeneric_fst]
    exact hf.symbolToSymbols from' to'
  | symbolToSymbols from' to' => exact hf.symbolToSymbols from' to'

end CachedTickers

namespace TickerState

open CachedTickers

variable {st : TickerState ρ}

/-- (run) -/
theorem faithful_of_reachable (h : (machine provider).Reachable Machine.anyStep st) : st.cachedTickers.Faithful provider := by
  refine Machine.Reachable.invariant (I := fun st : TickerState ρ => st.cachedTickers.Faithful provider) h ?_ ?_
  · rintro _ rfl f t r hr
    cases hr
  · intro st a st' _ hf _ hs
    cases a with
    | call call =>
      obtain rfl := Option.some.inj hs
      exact hf.afterCall call
    | readPairs =>
      obtain rfl := Option.some.inj hs
      exact hf
    | replace order =>
      obtain ⟨pairs, -, rfl⟩ := Option.map_eq_some_iff.mp hs
      exact Faithful.refreshed _

variable (provider) in
/-- A lookup answers what the provider would, entry by entry, and removes no pair from the cache. -/
def Transparent (c : CachedTickers ρ) : TickerCall → Prop
  | .symbolToSymbol from' to' =>
    (c.symbolToSymbol provider from' to').2 = some (provider from'.symbol to'.symbol) ∧
      Keeps c (c.symbolToSymbol provider from' to').1
  | .symbolToSymbolsGeneric from' to' =>
    ExactByText provider from' to' (c.symbolToSymbolsGeneric provider from' to').2 ∧
      Keeps c (c.symbolToSymbolsGeneric provider from' to').1
  | .symbolToSymbols from' to' =>
    Exact provider from' to' (c.symbolToSymbols provider from' to').2 ∧ Keeps c (c.symbolToSymbols provider from' to').1

/-- What a lookup needs of the cache: what it has to fetch can be read back, and takes nothing away. -/
def Serves (c : CachedTickers ρ) : TickerCall → Prop
  | .symbolToSymbol _ _ => True
  | .symbolToSymbolsGeneric from' to' => c.Readable from' to' ∧ c.Refetches from' to'
  | .symbolToSymbols from' to' => (∀ t, c.Uncached from' to' t → t.Plain) ∧ c.Refetches from' to'

theorem transparent_iff_of_faithful {c : CachedTickers ρ} (hf : c.Faithful provider) (call : TickerCall) :
    Transparent provider c call ↔ Serves c call := by
  cases call with
  | symbolToSymbol from' to' => exact iff_of_true (symbolToSymbol_transparent hf from' to') trivial
  | symbolToSymbolsGeneric from' to' => exact symbolToSymbolsGeneric_transparent_iff hf from' to'
  | symbolToSymbols from' to' => exact symbolToSymbols_transparent_iff hf from' to'

/-- After any lookups and refreshes, a lookup is transparent just when the cache serves it. -/
theorem tickers_transparent_iff (provider : String → String → ρ) (st : TickerState ρ)
    (h : (machine provider).Reachable Machine.anyStep st) (call : TickerCall) :
    Transparent provider st.cachedTickers call ↔ Serves st.cachedTickers call :=
  transparent_iff_of_faithful (faithful_of_reachable h) call

end TickerState

namespace Sample

def oneForOne : String → String → Nat := fun _ _ => 1

def emptyCache : TickerState Nat := { cachedTickers := AssocMap.empty, pairs := none }

/-- The price of bitcoin in dollars was asked for. -/
def dollarsCached (st : TickerState Nat) : Bool :=
  st.cachedTickers.rate? .btc .usd == some 1 && st.cachedTickers.rate? .btc .rub == none

theorem exists_dollarsCached : ∃ st : TickerState Nat,
    (TickerState.machine oneForOne).Reachable Machine.anyStep st ∧ st.cachedTickers.rate? .btc .usd = some 1 ∧
      st.cachedTickers.rate? .btc .rub = none := by
  obtain ⟨st, hst, hq⟩ := Machine.exists_reachable (M := TickerState.machine oneForOne) (P := Machine.anyStep)
    (s := emptyCache) [.call (.symbolToSymbolsGeneric .btc [.usd])] (q := dollarsCached) rfl (by decide)
  obtain ⟨husd, hrub⟩ := Bool.and_eq_true_iff.mp hq
  exact ⟨st, hst, beq_iff_eq.mp husd, beq_iff_eq.mp hrub⟩

end Sample

namespace TickerState

open Sample in
/-- The price in dollars is asked for again. -/
theorem tickers_transparent_dollars : ∃ st : TickerState Nat, st.cachedTickers.rate? .btc .usd = some 1 ∧
    Transparent oneForOne st.cachedTickers (.symbolToSymbols .btc [.usd]) := by
  obtain ⟨st, hst, husd, -⟩ := exists_dollarsCached
  refine ⟨st, husd, (tickers_transparent_iff oneForOne st hst _).mpr ?_⟩
  have hall : ∀ t, ¬st.cachedTickers.Uncached .btc [.usd] t := by
    rintro t ⟨ht, hnone⟩
    obtain rfl := List.mem_singleton.mp ht
    cases husd.symm.trans hnone
  exact ⟨fun t ht => absurd ht (hall t), Or.inl hall⟩

open Sample in
/-- Where the price in dollars is cached, the prices in dollars and in roubles are answered without it, and it is lost. -/
theorem tickers_not_transparent : ¬∀ (ρ : Type) (provider : String → String → ρ) (st : TickerState ρ),
    (machine provider).Reachable Machine.anyStep st → ∀ call, Transparent provider st.cachedTickers call := by
  intro hall
  obtain ⟨st, hst, husd, hrub⟩ := exists_dollarsCached
  have hserves := (transparent_iff_of_faithful (faithful_of_reachable hst) _).mp
    (hall Nat oneForOne st hst (.symbolToSymbolsGeneric .btc [.usd, .rub]))
  rcases hserves.2 with hcached | hagain
  · exact hcached .rub ⟨by decide, hrub⟩
  · obtain ⟨t, ⟨ht, hnone⟩, hread⟩ := hagain .usd 1 husd
    rcases List.mem_pair.mp ht with rfl | rfl
    · cases husd.symm.trans hnone
    · exact absurd hread (by decide)

end TickerState

end Hexstody
