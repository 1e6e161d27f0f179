import Hexstody.Library.AssocMap
import Hexstody.Library.Machine

/-!
# The cache of tickers

The exchange rates that the runtime state keeps (`hexstody-runtime-db`), by pairs of symbols, and who changes them: the three lookups,
which ask the provider for what is not there, and `ticker_worker`, which from time to time asks for all pairs again. A lookup holds the
lock of the runtime state to its end; the worker takes it twice, once to read the pairs and once to put the new rates in their place.

The provider is any function of the texts of two symbols, and answers what it is asked for. Of its answers `TickerClient` reads the
keys back as symbols, of which only those that are not tokens are written as their text.
-/

namespace Hexstody

/-- Generalized tickers. -/
inductive Symbol where
  | usd
  | rub
  | btc
  | eth
  | erc20 (ticker : String)
  deriving DecidableEq, Repr

namespace Symbol

def symbol : Symbol → String
  | .usd => "USD"
  | .rub => "RUB"
  | .btc => "BTC"
  | .eth => "ETH"
  | .erc20 ticker => ticker

/-- The symbol that a key of a JSON object is read as; a variant with content is none. -/
def ofKey (k : String) : Option Symbol :=
  if k = "USD" then some .usd else if k = "RUB" then some .rub else if k = "BTC" then some .btc else if k = "ETH" then some .eth else none

end Symbol

/-- The rates of pairs of symbols, by the first and then by the second. -/
abbrev CachedTickers (ρ : Type) := AssocMap Symbol (AssocMap Symbol ρ)

variable {ρ : Type} (provider : String → String → ρ)

namespace TickerClient

/-- The object that is answered to `data/price?fsym=..&tsyms=..`. -/
def price (fsym : String) (tsyms : List String) : AssocMap String ρ := AssocMap.ofList (tsyms.map fun t => (t, provider fsym t))

/-- Symbol to Symbol ticker. -/
def symbolToSymbol (from' to' : Symbol) : Option ρ := (price provider from'.symbol [to'.symbol]).get? to'.symbol

/-- Concrete symbol to many symbols request; nothing, if a key of the answer is no symbol. -/
def symbolToSymbols (from' : Symbol) (to' : List Symbol) : Option (AssocMap Symbol ρ) :=
  ((price provider from'.symbol (to'.map Symbol.symbol)).toList.mapM fun e => (Symbol.ofKey e.1).map (·, e.2)).map AssocMap.ofList

end TickerClient

namespace CachedTickers

variable (c : CachedTickers ρ)

/-- The rate of a pair, if it is cached. -/
def rate? (from' to' : Symbol) : Option ρ := (c.get? from').bind (·.get? to')

def symbolToSymbol (from' to' : Symbol) : CachedTickers ρ × Option ρ :=
  match c.rate? from' to' with
  | some rate => (c, some rate)
  | none =>
    match TickerClient.symbolToSymbol provider from' to' with
    | none => (c, none)
    | some rate => (c.modify from' (·.insert to' rate), some rate)

/-- What of a request is not in the rates of its first symbol. -/
def missing (submap : AssocMap Symbol ρ) (to' : List Symbol) : List Symbol := to'.filter fun t => !submap.contains t

/-- What of it is there. -/
def hits (submap : AssocMap Symbol ρ) (to' : List Symbol) : List (Symbol × ρ) := to'.filterMap fun t => (submap.get? t).map (t, ·)

/-- The rates, by the texts of the symbols. -/
def byText (l : List (Symbol × ρ)) : AssocMap String ρ := AssocMap.ofList (l.map fun e => (e.1.symbol, e.2))

/-- The object that is answered, before it is decoded into what the caller asks for. -/
def symbolToSymbolsGeneric (from' : Symbol) (to' : List Symbol) : CachedTickers ρ × Option (AssocMap String ρ) :=
  match c.get? from' with
  | none =>
    match TickerClient.symbolToSymbols provider from' to' with
    | none => (c, none)
    | some res => (c.insert from' res, some (byText res.toList))
  | some submap =>
    if missing submap to' = [] then (c, some (byText (hits submap to')))
    else
      match TickerClient.symbolToSymbols provider from' (missing submap to') with
      | none => (c, none)
      | some res => (c.insert from' res, some (byText res.toList))

def symbolToSymbols (from' : Symbol) (to' : List Symbol) : CachedTickers ρ × Option (AssocMap Symbol ρ) :=
  match c.get? from' with
  | none =>
    match TickerClient.symbolToSymbols provider from' to' with
    | none => (c, none)
    | some res => (c.insert from' res, some res)
  | some submap =>
    if missing submap to' = [] then (c, some (AssocMap.ofList (hits submap to')))
    else
      match TickerClient.symbolToSymbols provider from' (missing submap to') with
      | none => (c, none)
      | some res => (c.insert from' res, some (AssocMap.ofList (hits submap to' ++ res.toList)))

def trackedPairs : AssocMap Symbol (List Symbol) := c.mapVals fun _ submap => submap.keys

/-- The rates that the worker puts in place: those of the pairs that are answered. -/
def refreshed (pairs : List (Symbol × List Symbol)) : CachedTickers ρ :=
  AssocMap.ofList (pairs.filterMap fun e => (TickerClient.symbolToSymbols provider e.1 e.2).map (e.1, ·))

end CachedTickers

/-- A lookup in the runtime state. -/
inductive TickerCall where
  | symbolToSymbol (from' to' : Symbol)
  | symbolToSymbolsGeneric (from' : Symbol) (to' : List Symbol)
  | symbolToSymbols (from' : Symbol) (to' : List Symbol)
  deriving DecidableEq, Repr

inductive TickerAction where
  | call (call : TickerCall)
  /-- The worker reads the tracked pairs. -/
  | readPairs
  /-- It has asked for all of them, in an order of the hash map, and replaces the cache. -/
  | replace (order : IterOrder Symbol)

structure TickerState (ρ : Type) where
  cachedTickers : CachedTickers ρ
  /-- The pairs that the worker has read. -/
  pairs : Option (AssocMap Symbol (List Symbol))

namespace TickerState

/-- The cache after a lookup. -/
def afterCall (c : CachedTickers ρ) : TickerCall → CachedTickers ρ
  | .symbolToSymbol from' to' => (c.symbolToSymbol provider from' to').1
  | .symbolToSymbolsGeneric from' to' => (c.symbolToSymbolsGeneric provider from' to').1
  | .symbolToSymbols from' to' => (c.symbolToSymbols provider from' to').1

def step (st : TickerState ρ) : TickerAction → Option (TickerState ρ)
  | .call call => some { st with cachedTickers := afterCall provider st.cachedTickers call }
  | .readPairs => some { st with pairs := some st.cachedTickers.trackedPairs }
  | .replace order => st.pairs.map fun pairs => { cachedTickers := .refreshed provider (pairs.iter order), pairs := none }

/-- The runtime state, from its start. -/
def machine : Machine (TickerState ρ) TickerAction where
  init st := st = { cachedTickers := AssocMap.empty, pairs := none }
  step := step provider

end TickerState

end Hexstody
