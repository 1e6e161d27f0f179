import Hexstody.Queries
import Hexstody.World

/-!
# The process: the hot wallet, stopped and started again

The process may stop at any point; when it starts again it reads the State back from the updates table (`run_hot_wallet`), and
begins with empty channels and idle workers. `Restart` is what a restart leaves open: the order in which rows with one time are
selected, the time, and the orders in which the new hash maps are iterated over. What such a restart makes of the table is just
what `QueryState` allows (`World.exists_restart_iff`).
-/

namespace Hexstody

/-- What a restart leaves open. -/
structure Restart where
  /-- The positions of the rows in the table, as they are selected. -/
  selected : List Nat
  now : NaiveDateTime
  /-- The iteration orders, by the position among the rows that are applied. -/
  orders : Nat → Oracle

/-- A row, read back. The id and the printed time of a change of limits, which `insert_limits_req` draws anew when the row is applied
again, are taken to be those of the first time: no update reads them, whatever becomes of the requests for withdrawal. -/
def Row.readBack (kept : Column) (row : Row) (o : Oracle) : Oracle × StateUpdate :=
  ({ o with newId := row.oracle.newId, now := row.oracle.now }, { created := kept row.update.created, body := row.update.body })

namespace Restart

/-- The rows that are selected. -/
def rows (r : Restart) (table : List Row) : List Row := r.selected.filterMap (table[·]?)

/-- The updates that are applied, from the earliest to the latest. -/
def updates (kept : Column) (r : Restart) (table : List Row) : List (Oracle × StateUpdate) :=
  (queryUpdates (r.rows table)).reverse.zipIdx.map (fun p => p.1.readBack kept (r.orders p.2))

/-- Every row is selected, the latest first. -/
def Selects (kept : Column) (r : Restart) (table : List Row) : Prop :=
  r.selected.Perm (List.range table.length) ∧
    (r.rows table).Pairwise (fun a b => (kept b.update.created).nanos ≤ (kept a.update.created).nanos)

instance (kept : Column) (r : Restart) (table : List Row) : Decidable (r.Selects kept table) :=
  inferInstanceAs (Decidable (_ ∧ _))

end Restart

/-- A step of the hot wallet, or a stop and a start. -/
inductive ProcessAction (ι : Type) where
  | run (a : Action ι)
  | restart (r : Restart)

namespace World

/-- The hot wallet as it starts, with a State. -/
def restarted (w : World) (s : State) : World where
  journal := { w.journal with state := s }
  pending := []
  updates := []
  results := []
  worker := .idle
  payments := w.payments
  issued := w.issued

/-- (`run_hot_wallet`) The process starts with what it reads back; it does not start when that fails. -/
def restart (kept : Column) (genesisHash : String) (w : World) (r : Restart) : Option World :=
  if r.Selects kept w.journal.rows then
    match State.collect r.now genesisHash (r.updates kept w.journal.rows) with
    | .ok s => some (w.restarted s)
    | .error _ => none
  else none

/-- The process over some handlers, with a table that keeps times in some way, on a network with a given genesis block. -/
def process {ι : Type} (C : Client ι) (k : Clock) (kept : Column) (genesisHash : String) : Machine World (ProcessAction ι) where
  init := (machine C k).init
  step w
    | .run a => (machine C k).step w a
    | .restart r => w.restart kept genesisHash r

end World

/-! ## What a restart makes of the table -/

/-- The row at a position. -/
def RowAt (table : List Row) (row : Row) (n : Nat) : Prop := table[n]? = some row

theorem rowAt_range (table : List Row) : List.Forall₂ (RowAt table) table (List.range table.length) := by
  refine List.forall₂_iff_get.mpr ⟨by simp, fun i h₁ h₂ => ?_⟩
  simp [RowAt]

/-- The rows at some positions. -/
theorem filterMap_rowAt {table l : List Row} {positions : List Nat} (h : List.Forall₂ (RowAt table) l positions) :
    positions.filterMap (table[·]?) = l := by
  induction h with
  | nil => rfl
  | cons hrow _ ih => rw [List.filterMap_cons_some hrow, ih]

namespace Restart

variable {kept : Column} {table : List Row}

/-- What a restart selects is what the table may answer. -/
theorem selected_of_selects {r : Restart} (h : r.Selects kept table) : Selected kept table (r.rows table) := by
  obtain ⟨l, hl, hperm⟩ := List.perm_comp_forall₂ h.1 (rowAt_range table).flip
  have hrows : r.rows table = l := filterMap_rowAt hl.flip
  exact ⟨hrows ▸ hperm, h.2⟩

/-- What the table may answer is what some restart selects. -/
theorem exists_selects {l : List Row} (h : Selected kept table l) (now : NaiveDateTime) (orders : Nat → Oracle) :
    ∃ r : Restart, r.Selects kept table ∧ r.rows table = l ∧ r.now = now ∧ r.orders = orders := by
  obtain ⟨positions, hrows, hperm⟩ := List.perm_comp_forall₂ h.1 (rowAt_range table)
  have hl : positions.filterMap (table[·]?) = l := filterMap_rowAt hrows
  refine ⟨{ selected := positions, now := now, orders := orders }, ⟨hperm, ?_⟩, hl, rfl, rfl⟩
  change (positions.filterMap (table[·]?)).Pairwise _
  rw [hl]
  exact h.2

/-- The updates that a restart applies are rows read back. -/
theorem replays_updates (r : Restart) : List.Forall₂ (Replays kept) (queryUpdates (r.rows table)).reverse (r.updates kept table) := by
  refine List.forall₂_iff_get.mpr ⟨by simp [updates], fun i h₁ h₂ => ?_⟩
  simp only [updates, List.get_eq_getElem, List.getElem_map, List.getElem_zipIdx]
  exact ⟨rfl, rfl, rfl, rfl⟩

/-- Rows read back are what some restart applies. -/
theorem updates_eq_of_replays {r : Restart} {as : List (Oracle × StateUpdate)}
    (h : List.Forall₂ (Replays kept) (queryUpdates (r.rows table)).reverse as)
    (horders : ∀ n a, as[n]? = some a → r.orders n = a.1) : r.updates kept table = as := by
  obtain ⟨hlen, hget⟩ := List.forall₂_iff_get.mp h
  refine List.ext_getElem (by simp [updates, hlen]) (fun n h₁ h₂ => ?_)
  have hrow := hget n (hlen ▸ h₂) h₂
  have ho := horders n as[n] (List.getElem?_eq_getElem h₂)
  simp only [List.get_eq_getElem] at hrow
  simp only [updates, List.getElem_map, List.getElem_zipIdx, Nat.zero_add, Row.readBack, ho, ← hrow.newId, ← hrow.now,
    ← hrow.created, ← hrow.body]

end Restart

/-- A restart makes of the table just what the table may be read back to. -/
theorem World.exists_restart_iff {kept : Column} {genesisHash : String} {w w' : World} :
    (∃ r, w.restart kept genesisHash r = some w') ↔
      ∃ s, QueryState kept genesisHash w.journal.rows (.ok s) ∧ w' = w.restarted s := by
  constructor
  · rintro ⟨r, hr⟩
    unfold restart at hr
    by_cases hsel : r.Selects kept w.journal.rows
    · rw [if_pos hsel] at hr
      cases hs : State.collect r.now genesisHash (r.updates kept w.journal.rows) with
      | error e => simp [hs] at hr
      | ok s =>
        simp only [hs, Option.some.injEq] at hr
        exact ⟨s, ⟨_, _, _, Restart.selected_of_selects hsel, r.replays_updates, hs⟩, hr.symm⟩
    · rw [if_neg hsel] at hr
      cases hr
  · rintro ⟨s, ⟨l, as, now, hsel, hreplays, hs⟩, rfl⟩
    -- the iteration orders are those that the reading took, where it took any
    obtain ⟨r, hselects, hrows, rfl, horders⟩ := Restart.exists_selects hsel now (fun n => (as[n]?).elim Sample.oracle Prod.fst)
    have hupdates : r.updates kept w.journal.rows = as := by
      refine Restart.updates_eq_of_replays (hrows ▸ hreplays) (fun n a ha => ?_)
      simp only [horders, ha, Option.elim_some]
    refine ⟨r, ?_⟩
    unfold restart
    rw [if_pos hselects, hupdates]
    simp only [hs]

end Hexstody
