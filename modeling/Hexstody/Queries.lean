import Hexstody.Journal

/-!
# Reading the updates table back

What the hot wallet does when it starts (`queries.rs`): it selects the rows by the time they are stamped with, the latest first,
down to the first snapshot (`query_updates`), and applies them to the empty State from the earliest to the latest
(`query_state`). The database is not modelled further: `Column` is what its column of times keeps of a stamp, and rows with one
time come in any order. The identifiers and printed times that an application took are those of the row; the hash maps are new
ones, and are iterated over in orders of their own.
-/

namespace Hexstody

/-- What the column `created` of the table keeps of a stamp. -/
abbrev Column : Type := NaiveDateTime → NaiveDateTime

/-- (`select * from updates order by created desc`) -/
def Selected (kept : Column) (rows l : List Row) : Prop :=
  l.Perm rows ∧ l.Pairwise (fun a b => (kept b.update.created).nanos ≤ (kept a.update.created).nanos)

/-- Query all history of updates until we hit a snapshot or the beginning of time. -/
def queryUpdates : List Row → List Row
  | [] => []
  | row :: rows => if row.update.body.IsSnapshot then [row] else row :: queryUpdates rows

/-- A row that is read back and applied again, with the id and the time that it drew the first time. -/
structure Replays (kept : Column) (row : Row) (a : Oracle × StateUpdate) : Prop where
  created : a.2.created = kept row.update.created
  body : a.2.body = row.update.body
  newId : a.1.newId = row.oracle.newId
  now : a.1.now = row.oracle.now

/-- Reconstruct state from chain of updates and snapshots in the database. -/
def QueryState (kept : Column) (genesisHash : String) (rows : List Row) (out : Except StateUpdateErr State) : Prop :=
  ∃ l as now, Selected kept rows l ∧ List.Forall₂ (Replays kept) (queryUpdates l).reverse as ∧
    State.collect now genesisHash as = out

/-- States that are equal up to the time of the last change. -/
structure State.Same (s s' : State) : Prop where
  users : s'.users = s.users
  btcState : s'.btcState = s.btcState
  invites : s'.invites = s.invites
  exchangeState : s'.exchangeState = s.exchangeState

/-- A restart brings the State back: it succeeds, whatever the database and the hash maps leave open. -/
def Journal.Restores (kept : Column) (genesisHash : String) (j : Journal) : Prop :=
  ∀ out, QueryState kept genesisHash j.rows out → ∃ s, out = .ok s ∧ j.state.Same s

end Hexstody
