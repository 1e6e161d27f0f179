import Hexstody.Apply
import Hexstody.Library.Machine

/-!
# The journal: the State and the updates table

`update_worker` applies each update to a copy of the State, and when it is accepted stores it as a row of the updates table
and makes the copy the State. `Journal` is the State together with the rows, in the order in which they were stored. A row here
also keeps what the application took from its surroundings and what it answered. `Journal.machine` is the worker alone: any
update may come next, from anyone. No part of the code sends a snapshot, and identifiers are `Uuid::new_v4`; `Journal.Fresh` is
that condition on an update.
-/

namespace Hexstody

/-- A row of the updates table. -/
structure Row where
  update : StateUpdate
  oracle : Oracle
  result : Option UpdateResult

structure Journal where
  state : State
  rows : List Row

/-- The request that an update creates. -/
def StateUpdate.request? (u : StateUpdate) : Option WithdrawalRequest :=
  match u.body with
  | .createWithdrawalRequest info => some (.ofInfo u.created info)
  | _ => none

/-- The exchange order that an update creates. -/
def StateUpdate.order? (u : StateUpdate) : Option ExchangeOrderUpd :=
  match u.body with
  | .exchangeRequest req => some req
  | _ => none

/-- The decision on a withdrawal that an update is. -/
def StateUpdate.decision? (u : StateUpdate) : Option WithdrawalRequestDecisionInfo :=
  match u.body with
  | .withdrawalRequestDecision d => some d
  | _ => none

theorem StateUpdate.exists_decision_iff {u : StateUpdate} {P : WithdrawalRequestDecisionInfo → Prop} :
    (∃ d ∈ u.decision?, P d) ↔ match u.body with
      | .withdrawalRequestDecision d => P d
      | _ => False := by
  unfold decision?
  cases u.body <;> simp

theorem StateUpdate.forall_decision_iff {u : StateUpdate} {P : WithdrawalRequestDecisionInfo → Prop} :
    (∀ d ∈ u.decision?, P d) ↔ match u.body with
      | .withdrawalRequestDecision d => P d
      | _ => True := by
  unfold decision?
  cases u.body <;> simp

/-- The id that a row answers as confirmed. -/
def Row.confirmed? (row : Row) : Option WithdrawalRequestId :=
  match row.result with
  | some (.withdrawConfirmed id) => some id
  | _ => none

namespace Journal

/-- The requests that were ever created, as they were created. -/
def requests (j : Journal) : List WithdrawalRequest := j.rows.filterMap (·.update.request?)

/-- The exchange orders that were ever created. -/
def orders (j : Journal) : List ExchangeOrderUpd := j.rows.filterMap (·.update.order?)

/-- The ids that were ever answered as confirmed. -/
def confirmed (j : Journal) : List WithdrawalRequestId := j.rows.filterMap Row.confirmed?

/-- What the last update answered. -/
def answer (j : Journal) : Option UpdateResult := j.rows.getLast?.bind (·.result)

/-- Apply an update and store it; nothing happens when it is refused. -/
def store (j : Journal) (o : Oracle) (u : StateUpdate) : Option Journal :=
  match j.state.applyUpdate o u with
  | (s', .ok res) => some { state := s', rows := j.rows ++ [{ update := u, oracle := o, result := res }] }
  | (_, .error _) => none

/-- The worker: from the empty State, one accepted update after another. -/
def machine : Machine Journal (Oracle × StateUpdate) where
  init j := ∃ now genesisHash, j = { state := State.new now genesisHash, rows := [] }
  step j a := j.store a.1 a.2

/-- The update is no snapshot, and the id of a request or order that it creates was not used before. -/
def Fresh (j : Journal) (a : Oracle × StateUpdate) : Prop :=
  ¬a.2.body.IsSnapshot ∧
    (∀ r ∈ a.2.request?, r.id ∉ j.requests.map (·.id)) ∧ (∀ o ∈ a.2.order?, o.id ∉ j.orders.map (·.id))

instance (j : Journal) (a : Oracle × StateUpdate) : Decidable (j.Fresh a) := inferInstanceAs (Decidable (_ ∧ _ ∧ _))

end Journal

/-! ## A small wallet, for the runs that are executed -/

namespace Sample

def alice : UserId := "alice"

def uuid (n : Nat) : Uuid := ⟨BitVec.ofNat 128 n⟩

def key (n : UInt8) : PublicKey := ⟨[n]⟩

def oracle : Oracle where
  newId := uuid 0
  now := ""
  users := .stored
  currencies := .stored
  requests := .stored

/-- An update as it is handed to the worker, with the time it is stamped with. -/
def upd (t : Int) (b : UpdateBody) : Oracle × StateUpdate := (oracle, { created := ⟨t⟩, body := b })

/-- The journal before the first update. -/
def start : Journal := { state := State.new ⟨0⟩ "genesis", rows := [] }

/-- An invite for alice, and her sign-up. -/
def signup : List (Oracle × StateUpdate) :=
  [upd 1 (.genInvite { invite := ⟨uuid 1⟩, invitor := "op", label := "" }),
    upd 2 (.signup { username := alice, invite := ⟨uuid 1⟩, auth := .lightning })]

def request (n : Nat) (amount : UInt64) (t : WithdrawalRequestType) : WithdrawalRequestInfo where
  id := uuid n
  user := alice
  address := .btc { addr := "addr" }
  amount := amount
  requestType := t

def decision (n : Nat) (k : UInt8) (t : WithdrawalRequestDecisionType) : WithdrawalRequestDecisionInfo where
  userId := alice
  currency := .btc
  requestId := uuid n
  url := "url"
  signature := ⟨[]⟩
  nonce := 0
  publicKey := key k
  decisionType := t

theorem start_init : Journal.machine.init start := ⟨_, _, rfl⟩

end Sample

end Hexstody
