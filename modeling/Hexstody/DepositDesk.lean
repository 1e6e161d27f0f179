import Hexstody.History
import Hexstody.Operator
import Hexstody.Profile

/-!
# The addresses that are handed out to the users

`get_deposit_address_handle` while other tasks run. A call first waits for the mutex to see that its user is there, and gives it
back. For bitcoins it then asks the BTC module for an address. For another currency it waits for the mutex again and looks at the
addresses of the user's account: the first is answered if there is one, else the ETH module is asked, with the mutex held until
the update is sent. The address is answered as soon as its update is in the channel, so an address is handed out before it is the
user's. Between any two steps of a call others may go on, and `update_worker` may apply what was sent before.

`DepositCall.outcome_enter` says that a call nothing comes between does what `Handlers.getDepositAddressHandle` does in one go. The
channel is unbounded here and open: a full one only makes a call wait.
-/

namespace Hexstody

namespace Handlers

/-- (`allocate_address`) The address that a module answers, or its error, and the update that is sent. -/
def allocateUserAddress (userId : UserId) (currency : Currency) (answer : Except String String) :
    Except ApiError (CurrencyAddress × Option UpdateBody) :=
  match answer with
  | .ok address =>
    .ok (packedAddress currency address,
      some (.depositAddress { userId := userId, address := packedAddress currency address }))
  | .error e =>
    match currency with
    | .btc => .error (.failedGenAddress .btc)
    | _ => .error (.failedEthConnection e)

/-- (`get_deposit_address`) A new address in bitcoins each time; else the first of the account, where there is one. -/
def getUserDepositAddress (s : State) (userId : UserId) (currency : Currency) (answer : Except String String) :
    Except ApiError (CurrencyAddress × Option UpdateBody) :=
  if currency = .btc then allocateUserAddress userId currency answer
  else
    match s.users.get? userId with
    | none => .error .noUserFound
    | some user =>
      match user.currencies.get? currency with
      | none => .error (.noUserCurrency currency)
      | some info =>
        match info.depositInfo with
        | [] => allocateUserAddress userId currency answer
        | address :: _ => .ok (address, none)

/-- (`POST /deposit/address`) Whatever goes wrong once the user is found is told as an account that he does not have. -/
def getDepositAddressHandle (s : State) (userId : UserId) (currency : Currency) (answer : Except String String) :
    Except ApiError (CurrencyAddress × Option UpdateBody) :=
  match s.users.get? userId with
  | none => .error .noUserFound
  | some _ => (getUserDepositAddress s userId currency answer).mapError fun _ => .noUserCurrency currency

end Handlers

/-- A call of `get_deposit_address_handle`: what it waits for, or what it answered. -/
inductive DepositCall where
  /-- For the mutex, to see that the user is there. -/
  | entering (userId : UserId) (c : Currency)
  /-- For the mutex, to look at the addresses of the account. -/
  | lookingUp (userId : UserId) (c : Currency)
  /-- For the answer of a module. -/
  | allocating (userId : UserId) (c : Currency)
  /-- For the channel, to send the update. -/
  | sending (userId : UserId) (a : CurrencyAddress)
  | answered (userId : UserId) (c : Currency) (answer : Except ApiError CurrencyAddress)
  deriving DecidableEq

namespace DepositCall

/-- The mutex is held while an address in a currency other than bitcoin is asked for and sent. -/
def holdsState : DepositCall → Bool
  | .allocating _ c => decide (c ≠ .btc)
  | .sending _ a => decide (a.currency ≠ .btc)
  | _ => false

/-- A call sees that its user is there. -/
def enter (s : State) (userId : UserId) (c : Currency) : DepositCall :=
  match s.users.get? userId with
  | none => .answered userId c (.error .noUserFound)
  | some _ => if c = .btc then .allocating userId c else .lookingUp userId c

/-- A call looks at the addresses of the account. -/
def lookUp (s : State) (userId : UserId) (c : Currency) : DepositCall :=
  match s.currency? userId c with
  | none => .answered userId c (.error (.noUserCurrency c))
  | some info =>
    match info.depositInfo with
    | [] => .allocating userId c
    | address :: _ => .answered userId c (.ok address)

/-- A module answers. -/
def allocated (userId : UserId) (c : Currency) : Except String String → DepositCall
  | .ok address => .sending userId (Handlers.packedAddress c address)
  | .error _ => .answered userId c (.error (.noUserCurrency c))

/-- What a call comes to, and the update that it has sent, if nothing comes between. -/
def outcome (s : State) (answer : Except String String) : DepositCall → Except ApiError (CurrencyAddress × Option UpdateBody)
  | .entering userId c => Handlers.getDepositAddressHandle s userId c answer
  | .lookingUp userId c => (Handlers.getUserDepositAddress s userId c answer).mapError fun _ => .noUserCurrency c
  | .allocating userId c => (Handlers.allocateUserAddress userId c answer).mapError fun _ => .noUserCurrency c
  | .sending userId a => .ok (a, some (.depositAddress { userId := userId, address := a }))
  | .answered _ _ (.ok a) => .ok (a, none)
  | .answered _ _ (.error e) => .error e

variable {s : State} {userId : UserId} {c : Currency} {answer : Except String String}

/-- A call that has entered comes to what the handler does in one go; -/
theorem outcome_enter : (enter s userId c).outcome s answer = Handlers.getDepositAddressHandle s userId c answer := by
  unfold enter Handlers.getDepositAddressHandle
  cases s.users.get? userId with
  | none => rfl
  | some ui =>
    by_cases hc : c = .btc
    · simp only [if_pos hc, outcome, Handlers.getUserDepositAddress]
    · simp only [if_neg hc, outcome]

/-- so does one that has looked at the account, -/
theorem outcome_lookUp (hc : c ≠ .btc) : (lookUp s userId c).outcome s answer = (lookingUp userId c).outcome s answer := by
  simp only [lookUp, State.currency?, outcome, Handlers.getUserDepositAddress, if_neg hc]
  cases s.users.get? userId with
  | none => rfl
  | some user =>
    rw [Option.bind_some]
    cases hi : user.currencies.get? c with
    | none => simp only [hi]; rfl
    | some info =>
      cases hd : info.depositInfo with
      | nil => simp only [hi, hd]
      | cons address rest => simp only [hi, hd]; rfl

/-- and one that a module has answered. -/
theorem outcome_allocated : (allocated userId c answer).outcome s answer = (allocating userId c).outcome s answer := by
  cases answer with
  | ok address => rfl
  | error e => cases c <;> rfl

end DepositCall

/-- The State, the channel into `update_worker`, and every call there was. -/
structure DepositDesk where
  journal : Journal
  queue : List StateUpdate
  calls : List DepositCall

/-- One step: of the call with a number, of another sender of updates, or of `update_worker`. -/
inductive DepositAction where
  | request (userId : UserId) (c : Currency)
  | enter (n : Nat)
  | lookUp (n : Nat)
  | allocate (n : Nat) (answer : Except String String)
  | send (n : Nat) (created : NaiveDateTime)
  | other (up : StateUpdate)
  | apply (o : Oracle) (inserted : Bool)

namespace DepositDesk

/-- A call holds the mutex. -/
def stateHeld (d : DepositDesk) : Bool := d.calls.any DepositCall.holdsState

def setCall (d : DepositDesk) (n : Nat) (call : DepositCall) : DepositDesk := { d with calls := d.calls.set n call }

def step (d : DepositDesk) : DepositAction → Option DepositDesk
  | .request userId c => some { d with calls := d.calls ++ [.entering userId c] }
  | .enter n =>
    match d.calls[n]?, d.stateHeld with
    | some (.entering userId c), false => some (d.setCall n (.enter d.journal.state userId c))
    | _, _ => none
  | .lookUp n =>
    match d.calls[n]?, d.stateHeld with
    | some (.lookingUp userId c), false => some (d.setCall n (.lookUp d.journal.state userId c))
    | _, _ => none
  | .allocate n answer =>
    match d.calls[n]? with
    | some (.allocating userId c) => some (d.setCall n (.allocated userId c answer))
    | _ => none
  | .send n created =>
    match d.calls[n]? with
    | some (.sending userId a) =>
      some { d.setCall n (.answered userId a.currency (.ok a)) with
        queue := d.queue ++ [{ created := created, body := .depositAddress { userId := userId, address := a } }] }
    | _ => none
  -- nobody sends a snapshot
  | .other up =>
    match up.body with
    | .snapshot _ => none
    | _ => some { d with queue := d.queue ++ [up] }
  | .apply o inserted =>
    match d.queue, d.stateHeld with
    | up :: rest, false =>
      some { d with queue := rest, journal := if inserted then (d.journal.store o up).getD d.journal else d.journal }
    | _, _ => none

/-- From the empty State, with nothing under way. -/
def machine : Machine DepositDesk DepositAction where
  init d := ∃ now genesisHash, d = { journal := { state := State.new now genesisHash, rows := [] }, queue := [], calls := [] }
  step := step

end DepositDesk

end Hexstody
