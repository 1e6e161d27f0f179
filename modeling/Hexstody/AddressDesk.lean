import Hexstody.History
import Hexstody.Operator

/-!
# The addresses that are handed out to the operators

`get_exchange_address` while other tasks run. A call reads the address of the exchange under the mutex; where there is none it asks
a module for an address with the mutex given back, sends an update that sets it, and answers it to the operator. Between any two
steps of a call others may read, ask and send, and `update_worker` may apply what was sent before. For a currency other than
bitcoin a call looks for the addresses of a special user, and holds the mutex from there on.

The calls are those whose signature was accepted. `AddressCall.settled_read` says that a call nothing comes between does what
`Handlers.getExchangeAddress` does in one go. The channel is unbounded here: a full one only makes a call wait. The services are
healthy: a module always answers, with any address, and the database inserts the row of every update that is accepted. What is said
of the updates in the channel is said of when they are applied, which they would not be if their rows failed.
-/

namespace Hexstody

/-- A call of `get_exchange_address`: what it waits for, or what it answered. -/
inductive AddressCall where
  /-- For the mutex, to read the address of the exchange. -/
  | reading (c : Currency)
  /-- For the mutex, to look for the special user. -/
  | lookingUp (c : Currency)
  /-- For the answer of a module. -/
  | allocating (c : Currency)
  /-- For the channel, to send the update. -/
  | sending (a : CurrencyAddress)
  | answered (c : Currency) (answer : Except OperatorError CurrencyAddress)
  deriving DecidableEq

namespace AddressCall

/-- The mutex is held while an address in a currency other than bitcoin is asked for and sent. -/
def holdsState : AddressCall → Bool
  | .allocating c => decide (c ≠ .btc)
  | .sending a => decide (a.currency ≠ .btc)
  | _ => false

/-- A call reads the address of the exchange, and starts `get_deposit_address` if there is none. -/
def read (s : State) (c : Currency) : AddressCall :=
  match s.exchangeState.addresses.get? c with
  | some address => .answered c (.ok address)
  | none =>
    match c with
    | .btc => .allocating .btc
    | c => .lookingUp c

/-- A call looks for the addresses of the special user. -/
def lookUp (s : State) (c : Currency) : AddressCall :=
  match s.currency? HEXSTODY_EXCHANGE_USER c with
  | none => .answered c (.error (.failedGenAddress c))
  | some info =>
    match info.depositInfo with
    | [] => .allocating c
    | address :: _ => .answered c (.ok address)

/-- The call goes on with the State as it is. -/
def settled (s : State) : AddressCall → AddressCall
  | .lookingUp c => lookUp s c
  | call => call

/-- The update that a call has sent when it is through, if a module answers an address. -/
def sends (address : String) : AddressCall → Except OperatorError (Option UpdateBody)
  | .allocating c => .ok (some (.exchangeAddress (Handlers.packedAddress c address)))
  | .sending a => .ok (some (.exchangeAddress a))
  | .answered _ (.error e) => .error e
  | _ => .ok none

/-- A call that nothing comes between does what the handler does. -/
theorem settled_read {Γ : OpCtx} {sd : SignatureData} {c : Currency} (s : State) (address : String)
    (hguard : Handlers.guardOpSignature Γ.ctx getExchangeAddressUri sd (Γ.currencyJson c) = .ok ()) :
    ((read s c).settled s).sends address = Handlers.getExchangeAddress Γ s sd c (some address) := by
  unfold Handlers.getExchangeAddress read
  rw [hguard]
  cases hget : s.exchangeState.addresses.get? c with
  | some a => rfl
  | none =>
    have hlook : ∀ c, (lookUp s c).sends address = match s.currency? HEXSTODY_EXCHANGE_USER c with
        | none => .error (.failedGenAddress c)
        | some info =>
          match info.depositInfo with
          | [] => Handlers.allocateAddress c (some address)
          | _ :: _ => .ok none := by
      intro c
      unfold lookUp
      cases s.currency? HEXSTODY_EXCHANGE_USER c with
      | none => rfl
      | some info => cases hd : info.depositInfo <;> simp only [hd] <;> rfl
    cases c with
    | btc => rfl
    | eth => exact hlook .eth
    | erc20 token => exact hlook (.erc20 token)

end AddressCall

/-- The State, the channel into `update_worker`, and every call there was. -/
structure AddressDesk where
  journal : Journal
  queue : List StateUpdate
  calls : List AddressCall

/-- One step: of the call with a number, of another sender of updates, or of `update_worker`. -/
inductive DeskAction where
  | request (c : Currency)
  | read (n : Nat)
  | lookUp (n : Nat)
  | allocate (n : Nat) (address : String)
  | send (n : Nat) (created : NaiveDateTime)
  | other (up : StateUpdate)
  | apply (o : Oracle)

/-- The updates that the rest of the application sends: no snapshot, no address of the exchange, and no sign-up of the reserved
name, which `signup_email` refuses. -/
def UpdateBody.fromElsewhere : UpdateBody → Bool
  | .snapshot _ => false
  | .exchangeAddress _ => false
  | .signup info => info.username != HEXSTODY_EXCHANGE_USER
  | _ => true

/-- The address of the exchange that an update sets. -/
def UpdateBody.exchangeAddress? : UpdateBody → Option CurrencyAddress
  | .exchangeAddress a => some a
  | _ => none

namespace AddressDesk

/-- A call holds the mutex. -/
def stateHeld (d : AddressDesk) : Bool := d.calls.any AddressCall.holdsState

def setCall (d : AddressDesk) (n : Nat) (call : AddressCall) : AddressDesk := { d with calls := d.calls.set n call }

def step (d : AddressDesk) : DeskAction → Option AddressDesk
  | .request c => some { d with calls := d.calls ++ [.reading c] }
  | .read n =>
    match d.calls[n]?, d.stateHeld with
    | some (.reading c), false => some (d.setCall n (.read d.journal.state c))
    | _, _ => none
  | .lookUp n =>
    match d.calls[n]?, d.stateHeld with
    | some (.lookingUp c), false => some (d.setCall n (.lookUp d.journal.state c))
    | _, _ => none
  | .allocate n address =>
    match d.calls[n]? with
    | some (.allocating c) => some (d.setCall n (.sending (Handlers.packedAddress c address)))
    | _ => none
  | .send n created =>
    match d.calls[n]? with
    | some (.sending a) =>
      some { d.setCall n (.answered a.currency (.ok a)) with
        queue := d.queue ++ [{ created := created, body := .exchangeAddress a }] }
    | _ => none
  | .other up => if up.body.fromElsewhere then some { d with queue := d.queue ++ [up] } else none
  | .apply o =>
    match d.queue, d.stateHeld with
    | up :: rest, false => some { d with queue := rest, journal := (d.journal.store o up).getD d.journal }
    | _, _ => none

/-- From the empty State, with nothing under way. -/
def machine : Machine AddressDesk DeskAction where
  init d := ∃ now genesisHash, d = { journal := { state := State.new now genesisHash, rows := [] }, queue := [], calls := [] }
  step := step

end AddressDesk

end Hexstody
