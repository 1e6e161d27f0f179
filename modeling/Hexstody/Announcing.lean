import Hexstody.ColdWallet
import Hexstody.Library.Machine
import Hexstody.Library.Notify
import Hexstody.Scan

/-!
# The notifications of the BTC module

`node_worker` notifies twice when a round has found something: the handlers of `poll_events`, which wait for that, or for the time-out,
before they take the events; and `cold_wallet_worker`, which then looks at the balance. A round holds the mutex of the `ScanState` until
both are notified, and a handler that goes on needs the mutex to take the events. The server may drop a handler wherever it waits, when
its client is gone.
-/

namespace Hexstody

/-- A round of `node_worker` notifies: there are events, or a new block. -/
def ScanState.finds (st : ScanState) (answer : Except String ListSinceBlockResult) : Bool :=
  match answer with
  | .error _ => false
  | .ok result => !(scanFrom result).1.isEmpty || st.lastBlock != (scanFrom result).2

/-- A round that finds nothing changes nothing. -/
theorem ScanState.nodeWorker_of_not_finds {st : ScanState} {answer : Except String ListSinceBlockResult} (count : Except String UInt64)
    (h : st.finds answer = false) : st.nodeWorker answer count = st := by
  unfold nodeWorker
  cases answer with
  | error e => rfl
  | ok result => exact if_neg (Bool.not_eq_true _ ▸ h)

/-- Where `node_worker` is in its loop. -/
inductive NodeTask where
  /-- It sleeps; the mutex is free. -/
  | sleeping
  /-- The handlers are to be notified. -/
  | announcing
  /-- `cold_wallet_worker` is to be notified. -/
  | announcingTx
  deriving DecidableEq, Repr

namespace NodeTask

/-- The notifications of the handlers that are still owed. -/
def owed : NodeTask → Nat
  | .announcing => 1
  | _ => 0

/-- The notifications of `cold_wallet_worker` that are still owed. -/
def owedTx : NodeTask → Nat
  | .sleeping => 0
  | _ => 1

end NodeTask

/-- Where `cold_wallet_worker` is in its loop. -/
inductive ColdTask where
  | asking
  | waiting
  | checking
  /-- It panicked. -/
  | ended
  deriving DecidableEq, Repr

structure Announcing where
  scan : ScanState
  stateNotify : Notify Nat
  txNotify : Notify Unit
  node : NodeTask
  /-- The handlers that wait for the mutex. -/
  ready : List Nat
  cold : ColdTask
  /-- What `cold_wallet_worker` was answered by the node. -/
  balances : List (Except String UInt64)
  /-- How many rounds have found something. -/
  finds : Nat
  /-- How many handlers went on because of a notification. -/
  woken : Nat
  /-- How often `cold_wallet_worker` went on. -/
  checks : Nat
  /-- How many rounds had found something when `cold_wallet_worker` last went on. -/
  seen : Nat

inductive AnnouncingAction where
  /-- A round of `node_worker`, until it notifies. -/
  | scan (answer : Except String ListSinceBlockResult) (count : Except String UInt64)
  | announce
  | announceTx
  /-- A handler starts to wait. -/
  | poll (h : Nat)
  | wake (h : Nat)
  | timeOut (h : Nat)
  /-- A handler has the mutex, and takes the events. -/
  | take (h : Nat)
  /-- A handler is dropped. -/
  | drop (h : Nat)
  | coldAsk
  | coldWake
  | coldCheck (answer : Except String UInt64)

namespace Announcing

variable (coldAmount : UInt64) (coldAddress : Address)

/-- `cold_wallet_worker` goes on. -/
def startCheck (m : Announcing) : Announcing := { m with cold := .checking, checks := m.checks + 1, seen := m.finds }

def step (m : Announcing) : AnnouncingAction → Option Announcing
  | .scan answer count =>
    if m.node = .sleeping then
      if m.scan.finds answer then
        some { m with scan := m.scan.nodeWorker answer count, node := .announcing, finds := m.finds + 1 }
      else some { m with scan := m.scan.nodeWorker answer count }
    else none
  | .announce =>
    if m.node = .announcing then some { m with stateNotify := m.stateNotify.notifyOne, node := .announcingTx } else none
  | .announceTx => if m.node = .announcingTx then some { m with txNotify := m.txNotify.notifyOne, node := .sleeping } else none
  | .poll h =>
    if h ∈ m.stateNotify.waiting ++ m.stateNotify.released ++ m.ready then none
    else if m.stateNotify.permit then
      some { m with stateNotify := m.stateNotify.notified h, ready := m.ready ++ [h], woken := m.woken + 1 }
    else some { m with stateNotify := m.stateNotify.notified h }
  | .wake h => (m.stateNotify.wake h).map fun n => { m with stateNotify := n, ready := m.ready ++ [h], woken := m.woken + 1 }
  -- the notification is looked at before the time, so a handler that is released does not time out
  | .timeOut h =>
    if h ∈ m.stateNotify.waiting then
      some { m with stateNotify := m.stateNotify.giveUp h, ready := m.ready ++ [h] }
    else none
  | .take h =>
    if h ∈ m.ready ∧ m.node = .sleeping then some { m with scan := m.scan.pollEvents.2, ready := m.ready.erase h } else none
  | .drop h =>
    if h ∈ m.ready then some { m with ready := m.ready.erase h }
    else if h ∈ m.stateNotify.waiting ++ m.stateNotify.released then some { m with stateNotify := m.stateNotify.giveUp h }
    else none
  | .coldAsk =>
    if m.cold = .asking then
      if m.txNotify.permit then some ({ m with txNotify := m.txNotify.notified () } : Announcing).startCheck
      else some { m with txNotify := m.txNotify.notified (), cold := .waiting }
    else none
  | .coldWake =>
    if m.cold = .waiting then (m.txNotify.wake ()).map fun n => ({ m with txNotify := n } : Announcing).startCheck else none
  | .coldCheck answer =>
    if m.cold = .checking then
      some { m with
        balances := m.balances ++ [answer]
        cold := if ColdWallet.onNotified coldAmount coldAddress answer = .panicked then .ended else .asking }
    else none

/-- The BTC module as it starts, on a network with a given genesis block. -/
def new (genesis : BlockHash) : Announcing where
  scan := ScanState.new genesis
  stateNotify := Notify.new
  txNotify := Notify.new
  node := .sleeping
  ready := []
  cold := .asking
  balances := []
  finds := 0
  woken := 0
  checks := 0
  seen := 0

def machine : Machine Announcing AnnouncingAction where
  init m := ∃ genesis, m = new genesis
  step := step coldAmount coldAddress

/-- The calls of `send_to_address` that `cold_wallet_worker` made. -/
def dumps (m : Announcing) : List ColdStep :=
  (ColdWallet.coldWalletWorker coldAmount coldAddress m.balances).filter fun s => s matches .sent _

end Announcing

end Hexstody
