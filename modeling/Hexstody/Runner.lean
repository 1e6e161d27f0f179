import Hexstody.Library.Machine
import Hexstody.Library.Notify

/-!
# The start and the end of the hot wallet

`run_hot_wallet` connects to the database, reconstructs the State, spawns the five workers, and serves both APIs (`serve_apis`). Each API
that is enabled runs in a task of its own, and notifies when it has lifted off; a task waits for both, one after the other, and then
notifies whoever started the hot wallet. All three are polled together, within an `Abortable`: when the abort is requested (`Ctrl-C`)
they are dropped, the tasks of the APIs are told to abort, and so are the workers. What the database answers, when a server lifts off
and when it ends by itself are steps from outside.
-/

namespace Hexstody

inductive ApiType where
  | publicApi
  | operatorApi
  deriving DecidableEq, Repr

/-- (`serve_api`) The server of an API. -/
inductive Server where
  /-- Nothing was polled yet. -/
  | idle
  /-- It is not enabled, and was not started. -/
  | disabled
  | launching
  /-- It has lifted off. -/
  | serving
  /-- Its task has ended, after it had lifted off or before. -/
  | ended (lifted : Bool)
  deriving DecidableEq, Repr

namespace Server

/-- The server has lifted off. -/
def lifted : Server → Bool
  | .serving => true
  | .ended lifted => lifted
  | _ => false

/-- The task of the server runs. -/
def running : Server → Bool
  | .launching => true
  | .serving => true
  | _ => false

/-- `serve_api` has returned. -/
def isOver : Server → Bool
  | .disabled => true
  | .ended _ => true
  | _ => false

theorem isOver_of_running {s : Server} (h : s.running = true) : s.isOver = false := by
  cases s <;> first | rfl | cases h

end Server

/-- The server of an API, with its `Notify` and its abort handle. -/
structure Api where
  server : Server
  start : Notify Unit
  aborting : Bool

/-- The body of `serve_apis`, which waits for both servers. -/
inductive ServeBody where
  | idle
  | asks (a : ApiType)
  | waits (a : ApiType)
  | done
  deriving DecidableEq, Repr

namespace ServeBody

/-- After the public API it waits for the operator API. -/
def after : ApiType → ServeBody
  | .publicApi => .asks .operatorApi
  | .operatorApi => .done

/-- The body has been notified of an API. -/
def passed : ServeBody → ApiType → Bool
  | .asks .operatorApi, .publicApi => true
  | .waits .operatorApi, .publicApi => true
  | .done, _ => true
  | _, _ => false

theorem passed_waits (a b : ApiType) : (ServeBody.waits a).passed b = (ServeBody.asks a).passed b := by
  cases a <;> cases b <;> rfl

end ServeBody

/-- Why `run_hot_wallet` failed. -/
inductive RunError where
  | db
  | query
  | aborted
  deriving DecidableEq, Repr

inductive RunPhase where
  /-- `create_db_pool` -/
  | connecting
  /-- `query_state` -/
  | reconstructing
  /-- `serve_apis` -/
  | serving
  /-- It returned. -/
  | finished
  | failed (e : RunError)
  deriving DecidableEq, Repr

/-- `serve_apis` was not called. -/
def RunPhase.early : RunPhase → Bool
  | .serving => false
  | .finished => false
  | .failed .aborted => false
  | _ => true

/-- The tasks of `update_worker`, `btc_worker`, `update_results_worker`, `cron_workers` and `ticker_worker`. -/
inductive Workers where
  | unspawned
  | running
  | aborted
  deriving DecidableEq, Repr

structure Runner where
  phase : RunPhase
  workers : Workers
  api : ApiType → Api
  body : ServeBody
  /-- How often `start_notify` was notified. -/
  started : Nat
  abortRequested : Bool

inductive RunnerAction where
  /-- The database is connected, or not. -/
  | connect (ok : Bool)
  /-- The State is reconstructed, or not; then the workers are spawned. -/
  | reconstruct (ok : Bool)
  /-- The first poll of `serve_apis`. -/
  | launch
  | liftoff (a : ApiType)
  /-- A server ends by itself: it could not be launched, or was shut down, or panicked. -/
  | stop (a : ApiType)
  /-- The task of a server that was told to abort ends. -/
  | kill (a : ApiType)
  | body
  | finish
  | abort
  /-- The abort is noticed. -/
  | exit

/-- The code makes the step as soon as it can; the others are made outside. -/
def RunnerAction.own : RunnerAction → Bool
  | .liftoff _ => false
  | .stop _ => false
  | .abort => false
  | _ => true

namespace Runner

def setApi (r : Runner) (a : ApiType) (x : Api) : Runner := { r with api := fun b => if b = a then x else r.api b }

@[simp] theorem setApi_self (r : Runner) (a : ApiType) (x : Api) : (r.setApi a x).api a = x := if_pos rfl

theorem setApi_of_ne (r : Runner) {a b : ApiType} (x : Api) (h : b ≠ a) : (r.setApi a x).api b = r.api b := if_neg h

/-- `serve_apis` goes on, as long as the abort is not requested. -/
def goesOn (r : Runner) : Bool := decide (r.phase = .serving) && !r.abortRequested

/-- The first poll: the servers that are enabled are spawned. -/
def launchServers (enabled : ApiType → Bool) (r : Runner) : Runner :=
  { r with
    api := fun a => { r.api a with server := if enabled a then .launching else .disabled }
    body := .asks .publicApi }

/-- The body goes on, and notifies when it has waited for both. -/
def pass (r : Runner) (a : ApiType) (start : Notify Unit) : Runner :=
  { r.setApi a { r.api a with start := start } with
    body := .after a
    started := match a with
      | .publicApi => r.started
      | .operatorApi => r.started + 1 }

def stepBody (r : Runner) : Option Runner :=
  match r.body with
  | .idle => none
  | .asks a =>
    if (r.api a).start.permit then some (r.pass a ((r.api a).start.notified ()))
    else some { r.setApi a { r.api a with start := (r.api a).start.notified () } with body := .waits a }
  | .waits a => ((r.api a).start.wake ()).map (r.pass a)
  | .done => none

/-- The server of an API lifts off, and notifies. -/
def lift (r : Runner) (a : ApiType) : Runner :=
  r.setApi a { r.api a with server := .serving, start := (r.api a).start.notifyOne }

/-- The task of a server ends. -/
def endServer (r : Runner) (a : ApiType) : Runner :=
  r.setApi a { r.api a with server := .ended (r.api a).server.lifted }

/-- `run_hot_wallet` returns, and what it spawned is told to abort. -/
def exit (r : Runner) : Runner :=
  { r with
    phase := .failed .aborted
    workers := .aborted
    api := fun a => { r.api a with aborting := true } }

/-- The hot wallet, with the APIs that are enabled. -/
def step (enabled : ApiType → Bool) (r : Runner) : RunnerAction → Option Runner
  | .connect ok =>
    if r.phase = .connecting then some { r with phase := if ok then .reconstructing else .failed .db } else none
  | .reconstruct ok =>
    if r.phase = .reconstructing then
      if ok then some { r with phase := .serving, workers := .running }
      else some { r with phase := .failed .query }
    else none
  | .launch => if r.goesOn ∧ r.body = .idle then some (r.launchServers enabled) else none
  | .liftoff a => if (r.api a).server = .launching ∧ (r.api a).aborting = false then some (r.lift a) else none
  | .stop a => if (r.api a).server.running then some (r.endServer a) else none
  | .kill a => if (r.api a).server.running ∧ (r.api a).aborting = true then some (r.endServer a) else none
  | .body => if r.goesOn then r.stepBody else none
  | .finish =>
    if r.goesOn ∧ r.body = .done ∧ ∀ a ∈ [ApiType.publicApi, .operatorApi], (r.api a).server.isOver = true then
      some { r with phase := .finished }
    else none
  | .abort => some { r with abortRequested := true }
  | .exit => if r.phase = .serving ∧ r.abortRequested = true then some r.exit else none

def new : Runner where
  phase := .connecting
  workers := .unspawned
  api _ := { server := .idle, start := Notify.new, aborting := false }
  body := .idle
  started := 0
  abortRequested := false

/-- How many steps can still follow, at most. -/
def remaining (r : Runner) : Nat :=
  phase r.phase + body r.body + server (r.api .publicApi).server + server (r.api .operatorApi).server
where
  phase : RunPhase → Nat
    | .connecting => 3
    | .reconstructing => 2
    | .serving => 1
    | _ => 0
  body : ServeBody → Nat
    | .idle => 5
    | .asks .publicApi => 4
    | .waits .publicApi => 3
    | .asks .operatorApi => 2
    | .waits .operatorApi => 1
    | .done => 0
  server : Server → Nat
    | .idle => 3
    | .launching => 2
    | .serving => 1
    | _ => 0

def machine (enabled : ApiType → Bool) : Machine Runner RunnerAction where
  init := (· = new)
  step := step enabled

end Runner

end Hexstody
