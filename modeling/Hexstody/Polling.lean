import Hexstody.Library.Machine
import Hexstody.Scan

/-!
# Polling for events

The way of the events from the BTC module to the hot wallet, one step at a time: `node_worker` appends what it scans to the
`ScanState`, a handler of `poll_events` hands it out, and `btc_worker` of the hot wallet, which polls in a loop, sends an update for
each event that it receives. A request may fail at any time, also when the handler has answered: then the response is lost, and
`btc_worker` polls again. A handler whose client gave up may still answer, to nobody.
-/

namespace Hexstody

/-- What `btc_worker` does at the moment. -/
inductive BtcWorker where
  /-- The events that it received and has still to send; with none left it is about to poll. -/
  | forwarding (events : List BtcEvent)
  /-- It polls, and the handler has not answered. -/
  | asked
  /-- It polls, and the response is on its way. -/
  | answered (response : BtcEvents)
  deriving DecidableEq, Repr

/-- What the worker has received or will receive. -/
def BtcWorker.events : BtcWorker → List BtcEvent
  | .forwarding events => events
  | .asked => []
  | .answered response => response.events

structure Polling where
  scan : ScanState
  /-- The handlers that have not answered and whose client gave up. -/
  abandoned : Nat
  worker : BtcWorker
  /-- The updates that were sent. -/
  sent : List UpdateBody
  /-- Every event that a scan appended. -/
  appended : List BtcEvent
  /-- Every event that `btc_worker` has dealt with. -/
  forwarded : List BtcEvent

inductive PollingAction where
  /-- One round of `node_worker`. -/
  | scan (answer : Except String ListSinceBlockResult) (count : Except String UInt64)
  | ask
  | answer
  /-- A handler whose client gave up answers. -/
  | answerAbandoned
  /-- The response arrives, when the State has a given best block. -/
  | receive (known : String)
  | forward
  /-- The request fails; a handler that has not answered may go on, or be gone. -/
  | fail (left : Bool)

namespace Polling

def step (p : Polling) : PollingAction → Option Polling
  | .scan answer count =>
    some { p with scan := p.scan.nodeWorker answer count, appended := p.appended ++ ScanState.scanned answer }
  | .ask =>
    match p.worker with
    | .forwarding [] => some { p with worker := .asked }
    | _ => none
  | .answer =>
    match p.worker with
    | .asked => some { p with scan := p.scan.pollEvents.2, worker := .answered p.scan.pollEvents.1 }
    | _ => none
  | .answerAbandoned =>
    if 0 < p.abandoned then some { p with scan := p.scan.pollEvents.2, abandoned := p.abandoned - 1 } else none
  | .receive known =>
    match p.worker with
    | .answered response =>
      some { p with worker := .forwarding response.events, sent := p.sent ++ (bestBtcBlock known response).toList }
    | _ => none
  | .forward =>
    match p.worker with
    | .forwarding (e :: es) =>
      some { p with worker := .forwarding es, sent := p.sent ++ e.toUpdate.toList, forwarded := p.forwarded ++ [e] }
    | _ => none
  | .fail left =>
    match p.worker with
    | .asked => some { p with worker := .forwarding [], abandoned := if left then p.abandoned + 1 else p.abandoned }
    | .answered _ => some { p with worker := .forwarding [] }
    | .forwarding _ => none

/-- What a step can do. -/
inductive Step (p : Polling) : PollingAction → Polling → Prop where
  | scan (answer : Except String ListSinceBlockResult) (count : Except String UInt64) :
      Step p (.scan answer count)
        { p with scan := p.scan.nodeWorker answer count, appended := p.appended ++ ScanState.scanned answer }
  | ask (hw : p.worker = .forwarding []) : Step p .ask { p with worker := .asked }
  | answer (hw : p.worker = .asked) :
      Step p .answer { p with scan := p.scan.pollEvents.2, worker := .answered p.scan.pollEvents.1 }
  | answerAbandoned (hpos : 0 < p.abandoned) :
      Step p .answerAbandoned { p with scan := p.scan.pollEvents.2, abandoned := p.abandoned - 1 }
  | receive (known : String) (response : BtcEvents) (hw : p.worker = .answered response) :
      Step p (.receive known)
        { p with worker := .forwarding response.events, sent := p.sent ++ (bestBtcBlock known response).toList }
  | forward (e : BtcEvent) (es : List BtcEvent) (hw : p.worker = .forwarding (e :: es)) :
      Step p .forward
        { p with worker := .forwarding es, sent := p.sent ++ e.toUpdate.toList, forwarded := p.forwarded ++ [e] }
  | timedOut (left : Bool) (hw : p.worker = .asked) :
      Step p (.fail left)
        { p with worker := .forwarding [], abandoned := if left then p.abandoned + 1 else p.abandoned }
  | lost (left : Bool) (response : BtcEvents) (hw : p.worker = .answered response) :
      Step p (.fail left) { p with worker := .forwarding [] }

theorem step_eq_some {p p' : Polling} {a : PollingAction} (h : p.step a = some p') : Step p a p' := by
  cases a with
  | scan answer count =>
    obtain rfl := Option.some.inj h
    exact .scan answer count
  | ask =>
    simp only [step] at h
    split at h
    · obtain rfl := Option.some.inj h
      exact .ask ‹_›
    · cases h
  | answer =>
    simp only [step] at h
    split at h
    · obtain rfl := Option.some.inj h
      exact .answer ‹_›
    · cases h
  | answerAbandoned =>
    simp only [step] at h
    split at h
    · obtain rfl := Option.some.inj h
      exact .answerAbandoned ‹_›
    · cases h
  | receive known =>
    simp only [step] at h
    split at h
    · obtain rfl := Option.some.inj h
      exact .receive known _ ‹_›
    · cases h
  | forward =>
    simp only [step] at h
    split at h
    · obtain rfl := Option.some.inj h
      exact .forward _ _ ‹_›
    · cases h
  | fail left =>
    simp only [step] at h
    split at h
    · obtain rfl := Option.some.inj h
      exact .timedOut left ‹_›
    · obtain rfl := Option.some.inj h
      exact .lost left _ ‹_›
    · cases h

/-- The BTC module and the hot wallet as they start, on a network with a given genesis block. -/
def new (genesis : BlockHash) : Polling where
  scan := ScanState.new genesis
  abandoned := 0
  worker := .forwarding []
  sent := []
  appended := []
  forwarded := []

def machine : Machine Polling PollingAction where
  init p := ∃ genesis, p = new genesis
  step := step

end Polling

end Hexstody
