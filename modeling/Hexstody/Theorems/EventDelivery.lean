import Hexstody.Polling

/-!
# Whether an event is lost

`poll_events` forgets the events as it hands them out, before it is known whether the response arrives. So the events of a response
that is lost, or that goes to a client that gave up, are gone. Every other step keeps the account: what was appended is, in order,
what was forwarded, what `btc_worker` has or will receive, and what the BTC module still has. A step keeps the account just when it
loses no event (`accountedFor_step_iff`), so it is kept in every run that loses none (`events_delivered`).
-/

namespace Hexstody

theorem BtcEvent.ofBtcEvent_toUpdate {e : BtcEvent} {b : UpdateBody} (h : e.toUpdate = some b) : b.OfBtcEvent = true := by
  cases e with
  | update upd =>
    simp only [toUpdate] at h
    by_cases hd : upd.direction = .deposit
    · rw [if_pos hd] at h
      obtain rfl := Option.some.inj h
      rfl
    · rw [if_neg hd] at h
      cases h
  | cancel cnl =>
    obtain rfl := Option.some.inj h
    rfl

theorem filter_toUpdate (e : BtcEvent) : e.toUpdate.toList.filter (·.OfBtcEvent) = e.toUpdate.toList := by
  refine List.filter_eq_self.mpr (fun b hb => ?_)
  exact BtcEvent.ofBtcEvent_toUpdate (Option.mem_toList.mp hb)

theorem filter_bestBtcBlock (known : String) (response : BtcEvents) :
    (bestBtcBlock known response).toList.filter (·.OfBtcEvent) = [] := by
  unfold bestBtcBlock
  by_cases h : known ≠ response.hash.hex
  · rw [if_pos h]
    rfl
  · rw [if_neg h]
    rfl

namespace Sample

/-- A round of `node_worker` that finds a new block with one payment. -/
def round : PollingAction :=
  .scan (.ok { transactions := [listed "in" 1 []], removed := [], lastblock := ⟨"b1"⟩ }) (.ok 1)

end Sample

namespace Polling

variable {p p' : Polling} {a : PollingAction}

/-- Every event that was appended is, in order, one that was forwarded, one that `btc_worker` has or will receive, or one that the
BTC module still has; and what was sent for the events are the updates of those that were forwarded. -/
structure AccountedFor (p : Polling) : Prop where
  events : p.appended = p.forwarded ++ p.worker.events ++ p.scan.events
  updates : p.sent.filter (·.OfBtcEvent) = p.forwarded.filterMap BtcEvent.toUpdate

/-- The step loses no event: a request fails only while no response with events is on its way, and a handler whose client gave up
hands none out. -/
def LosesNone (p : Polling) : PollingAction → Prop
  | .fail _ => p.worker.events = []
  | .answerAbandoned => p.scan.events = []
  | _ => True

instance (p : Polling) (a : PollingAction) : Decidable (p.LosesNone a) := by
  unfold LosesNone
  split <;> exact inferInstance

/-- (step) A step keeps the account just when it loses no event. -/
theorem accountedFor_step_iff (h : p.AccountedFor) (hs : p.step a = some p') : p'.AccountedFor ↔ p.LosesNone a := by
  obtain ⟨hev, hup⟩ := h
  cases step_eq_some hs with
  | scan answer count =>
    refine iff_of_true ⟨?_, hup⟩ trivial
    simp only [ScanState.nodeWorker_events, hev, List.append_assoc]
  | ask hw =>
    refine iff_of_true ⟨?_, hup⟩ trivial
    rw [hw] at hev
    exact hev
  | answer hw =>
    refine iff_of_true ⟨?_, hup⟩ trivial
    rw [hw] at hev
    simpa [BtcWorker.events, ScanState.pollEvents] using hev
  | answerAbandoned hpos =>
    constructor
    · rintro ⟨hev', -⟩
      exact List.append_cancel_left (hev.symm.trans hev')
    · intro hnone
      have hnone : p.scan.events = [] := hnone
      rw [hnone] at hev
      exact ⟨hev, hup⟩
  | receive known response hw =>
    refine iff_of_true ⟨?_, ?_⟩ trivial
    · rw [hw] at hev
      exact hev
    · rw [List.filter_append, filter_bestBtcBlock, List.append_nil, hup]
  | forward e es hw =>
    refine iff_of_true ⟨?_, ?_⟩ trivial
    · rw [hw] at hev
      simpa [BtcWorker.events] using hev
    · rw [List.filter_append, filter_toUpdate, hup, List.filterMap_append]
      cases h : e.toUpdate <;> simp [h]
  | timedOut left hw =>
    have hnone : p.worker.events = [] := by rw [hw]; rfl
    refine iff_of_true ⟨?_, hup⟩ hnone
    rw [hnone] at hev
    exact hev
  | lost left response hw =>
    constructor
    · rintro ⟨hev', -⟩
      have hev' : p.appended = p.forwarded ++ [] ++ p.scan.events := hev'
      exact List.append_cancel_left (List.append_cancel_right (hev.symm.trans hev'))
    · intro hnone
      have hnone : p.worker.events = [] := hnone
      rw [hnone] at hev
      exact ⟨hev, hup⟩

/-- (run) -/
theorem accountedFor_of_reachable (h : machine.Reachable LosesNone p) : p.AccountedFor := by
  refine h.invariant ?_ ?_
  · rintro _ ⟨genesis, rfl⟩
    exact ⟨rfl, rfl⟩
  · intro p a p' _ hp hlose hs
    exact (accountedFor_step_iff hp hs).mpr hlose

/-- After a poll that failed without a loss, the next one that succeeds delivers all that was there to be delivered. -/
theorem retried (left : Bool) (known : String) (hs : p.step (.fail left) = some p') (hlose : p.LosesNone (.fail left)) :
    ∃ p'', machine.checkedRun Machine.anyStep p' [.ask, .answer, .receive known] = some p'' ∧
      p''.worker = .forwarding (p.worker.events ++ p.scan.events) := by
  have hnone : p.worker.events = [] := hlose
  have hp' : p'.worker = .forwarding [] ∧ p'.scan = p.scan := by
    cases step_eq_some hs with
    | timedOut => exact ⟨rfl, rfl⟩
    | lost => exact ⟨rfl, rfl⟩
  rw [hnone, List.nil_append, ← hp'.2]
  refine ⟨{ p' with
    scan := p'.scan.pollEvents.2
    worker := .forwarding p'.scan.events
    sent := p'.sent ++ (bestBtcBlock known p'.scan.pollEvents.1).toList }, ?_, rfl⟩
  simp only [Machine.checkedRun, Machine.anyStep, machine, step, hp'.1, Option.bind_some, if_true]
  rfl

/-- No event is lost: in every run of scans, polls, timeouts and failures that loses none, every event that was appended was
forwarded, in order, or is in what `btc_worker` has or will receive, or is still in the BTC module; and a failed poll that is
repeated delivers what it would have delivered. -/
theorem events_delivered (h : machine.Reachable LosesNone p) :
    p.AccountedFor ∧ ∀ (left : Bool) (known : String) (p' : Polling), p.step (.fail left) = some p' →
      p.LosesNone (.fail left) →
      ∃ p'', machine.checkedRun Machine.anyStep p' [.ask, .answer, .receive known] = some p'' ∧
        p''.worker = .forwarding (p.worker.events ++ p.scan.events) :=
  ⟨accountedFor_of_reachable h, fun left known _ hs hlose => retried left known hs hlose⟩

/-- A poll times out before there is anything to hand out; the next one delivers a payment. -/
theorem events_delivered_retried : ∃ p : Polling, p.appended.length = 1 ∧ p.sent.length = 2 ∧ p.AccountedFor := by
  obtain ⟨p, hp, hq⟩ := Machine.exists_reachable (M := machine) (P := LosesNone) (s := new ⟨"b0"⟩)
    [.ask, .fail false, Sample.round, .ask, .answer, .receive "b0", .forward]
    (q := fun p : Polling => p.appended.length == 1 && p.sent.length == 2) ⟨_, rfl⟩ (by decide +kernel)
  simp only [Bool.and_eq_true, beq_iff_eq] at hq
  exact ⟨p, hq.1, hq.2, (events_delivered hp).1⟩

/-- The handler answers with a payment, and the response is lost: the next poll has nothing to deliver. -/
theorem events_lost : ¬∀ p : Polling, machine.Reachable Machine.anyStep p → p.AccountedFor := by
  intro h
  obtain ⟨p, hp, hq⟩ := Machine.exists_reachable (M := machine) (P := Machine.anyStep) (s := new ⟨"b0"⟩)
    [Sample.round, .ask, .answer, .fail false, .ask, .answer, .receive "b1"]
    (q := fun p : Polling =>
      p.appended.length == 1 && p.forwarded.isEmpty && p.worker.events.isEmpty && p.scan.events.isEmpty)
    ⟨_, rfl⟩ (by decide +kernel)
  simp only [Bool.and_eq_true, beq_iff_eq, List.isEmpty_iff] at hq
  obtain ⟨⟨⟨happended, hforwarded⟩, hworker⟩, hscan⟩ := hq
  have hev := (h p hp).events
  rw [hforwarded, hworker, hscan] at hev
  rw [hev] at happended
  cases happended

end Polling

end Hexstody
