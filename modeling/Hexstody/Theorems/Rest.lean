import Hexstody.Lemmas.World
import Hexstody.Theorems.Deadlock

/-!
# That the hot wallet comes to rest

The tasks of the hot wallet send each other updates and results, but not forever: an update answers one result at most, a result leads
to one payment, a payment to one update at most, and that one, which settles the request, answers nothing. So twelve steps follow at
most when an update is sent, and a handler that sends so many updates and takes so many steps (`Handler.Within`) has a bound. Without
new requests and new events few steps follow (`comes_to_rest`), in any order and whatever the modules answer. Where the steps keep
room, or where there is less to do than a channel holds, no task has anything to do when they are over.
-/

namespace Hexstody

/-- The update settles a request: only `update_results_worker` sends it, and nothing follows. -/
def UpdateBody.settling : UpdateBody → Bool
  | .withdrawalRequestComplete _ => true
  | .withdrawalRequestNodeRejected _ => true
  | _ => false

/-- How many steps can follow an update in the channel. -/
def StateUpdate.effort (u : StateUpdate) : Nat := if u.body.settling then 3 else 11

theorem StateUpdate.effort_le (u : StateUpdate) : u.effort ≤ 11 := by
  unfold effort
  split <;> decide

theorem StateUpdate.le_effort (u : StateUpdate) : 3 ≤ u.effort := by
  unfold effort
  split <;> decide

/-- A result is answered by an update that settles nothing. -/
theorem State.settling_answers_nothing {s s' : State} {o : Oracle} {u : StateUpdate} {res : Option UpdateResult}
    (h : s.applyUpdate o u = (s', .ok res)) (hu : u.body.settling = true) : res = none := by
  unfold applyUpdate at h
  cases hb : u.body with
  | withdrawalRequestComplete info =>
    simp only [hb] at h
    rcases hout : s.setWithdrawalRequestCompleted info with ⟨s₁, r⟩
    rw [hout] at h
    cases r with
    | ok a => exact (Except.ok.inj (Prod.mk.inj h).2).symm
    | error e => cases (Prod.mk.inj h).2
  | withdrawalRequestNodeRejected info =>
    simp only [hb] at h
    rcases hout : s.setWithdrawalRequestNodeRejected info with ⟨s₁, r⟩
    rw [hout] at h
    cases r with
    | ok a => exact (Except.ok.inj (Prod.mk.inj h).2).symm
    | error e => cases (Prod.mk.inj h).2
  | _ =>
    rw [hb] at hu
    cases hu

/-- What `update_worker` has to send on is not of an update that settles a request. -/
theorem Journal.effort_of_attempt {j j' : Journal} {o : Oracle} {stored : Bool} {u : StateUpdate} {res : UpdateResult}
    (h : j.attempt o stored u = (j', some res)) : u.effort = 11 := by
  unfold attempt at h
  cases hj : j.store o u with
  | none =>
    simp only [hj] at h
    cases (Prod.mk.inj h).2
  | some j₁ =>
    simp only [hj] at h
    cases stored with
    | false => cases (Prod.mk.inj h).2
    | true =>
      obtain ⟨res', ha, hrows⟩ := Journal.store_eq_some hj
      have hanswer : j₁.answer = res' := by
        rw [Journal.answer, hrows, List.getLast?_concat]
        rfl
      have hres : res' = some res := hanswer.symm.trans (Prod.mk.inj h).2
      unfold StateUpdate.effort
      by_cases hu : u.body.settling = true
      · cases hres.symm.trans (State.settling_answers_nothing ha hu)
      · rw [if_neg hu]

/-! ## The work of the handlers -/

mutual

/-- A handler with the mutex has so much to do at most: a step, and twelve for an update, with all that follows it. -/
inductive Held.Within : Nat → Held Handler → Prop where
  | unlock {m n : Nat} {next : Handler} : Handler.Within m next → m + 1 ≤ n → Held.Within n (.unlock next)
  | send {m n : Nat} {b : UpdateBody} {next : Held Handler} : Held.Within m next → m + 12 ≤ n → Held.Within n (.send b next)
  | call {m n : Nat} {next : Option String → Held Handler} :
      (∀ answer, Held.Within m (next answer)) → m + 1 ≤ n → Held.Within n (.call next)

/-- A handler without the mutex has so much to do at most, whatever the State holds and the modules answer. -/
inductive Handler.Within : Nat → Handler → Prop where
  | done {n : Nat} : Handler.Within n .done
  | send {m n : Nat} {b : UpdateBody} {next : Handler} : Handler.Within m next → m + 12 ≤ n → Handler.Within n (.send b next)
  | call {m n : Nat} {next : Option String → Handler} :
      (∀ answer, Handler.Within m (next answer)) → m + 1 ≤ n → Handler.Within n (.call next)
  | lock {m n : Nat} {locked : State → Held Handler} :
      (∀ s, Held.Within m (locked s)) → m + 1 ≤ n → Handler.Within n (.lock locked)

end

theorem Handler.Within.mono {m n : Nat} {h : Handler} (hw : h.Within m) (hle : m ≤ n) : h.Within n := by
  cases hw with
  | done => exact .done
  | send hnext hm => exact .send hnext (hm.trans hle)
  | call hnext hm => exact .call hnext (hm.trans hle)
  | lock hlocked hm => exact .lock hlocked (hm.trans hle)

theorem Held.Within.mono {m n : Nat} {h : Held Handler} (hw : h.Within m) (hle : m ≤ n) : h.Within n := by
  cases hw with
  | unlock hnext hm => exact .unlock hnext (hm.trans hle)
  | send hnext hm => exact .send hnext (hm.trans hle)
  | call hnext hm => exact .call hnext (hm.trans hle)

/-- What is sent under the mutex is part of the work. -/
theorem Held.Within.sends_le {n : Nat} {h : Held Handler} (hw : h.Within n) : 12 * h.sends ≤ n := by
  induction h generalizing n with
  | unlock next => exact Nat.zero_le n
  | call next => exact Nat.zero_le n
  | send b next ih =>
    cases hw with
    | send hnext hle =>
      have hsends := ih hnext
      rw [Held.sends]
      omega

namespace Handler

/-- The handlers that were written out, from the start or from where the guard was given back. -/
inductive Served : Handler → Prop where
  | clearLimits (span : LimitSpan) : Served (clearLimits span)
  | genInvite (Γ : OpCtx) (sd : SignatureData) (req : InviteRequest) (ids : List Uuid) : Served (genInvite Γ sd req ids)
  | getDepositAddress (user : UserId) (currency : Currency) (update : CurrencyAddress → UpdateBody) :
      Served (getDepositAddress user currency update)
  | getDepositAddressHandle (user : UserId) (currency : Currency) : Served (getDepositAddressHandle user currency)
  | getExchangeAddress (currency : Currency) : Served (getExchangeAddress currency)

theorem within_allocateLocked (update : String → UpdateBody) : (allocateLocked update).Within 14 := by
  refine .call (m := 13) (fun answer => ?_) (Nat.le_refl _)
  cases answer with
  | none => exact .unlock (m := 0) .done (by decide)
  | some address => exact .send (m := 1) (.unlock (m := 0) .done (Nat.le_refl _)) (Nat.le_refl _)

theorem within_getDepositAddress (user : UserId) (currency : Currency) (update : CurrencyAddress → UpdateBody) :
    (getDepositAddress user currency update).Within 15 := by
  have hlocked {s : State} {held : Held Handler} (h : (getDepositAddress user currency update).locked? s = some held) :
      held.Within 14 := by
    rcases locked_getDepositAddress h with rfl | ⟨allocated, rfl⟩
    · exact .unlock (m := 0) .done (by decide)
    · exact within_allocateLocked allocated
  cases currency with
  | btc =>
    refine .call (m := 12) (fun answer => ?_) (by decide)
    cases answer with
    | none => exact .done
    | some address => exact .send (m := 0) .done (Nat.le_refl _)
  | eth => exact .lock (m := 14) (fun s => hlocked rfl) (Nat.le_refl _)
  | erc20 token => exact .lock (m := 14) (fun s => hlocked rfl) (Nat.le_refl _)

/-- Each of them has less to do than two updates are worth. -/
theorem Served.within {h : Handler} (hs : h.Served) : h.Within 17 := by
  cases hs with
  | clearLimits span => exact .send (m := 0) .done (by decide)
  | genInvite Γ sd req ids =>
    unfold Handler.genInvite
    split
    · exact .done
    · refine .lock (m := 13) (fun s => ?_) (by decide)
      split
      · exact .unlock (m := 12) (.send (m := 0) .done (Nat.le_refl _)) (Nat.le_refl _)
      · exact .unlock (m := 0) .done (by decide)
  | getDepositAddress user currency update => exact (within_getDepositAddress user currency update).mono (by decide)
  | getDepositAddressHandle user currency =>
    refine .lock (m := 16) (fun s => ?_) (Nat.le_refl _)
    dsimp only
    split
    · exact .unlock (within_getDepositAddress _ currency _) (Nat.le_refl _)
    · exact .unlock (m := 0) .done (by decide)
  | getExchangeAddress currency =>
    refine .lock (m := 16) (fun s => ?_) (Nat.le_refl _)
    split
    · exact .unlock (m := 0) .done (by decide)
    · exact .unlock (within_getDepositAddress _ currency _) (Nat.le_refl _)

/-- None of them sends an update under the mutex before a module has answered. -/
theorem Served.sends_eq_zero {h : Handler} (hs : h.Served) {s : State} {held : Held Handler} (hl : h.locked? s = some held) :
    held.sends = 0 := by
  cases hs with
  | clearLimits span => cases hl
  | genInvite Γ sd req ids =>
    obtain ⟨next, rfl⟩ := sends_genInvite hl
    rfl
  | getDepositAddress user currency update =>
    rcases locked_getDepositAddress hl with rfl | ⟨allocated, rfl⟩
    · rfl
    · rfl
  | getDepositAddressHandle user currency =>
    obtain rfl := Option.some.inj hl
    dsimp only
    split <;> rfl
  | getExchangeAddress currency =>
    obtain rfl := Option.some.inj hl
    dsimp only
    split <;> rfl

end Handler

/-! ## The work of the tasks -/

/-- How much `update_worker` has to do with the update that it has received, before it has the mutex. -/
def receivedEffort : Option StateUpdate → Nat
  | none => 0
  | some u => u.effort - 1

/-- How much `btc_worker` has to do with the events that it has received, before it has the mutex. -/
def polledEffort : Option BtcEvents → Nat
  | none => 0
  | some events => 12 * (events.events.length + 1) + 2

/-- How much the two have to do, with the mutex and without it. -/
def workersEffort : Option MutexHolder → Option StateUpdate → Option BtcEvents → Nat
  | some (.applying u), _, events => u.effort - 2 + polledEffort events
  | some (.answering _), _, events => 8 + polledEffort events
  | some (.forwarding unsent), u, _ => receivedEffort u + (12 * unsent.length + 1)
  | some (.handler _), u, events => receivedEffort u + polledEffort events
  | none, u, events => receivedEffort u + polledEffort events

theorem workersEffort_received (h : Option MutexHolder) (u : StateUpdate) (events : Option BtcEvents) :
    workersEffort h (some u) events ≤ workersEffort h none events + (u.effort - 1) := by
  cases h with
  | none =>
    simp only [workersEffort, receivedEffort]
    omega
  | some h =>
    cases h <;> simp only [workersEffort, receivedEffort] <;> omega

/-- How much `update_results_worker` has to do. -/
def ResultsWorker.effort : ResultsWorker → Nat
  | .waiting _ => 6
  | .working .idle => 0
  | .working (.calling ..) => 5
  | .working (.sending u) => u.effort + 1

theorem ResultsWorker.effort_le {r : ResultsWorker} (h : ∀ u, r ≠ .working (.sending u)) : r.effort ≤ 6 := by
  cases r with
  | waiting id => exact Nat.le_refl _
  | working w =>
    cases w with
    | idle => exact Nat.zero_le _
    | calling id call => exact (by decide : 5 ≤ 6)
    | sending u => exact absurd rfl (h u)

/-- After a call nothing is left to do, or to settle the request. -/
theorem ResultsWorker.effort_answered {id : WithdrawalRequestId} {call : PayCall} {reply : Reply} {now : NaiveDateTime} {w : Worker}
    (h : World.answered id call reply now = some w) : (ResultsWorker.working w).effort < 5 := by
  rcases World.answered_cases h with rfl | ⟨resp, t, -, rfl⟩ | ⟨reason, rfl⟩
  · decide
  · exact Nat.lt_succ_self 4
  · exact Nat.lt_succ_self 4

/-- All these handlers have so much to do at most. -/
def WithinAll : Nat → List Handler → Prop
  | _, [] => True
  | n, h :: hs => ∃ a b, h.Within a ∧ WithinAll b hs ∧ a + b ≤ n

theorem WithinAll.append {a b : Nat} {hs : List Handler} {h : Handler} (hw : WithinAll a hs) (hh : h.Within b) :
    WithinAll (a + b) (hs ++ [h]) := by
  induction hs generalizing a with
  | nil => exact ⟨b, 0, hh, trivial, by omega⟩
  | cons h' hs ih =>
    obtain ⟨c, d, hc, hd, hle⟩ := hw
    exact ⟨c, d + b, hc, ih hd, by omega⟩

/-- One of the handlers takes part of the work, and the others the rest, also when it goes on otherwise. -/
theorem WithinAll.split {n i : Nat} {hs : List Handler} {h : Handler} (hw : WithinAll n hs) (hi : hs[i]? = some h) :
    ∃ a b, h.Within a ∧ a + b ≤ n ∧ WithinAll b (hs.eraseIdx i) ∧ ∀ c h', h'.Within c → WithinAll (c + b) (hs.set i h') := by
  induction hs generalizing n i with
  | nil => cases hi
  | cons h₁ hs ih =>
    obtain ⟨c, d, hc, hd, hle⟩ := hw
    cases i with
    | zero =>
      obtain rfl := Option.some.inj hi
      exact ⟨c, d, hc, hle, hd, fun c' h' hc' => ⟨c', d, hc', hd, Nat.le_refl _⟩⟩
    | succ i =>
      obtain ⟨a, b, ha, hab, hrest, hset⟩ := ih hd (by simpa using hi)
      exact ⟨a, c + b, ha, by omega, ⟨c, b, hc, hrest, Nat.le_refl _⟩, fun c' h' hc' => ⟨c, c' + b, hc, hset c' h' hc', by omega⟩⟩

theorem WithinAll.of_forall {m : Nat} {hs : List Handler} (h : ∀ x ∈ hs, x.Within m) : WithinAll (m * hs.length) hs := by
  induction hs with
  | nil => trivial
  | cons x hs ih =>
    refine ⟨m, m * hs.length, h x List.mem_cons_self, ih fun y hy => h y (List.mem_cons_of_mem _ hy), ?_⟩
    rw [List.length_cons, Nat.mul_succ]
    omega

namespace Tasks

variable {k : Clock} {t t' : Tasks} {a : TaskAction} {m n : Nat}

/-- How much there is to do beside what the handlers do. -/
def effort (t : Tasks) : Nat :=
  (t.updates.map StateUpdate.effort).sum + 7 * t.results.length + t.resultsWorker.effort +
    workersEffort t.mutex t.updateWorker t.btcWorker

/-- There is so much to do at most. -/
def Within (n : Nat) (t : Tasks) : Prop :=
  ∃ a b, WithinAll a t.handlers ∧ (∀ h, t.mutex = some (.handler h) → h.Within b) ∧ a + b + t.effort ≤ n

theorem Within.mono (hw : t.Within m) (hle : m ≤ n) : t.Within n := by
  obtain ⟨x, y, hx, hy, hm⟩ := hw
  exact ⟨x, y, hx, hy, hm.trans hle⟩

theorem length_messages_le (t : Tasks) (events : BtcEvents) : (t.messages events).length ≤ events.events.length + 1 := by
  have hbest : (bestBtcBlock t.journal.state.btcState.blockHash events).toList.length ≤ 1 := by
    cases bestBtcBlock t.journal.state.btcState.blockHash events with
    | none => exact Nat.zero_le 1
    | some b => exact Nat.le_refl 1
  have hevents : (events.events.filterMap BtcEvent.toUpdate).length ≤ events.events.length := List.length_filterMap_le _ _
  unfold messages processBtcEvents
  rw [List.length_append]
  omega

/-- An update that is sent costs less than what it counts for. -/
theorem sum_effort_append (us : List StateUpdate) (u : StateUpdate) :
    ((us ++ [u]).map StateUpdate.effort).sum = (us.map StateUpdate.effort).sum + u.effort := by
  rw [List.map_append, List.sum_append, List.map_singleton, List.sum_singleton]

theorem length_updates_le (t : Tasks) : 3 * t.updates.length ≤ (t.updates.map StateUpdate.effort).sum := by
  induction t.updates with
  | nil => exact Nat.le_refl _
  | cons u us ih =>
    have hle := u.le_effort
    rw [List.length_cons, List.map_cons, List.sum_cons]
    omega

/-- (step) Every step of a task leaves less to do. -/
theorem Within.step (hw : t.Within n) (hstep : t.step k a = some t') (ha : a.Internal) : ∃ m, m < n ∧ t'.Within m := by
  obtain ⟨x, y, hx, hy, hn⟩ := hw
  unfold effort at hn
  -- a step of a worker, after which the handlers have to do what they had
  have hworker (hlt : t'.effort < t.effort) (hhandlers : t'.handlers = t.handlers)
      (hmutex : ∀ h, t'.mutex = some (.handler h) → t.mutex = some (.handler h)) : ∃ m, m < n ∧ t'.Within m := by
    refine ⟨x + y + t'.effort, by unfold effort at hlt ⊢; omega, x, y, hhandlers ▸ hx, fun h hh => hy h (hmutex h hh), Nat.le_refl _⟩
  cases step_eq_some hstep with
  | request h => cases ha
  | poll events hb => cases ha
  | receiveUpdate u us hu hus =>
    refine hworker ?_ rfl fun h hh => hh
    have hle := u.le_effort
    have hreceived := workersEffort_received t.mutex u t.btcWorker
    simp only [effort, hu, hus, List.map_cons, List.sum_cons]
    omega
  | lockUpdate u hm hu =>
    refine hworker ?_ rfl nofun
    have hle := u.le_effort
    simp only [effort, hm, hu, workersEffort, receivedEffort]
    omega
  | applied o stored u j hm hj =>
    refine hworker ?_ rfl nofun
    have hle := u.le_effort
    simp only [effort, hm, workersEffort, receivedEffort]
    omega
  | answers o stored u j res hm hj =>
    refine hworker ?_ rfl nofun
    have heffort := Journal.effort_of_attempt hj
    simp only [effort, hm, workersEffort]
    omega
  | sendResult res hm hroom =>
    refine hworker ?_ rfl nofun
    simp only [effort, hm, workersEffort, receivedEffort, List.length_append, List.length_singleton]
    omega
  | lockEvents events hm hb =>
    refine hworker ?_ rfl nofun
    have hle := t.length_messages_le events
    simp only [effort, hm, hb, workersEffort, polledEffort]
    omega
  | sendLocked created h h' b hm hn' hroom =>
    have hle := StateUpdate.effort_le { created := created, body := b }
    rcases MutexHolder.next?_eq_some hn' with ⟨bs, rfl, rfl⟩ | ⟨held, rfl, rfl⟩
    · refine hworker ?_ rfl nofun
      simp only [effort, hm, workersEffort, sum_effort_append, List.length_cons]
      omega
    · cases hy _ hm with
      | send hheld hm' =>
        rename_i m
        refine ⟨n - 1, by omega, x, m, hx, fun h hh => by cases hh; exact hheld, ?_⟩
        simp only [hm, workersEffort] at hn
        simp only [effort, workersEffort, sum_effort_append]
        omega
  | answerLocked answer h held hm hans =>
    obtain ⟨next, rfl, rfl⟩ := MutexHolder.answered?_eq_some hans
    cases hy _ hm with
    | call hheld hm' =>
      rename_i m
      refine ⟨n - 1, by omega, x, m, hx, fun h hh => by cases hh; exact hheld answer, ?_⟩
      simp only [hm, workersEffort] at hn
      simp only [effort, workersEffort]
      omega
  | unlockEvents hm =>
    refine hworker ?_ rfl nofun
    simp only [effort, hm, workersEffort, polledEffort, List.length_nil]
    omega
  | unlockHandler next hm =>
    cases hy _ hm with
    | unlock hnext hm' =>
      rename_i m
      refine ⟨n - 1, by omega, x + m, 0, hx.append hnext, nofun, ?_⟩
      simp only [hm, workersEffort] at hn
      simp only [effort, workersEffort]
      omega
  | receiveResult res rs r hr hrs hne =>
    refine hworker ?_ rfl fun h hh => hh
    have hle := ResultsWorker.effort_le hne
    simp only [effort, hr, hrs, List.length_cons]
    omega
  | lookUp o id r hm hr hne =>
    refine hworker ?_ rfl fun h hh => hh
    simp only [step, hm, hr] at hstep
    split at hstep
    · obtain rfl : r = .working .idle := by cases hstep; rfl
      simp only [effort, hr, ResultsWorker.effort]
      omega
    · rename_i id' call ht
      obtain rfl : r = .working (.calling id' call) := by cases hstep; rfl
      simp only [effort, hr, ResultsWorker.effort]
      omega
  | answerPayment reply now id call w hr hans =>
    refine hworker ?_ rfl fun h hh => hh
    have hlt := ResultsWorker.effort_answered hans
    have hcalling : (ResultsWorker.working (.calling id call)).effort = 5 := rfl
    simp only [effort, hr]
    omega
  | sendSettlement u hr hroom =>
    refine hworker ?_ rfl fun h hh => hh
    simp only [effort, hr, ResultsWorker.effort, sum_effort_append]
    omega
  | lockHandler i locked hm hi =>
    obtain ⟨c, b, hc, hcb, hrest, -⟩ := hx.split hi
    cases hc with
    | lock hlocked hm' =>
      rename_i m
      refine ⟨n - 1, by omega, b, m, hrest, fun h hh => by cases hh; exact hlocked _, ?_⟩
      simp only [hm, workersEffort] at hn
      simp only [effort, workersEffort]
      omega
  | sendHandler i created b next hi hroom =>
    have hle := StateUpdate.effort_le { created := created, body := b }
    obtain ⟨c, d, hc, hcd, -, hset⟩ := hx.split hi
    cases hc with
    | send hnext hm' =>
      refine ⟨n - 1, by omega, _, y, hset _ _ hnext, hy, ?_⟩
      simp only [effort, sum_effort_append]
      omega
  | answerHandler i answer next hi =>
    obtain ⟨c, d, hc, hcd, -, hset⟩ := hx.split hi
    cases hc with
    | call hnext hm' =>
      refine ⟨n - 1, by omega, _, y, hset _ _ (hnext answer), hy, ?_⟩
      simp only [effort]
      omega

/-- With less to do than the channels hold, whoever has the mutex can do what he has to do with it, also when another task sends. -/
theorem Within.canFinish (hw : t.Within channelCapacity) {h : MutexHolder} (hm : t.mutex = some h) : t.CanFinish 1 h := by
  obtain ⟨x, y, -, hy, hn⟩ := hw
  have hupdates := length_updates_le t
  simp only [effort, hm, channelCapacity] at hn
  cases h with
  | applying u => trivial
  | answering res =>
    refine .inl ?_
    simp only [workersEffort] at hn
    unfold channelCapacity
    omega
  | forwarding unsent =>
    simp only [workersEffort] at hn
    simp only [CanFinish, Room, channelCapacity]
    omega
  | handler held =>
    have hsends := (hy held hm).sends_le
    simp only [CanFinish, Room, channelCapacity]
    omega

/-- (step) With less to do than the channels hold, every step keeps room. -/
theorem Within.keepsRoom (hw : t.Within channelCapacity) (hstep : t.step k a = some t') : t.KeepsRoom a := by
  have hfinish : ∀ h ∈ t.mutex, t.CanFinish 1 h := fun h hm => hw.canFinish hm
  obtain ⟨x, y, hx, hy, hn⟩ := hw
  have hupdates := length_updates_le t
  simp only [effort, channelCapacity] at hn
  have hresults : t.results.length < channelCapacity := by
    unfold channelCapacity
    omega
  have hroom {m : Nat} (hm : 12 * m ≤ 1000) (hle : 12 * m + (t.updates.map StateUpdate.effort).sum ≤ 1000) : t.Room m := by
    unfold Room channelCapacity
    omega
  cases step_eq_some hstep with
  | request h => trivial
  | poll events hb => trivial
  | receiveUpdate u us hu hus => trivial
  | lockUpdate u hm hu => trivial
  | applied o stored u j hm hj => exact fun _ => .inl hresults
  | answers o stored u j res hm hj => exact fun _ => .inl hresults
  | sendResult res hm hroom => trivial
  | lockEvents events hm hb =>
    intro events' hevents
    obtain rfl : events = events' := Option.some.inj (hb.symm.trans hevents)
    have hle := t.length_messages_le events
    simp only [hm, hb, workersEffort, polledEffort] at hn
    exact hroom (by omega) (by omega)
  | sendLocked created h h' b hm hn' hroom => trivial
  | answerLocked answer h held hm hans =>
    intro held' hheld
    rw [hm] at hheld
    obtain rfl : held = held' := Option.some.inj (hans.symm.trans hheld)
    obtain ⟨next, rfl, rfl⟩ := MutexHolder.answered?_eq_some hans
    cases hy _ hm with
    | call hnext hm' =>
      have hsends := (hnext answer).sends_le
      exact hroom (by omega) (by omega)
  | unlockEvents hm => trivial
  | unlockHandler next hm => trivial
  | receiveResult res rs r hr hrs hne => trivial
  | lookUp o id r hm hr hne => trivial
  | answerPayment reply now id call w hr hans => exact fun _ _ _ _ => .inl hresults
  | sendSettlement u hr hlt => exact fun h hm => .inr (hfinish h hm)
  | lockHandler i locked hm hi =>
    intro h hh held hheld
    obtain rfl : Handler.lock locked = h := Option.some.inj (hi.symm.trans hh)
    obtain rfl : locked t.journal.state = held := Option.some.inj hheld
    obtain ⟨c, b, hc, hcb, -, -⟩ := hx.split hi
    cases hc with
    | lock hlocked hm' =>
      have hsends := (hlocked t.journal.state).sends_le
      exact hroom (by omega) (by omega)
  | sendHandler i created b next hi hlt => exact hfinish
  | answerHandler i answer next hi => trivial

/-- The request is of a handler that has so much to do at most. -/
def takes (m : Nat) (_ : Tasks) (a : TaskAction) : Prop := ∀ h, a = .request h → h.Within m

/-- Each handler, with the mutex or without it, has so much to do at most. -/
def HandlersWithin (m : Nat) (t : Tasks) : Prop :=
  (∀ h ∈ t.handlers, h.Within m) ∧ ∀ h, t.mutex = some (.handler h) → h.Within m

/-- How much there is to do at most, when each handler has so much to do. -/
def work (m : Nat) (t : Tasks) : Nat := m * (t.handlers.length + 1) + t.effort

theorem HandlersWithin.within (h : t.HandlersWithin m) : t.Within (t.work m) := by
  refine ⟨m * t.handlers.length, m, .of_forall h.1, h.2, ?_⟩
  rw [work, Nat.mul_succ]

theorem HandlersWithin.step (hw : t.HandlersWithin m) (htakes : takes m t a) (hstep : t.step k a = some t') :
    t'.HandlersWithin m := by
  obtain ⟨hall, hheld⟩ := hw
  have hadd {h : Handler} (hh : h.Within m) : ∀ x ∈ t.handlers ++ [h], x.Within m := by
    intro x hx
    rcases List.mem_append.mp hx with hx | hx
    · exact hall x hx
    · obtain rfl := List.mem_singleton.mp hx
      exact hh
  have hset {i : Nat} {h : Handler} (hh : h.Within m) : ∀ x ∈ t.handlers.set i h, x.Within m := by
    intro x hx
    rcases List.mem_or_eq_of_mem_set hx with hx | rfl
    · exact hall x hx
    · exact hh
  cases step_eq_some hstep with
  | request h => exact ⟨hadd (htakes h rfl), hheld⟩
  | poll events hb => exact ⟨hall, hheld⟩
  | receiveUpdate u us hu hus => exact ⟨hall, hheld⟩
  | lockUpdate u hm hu => exact ⟨hall, nofun⟩
  | applied o stored u j hm hj => exact ⟨hall, nofun⟩
  | answers o stored u j res hm hj => exact ⟨hall, nofun⟩
  | sendResult res hm hroom => exact ⟨hall, nofun⟩
  | lockEvents events hm hb => exact ⟨hall, nofun⟩
  | sendLocked created h h' b hm hn hroom =>
    rcases MutexHolder.next?_eq_some hn with ⟨bs, rfl, rfl⟩ | ⟨held, rfl, rfl⟩
    · exact ⟨hall, nofun⟩
    · refine ⟨hall, fun held' hh => ?_⟩
      cases hh
      cases hheld _ hm with
      | send hnext hle => exact hnext.mono (by omega)
  | answerLocked answer h held hm hans =>
    obtain ⟨next, rfl, rfl⟩ := MutexHolder.answered?_eq_some hans
    refine ⟨hall, fun held' hh => ?_⟩
    cases hh
    cases hheld _ hm with
    | call hnext hle => exact (hnext answer).mono (by omega)
  | unlockEvents hm => exact ⟨hall, nofun⟩
  | unlockHandler next hm =>
    cases hheld _ hm with
    | unlock hnext hle => exact ⟨hadd (hnext.mono (by omega)), nofun⟩
  | receiveResult res rs r hr hrs hne => exact ⟨hall, hheld⟩
  | lookUp o id r hm hr hne => exact ⟨hall, hheld⟩
  | answerPayment reply now id call w hr hans => exact ⟨hall, hheld⟩
  | sendSettlement u hr hlt => exact ⟨hall, hheld⟩
  | lockHandler i locked hm hi =>
    refine ⟨fun x hx => hall x (List.mem_of_mem_eraseIdx hx), fun held hh => ?_⟩
    cases hh
    cases hall _ (List.mem_of_getElem? hi) with
    | lock hlocked hle => exact (hlocked _).mono (by omega)
  | sendHandler i created b next hi hlt =>
    cases hall _ (List.mem_of_getElem? hi) with
    | send hnext hle => exact ⟨hset (hnext.mono (by omega)), hheld⟩
  | answerHandler i answer next hi =>
    cases hall _ (List.mem_of_getElem? hi) with
    | call hnext hle => exact ⟨hset ((hnext answer).mono (by omega)), hheld⟩

/-- (run) -/
theorem handlersWithin_of_reachable (ht : (machine k).Reachable (takes m) t) : t.HandlersWithin m := by
  refine ht.invariant ?_ fun t a t' _ hw htakes hstep => hw.step htakes hstep
  rintro t ⟨j, rfl⟩
  exact ⟨nofun, nofun⟩

/-- There is so much to do at most, no more than the channels hold, and whoever has the mutex can do what he has to do with it. -/
structure Light (n : Nat) (t : Tasks) : Prop where
  within : t.Within n
  le : n ≤ channelCapacity
  sound : t.Sound
  safe : t.Safe

/-- (step) -/
theorem Light.step (hl : t.Light n) (ha : a.Internal) (hstep : t.step k a = some t') : ∃ m, m < n ∧ t'.Light m := by
  obtain ⟨m, hlt, hw⟩ := hl.within.step hstep ha
  have hroom : t.KeepsRoom a := (hl.within.mono hl.le).keepsRoom hstep
  have ht := step_eq_some hstep
  exact ⟨m, hlt, hw, by have hle := hl.le; omega, hl.sound.step ht, (safe_step_iff hl.sound hl.safe ht).mpr hroom⟩

/-- With no more to do than the channels hold, the tasks' own steps end where no task has anything to do. -/
theorem Light.exists_idle (hl : t.Light n) :
    (∀ t', ((machine k).startedAt t).Reachable internal t' → ¬t'.CanStep k → t'.Idle) ∧
      ∃ t', ((machine k).startedAt t).Reachable internal t' ∧ t'.Idle := by
  have hidle (t' : Tasks) (ht' : ((machine k).startedAt t).Reachable internal t') (hstop : ¬t'.CanStep k) : t'.Idle := by
    obtain ⟨m, hl'⟩ : ∃ m, t'.Light m := by
      refine ht'.invariant (I := fun t' => ∃ m, t'.Light m) ?_ ?_
      · intro s hs
        obtain rfl : s = t := hs
        exact ⟨n, hl⟩
      · intro s a s' _ hs ha hstep
        obtain ⟨m, hs⟩ := hs
        obtain ⟨m', -, hs'⟩ := hs.step ha hstep
        exact ⟨m', hs'⟩
    exact Classical.byContradiction fun hidle => hstop (canStep_of_safe hl'.safe hidle)
  obtain ⟨t', m, ht', -, hquiet⟩ := Machine.exists_quiescent (M := machine k) (P := internal) (B := Light) hl
    fun n t a t' hl ha hstep => hl.step ha hstep
  refine ⟨hidle, t', ht', hidle t' ht' ?_⟩
  rintro ⟨a, ha, hstep⟩
  have hnone : t'.step k a = none := hquiet a ha
  rw [hnone] at hstep
  cases hstep

/-- (run) Without new requests and new events a run of the tasks has no more steps than the handlers and the channels have work; where
it keeps room and no step is left, no task has anything to do, and with no more to do than the channels hold it always ends so. The
handlers that were written out have seventeen to do at most, and there is always room for them to take the mutex. -/
theorem comes_to_rest (k : Clock) (m : Nat) :
    (∀ t, (machine k).Reachable (takes m) t → ∀ as t', (machine k).checkedRun internal t as = some t' → as.length ≤ t.work m) ∧
    (∀ t, (machine k).Reachable (fun t a => t.KeepsRoom a ∧ takes m t a) t →
      (∀ t', ((machine k).startedAt t).Reachable (fun t a => internal t a ∧ t.KeepsRoom a) t' → ¬t'.CanStep k → t'.Idle) ∧
      (t.work m ≤ channelCapacity →
        (∀ t', ((machine k).startedAt t).Reachable internal t' → ¬t'.CanStep k → t'.Idle) ∧
          ∃ t', ((machine k).startedAt t).Reachable internal t' ∧ t'.Idle)) ∧
    ∀ h : Handler, h.Served → h.Within 17 ∧
      ∀ t n, (machine k).Reachable Machine.anyStep t → t.handlers[n]? = some h → t.KeepsRoom (.lockHandler n) := by
  refine ⟨fun t ht as t' hr => ?_, fun t ht => ⟨fun t' ht' hstop => ?_, fun hle => ?_⟩, fun h hs => ⟨hs.within, fun t n ht hn => ?_⟩⟩
  · exact Machine.length_le_of_checkedRun (B := Within) (handlersWithin_of_reachable ht).within
      (fun n t a t' hw ha hstep => hw.step hstep ha) hr
  · have hsafe : t'.Safe := safe_of_reachable (k := k) ((ht.mono fun _ _ h => h.1).trans (ht'.mono fun _ _ h => h.2))
    exact Classical.byContradiction fun hidle => hstop (canStep_of_safe hsafe hidle)
  · have hwithin : t.HandlersWithin m := handlersWithin_of_reachable (k := k) (ht.mono fun _ _ h => h.2)
    exact Light.exists_idle ⟨hwithin.within, hle, sound_of_reachable ht, safe_of_reachable (k := k) (ht.mono fun _ _ h => h.1)⟩
  · exact keepsRoom_lockHandler (sound_of_reachable ht) hn fun held hl => hs.sends_eq_zero hl

end Tasks

namespace Sample

/-- The tasks as they start, when a user has asked for his address and `btc_worker` has received two deposits. -/
def asked : Tasks := { received 2 with handlers := [.getDepositAddressHandle "alice" .btc] }

end Sample

namespace Tasks

open Sample in
/-- The request and the deposits of `asked` are dealt with in less steps than the channels have slots. -/
theorem comes_to_rest_asked : ¬asked.Idle ∧ ∃ t, ((machine clock).startedAt asked).Reachable internal t ∧ t.Idle := by
  have htakes : ∀ t, takes 17 t (.request (.getDepositAddressHandle "alice" .btc)) := by
    intro t h hh
    obtain rfl := TaskAction.request.inj hh
    exact ((comes_to_rest clock 17).2.2 _ (.getDepositAddressHandle "alice" .btc)).1
  have hasked : (machine clock).Reachable (fun t a => t.KeepsRoom a ∧ takes 17 t a) asked :=
    .step (a := .request (.getDepositAddressHandle "alice" .btc)) (reachable_received 2 ⟨trivial, nofun⟩) ⟨trivial, htakes _⟩ rfl
  refine ⟨fun hidle => ?_, (((comes_to_rest clock 17).2.1 asked hasked).2 (by decide)).2⟩
  cases hidle.btcWorker

end Tasks

end Hexstody
