import Hexstody.Operator
import Hexstody.Scan

/-!
# The tasks, the mutex and the channels

The tasks of the hot wallet (`run_hot_wallet`), each between two places where it may have to wait: for the mutex of the State, for a
slot of a channel, for a message, or for an answer from outside. Both channels hold `channelCapacity` messages, and a task that
sends into a full one waits. `update_worker` takes the mutex for each update that it receives, and sends what the update answered
while it holds it; `btc_worker` sends the updates for a batch of events while it holds it (`process_btc_events`);
`update_results_worker` takes it to look a request up, and sends an update; the handlers of both APIs and the jobs of `cron_workers`
are programs (`Handler`) that may take it, send updates with it or without it, and call a module. A task that waits for the mutex
may get it as soon as it is free, in any order.
-/

namespace Hexstody

/-- What both channels hold: `mpsc::channel(1000)`. -/
def channelCapacity : Nat := 1000

/-! ## The programs of the handlers -/

/-- What is left to do for a handler that holds the mutex, until it goes on without it. -/
inductive Held (α : Type) where
  | unlock (next : α)
  | send (b : UpdateBody) (next : Held α)
  /-- It calls a module, which answers something, or fails. -/
  | call (next : Option String → Held α)

/-- What is left to do for a handler that does not hold the mutex. -/
inductive Handler where
  | done
  | send (b : UpdateBody) (next : Handler)
  | call (next : Option String → Handler)
  /-- It waits for the mutex, and reads the State. -/
  | lock (locked : State → Held Handler)

/-- How many updates are sent before the mutex is given back, or a module is called. -/
def Held.sends {α : Type} : Held α → Nat
  | .unlock _ => 0
  | .send _ next => next.sends + 1
  | .call _ => 0

namespace Handler

def isDone : Handler → Bool
  | .done => true
  | _ => false

/-- What the handler does with the mutex, if it waits for it. -/
def locked? (s : State) : Handler → Option (Held Handler)
  | .lock locked => some (locked s)
  | _ => none

/-- The guard is dropped before the rest of the handler runs on the copy of the user's entry. -/
def requireAuthUser (user : UserId) (next : UserInfo → Handler) : Handler :=
  .lock fun s =>
    match s.users.get? user with
    | some u => .unlock (next u)
    | none => .unlock .done

/-- A new address, under the mutex: the update is sent before the mutex is given back. -/
def allocateLocked (update : String → UpdateBody) : Held Handler :=
  .call fun answer =>
    match answer with
    | some address => .send (update address) (.unlock .done)
    | none => .unlock .done

/-- An address of a user in a currency, by the update that reports a new one: in bitcoins without the mutex, else under it. -/
def getDepositAddress (user : UserId) (currency : Currency) (update : CurrencyAddress → UpdateBody) : Handler :=
  match currency with
  | .btc =>
    .call fun answer =>
      match answer with
      | some address => .send (update (Handlers.packedAddress .btc address)) .done
      | none => .done
  | currency =>
    .lock fun s =>
      match s.currency? user currency with
      | none => .unlock .done
      | some info =>
        match info.depositInfo with
        | [] => allocateLocked fun address => update (Handlers.packedAddress currency address)
        | _ :: _ => .unlock .done

/-- (`POST /deposit/address`) -/
def getDepositAddressHandle (user : UserId) (currency : Currency) : Handler :=
  requireAuthUser user fun u =>
    getDepositAddress u.username currency fun address => .depositAddress { userId := u.username, address := address }

/-- (`POST /exchange/address`) What follows the guard. -/
def getExchangeAddress (currency : Currency) : Handler :=
  .lock fun s =>
    match s.exchangeState.addresses.get? currency with
    | some _ => .unlock .done
    | none => .unlock (getDepositAddress HEXSTODY_EXCHANGE_USER currency .exchangeAddress)

/-- (`POST /invite/generate`) The mutex is given back before the update is sent. -/
def genInvite (Γ : OpCtx) (sd : SignatureData) (req : InviteRequest) (ids : List Uuid) : Handler :=
  match Handlers.guardOpSignature Γ.ctx genInviteUri sd (Γ.inviteJson req) with
  | .error _ => .done
  | .ok () =>
    .lock fun s =>
      match Handlers.genInvite Γ s sd req ids with
      | .ok (some b) => .unlock (.send b .done)
      | _ => .unlock .done

/-- A job of `cron_workers`. -/
def clearLimits (span : LimitSpan) : Handler := .send (.clearLimits span) .done

end Handler

/-! ## The tasks -/

/-- The task that holds the mutex, and what it has still to do with it. -/
inductive MutexHolder where
  /-- `update_worker` applies and stores an update. -/
  | applying (u : StateUpdate)
  /-- `update_worker` sends what the update answered. -/
  | answering (res : UpdateResult)
  /-- `btc_worker` has these updates still to send. -/
  | forwarding (unsent : List UpdateBody)
  | handler (h : Held Handler)

namespace MutexHolder

/-- How many updates the holder sends before it gives the mutex back, or calls a module. -/
def sends : MutexHolder → Nat
  | .applying _ => 0
  | .answering _ => 0
  | .forwarding unsent => unsent.length
  | .handler h => h.sends

/-- The holder is `update_worker`. -/
def ofUpdateWorker : MutexHolder → Bool
  | .applying _ => true
  | .answering _ => true
  | _ => false

/-- `update_worker` has a result to send. -/
def isAnswering : MutexHolder → Bool
  | .answering _ => true
  | _ => false

/-- The next update that the holder sends. -/
def next? : MutexHolder → Option (UpdateBody × MutexHolder)
  | .forwarding (b :: bs) => some (b, .forwarding bs)
  | .handler (.send b next) => some (b, .handler next)
  | _ => none

/-- What the holder goes on with when a module answers. -/
def answered? (answer : Option String) : MutexHolder → Option (Held Handler)
  | .handler (.call next) => some (next answer)
  | _ => none

theorem next?_eq_some {b : UpdateBody} {h h' : MutexHolder} (hn : h.next? = some (b, h')) :
    (∃ bs, h = .forwarding (b :: bs) ∧ h' = .forwarding bs) ∨ ∃ held, h = .handler (.send b held) ∧ h' = .handler held := by
  cases h with
  | applying u => cases hn
  | answering res => cases hn
  | forwarding unsent =>
    cases unsent with
    | nil => cases hn
    | cons b' bs =>
      cases hn
      exact .inl ⟨bs, rfl, rfl⟩
  | handler held =>
    cases held with
    | unlock next => cases hn
    | call next => cases hn
    | send b' next =>
      cases hn
      exact .inr ⟨next, rfl, rfl⟩

theorem answered?_eq_some {answer : Option String} {h : MutexHolder} {held : Held Handler} (ha : h.answered? answer = some held) :
    ∃ next, h = .handler (.call next) ∧ held = next answer := by
  cases h with
  | handler held' =>
    cases held' with
    | call next =>
      cases ha
      exact ⟨next, rfl, rfl⟩
    | unlock next => cases ha
    | send b next => cases ha
  | applying u => cases ha
  | answering res => cases ha
  | forwarding unsent => cases ha

end MutexHolder

/-- What `update_results_worker` does at the moment: it waits for the mutex, to look a request up, or it works. -/
inductive ResultsWorker where
  | waiting (id : WithdrawalRequestId)
  | working (w : Worker)

structure Tasks where
  journal : Journal
  /-- The channel into `update_worker`. -/
  updates : List StateUpdate
  /-- The channel into `update_results_worker`. -/
  results : List UpdateResult
  mutex : Option MutexHolder
  /-- The update that `update_worker` has received and has not dealt with. -/
  updateWorker : Option StateUpdate
  /-- The events that `btc_worker` has received and has not dealt with. -/
  btcWorker : Option BtcEvents
  resultsWorker : ResultsWorker
  /-- The handlers and jobs that do not hold the mutex. -/
  handlers : List Handler

inductive TaskAction where
  /-- A request to an API, or a job that is due. -/
  | request (h : Handler)
  /-- The BTC module answers a poll. -/
  | poll (events : BtcEvents)
  | receiveUpdate
  | lockUpdate
  | apply (o : Oracle) (stored : Bool)
  | sendResult
  | lockEvents
  /-- The holder of the mutex sends its next update. -/
  | sendLocked (created : NaiveDateTime)
  /-- A module answers the holder of the mutex. -/
  | answerLocked (answer : Option String)
  | unlock
  | receiveResult
  | lookUp (o : Oracle)
  /-- A module answers `update_results_worker`. -/
  | answerPayment (reply : Reply) (now : NaiveDateTime)
  | sendSettlement
  | lockHandler (n : Nat)
  | sendHandler (n : Nat) (created : NaiveDateTime)
  /-- A module answers a handler that does not hold the mutex. -/
  | answerHandler (n : Nat) (answer : Option String)

/-- The step is of a task: it is no new request, and no new batch of events. -/
def TaskAction.Internal : TaskAction → Prop
  | .request _ => False
  | .poll _ => False
  | _ => True

instance (a : TaskAction) : Decidable a.Internal :=
  match a with
  | .request _ | .poll _ => isFalse id
  | .receiveUpdate | .lockUpdate | .apply .. | .sendResult | .lockEvents | .sendLocked _ | .answerLocked _ | .unlock | .receiveResult
  | .lookUp _ | .answerPayment .. | .sendSettlement | .lockHandler _ | .sendHandler .. | .answerHandler .. => isTrue trivial

/-- What `update_worker` makes of the next update, and what it has to send on: nothing when the update is refused, or when the
database fails. -/
def Journal.attempt (j : Journal) (o : Oracle) (stored : Bool) (u : StateUpdate) : Journal × Option UpdateResult :=
  match j.store o u with
  | none => (j, none)
  | some j' => if stored then (j', j'.answer) else (j, none)

namespace Tasks

/-- The updates that `btc_worker` sends for a batch of events. -/
def messages (t : Tasks) (events : BtcEvents) : List UpdateBody := processBtcEvents t.journal.state.btcState.blockHash events

/-- One step of one task. -/
def step (k : Clock) (t : Tasks) : TaskAction → Option Tasks
  | .request h => some { t with handlers := t.handlers ++ [h] }
  | .poll events =>
    match t.btcWorker with
    | none => some { t with btcWorker := some events }
    | some _ => none
  | .receiveUpdate =>
    match t.updateWorker, t.updates with
    | none, u :: us => some { t with updates := us, updateWorker := some u }
    | _, _ => none
  | .lockUpdate =>
    match t.mutex, t.updateWorker with
    | none, some u => some { t with mutex := some (.applying u) }
    | _, _ => none
  | .apply o stored =>
    match t.mutex with
    | some (.applying u) =>
      match t.journal.attempt o stored u with
      | (j, none) => some { t with journal := j, mutex := none, updateWorker := none }
      | (j, some res) => some { t with journal := j, mutex := some (.answering res) }
    | _ => none
  | .sendResult =>
    match t.mutex with
    | some (.answering res) =>
      if t.results.length < channelCapacity then
        some { t with results := t.results ++ [res], mutex := none, updateWorker := none }
      else none
    | _ => none
  | .lockEvents =>
    match t.mutex, t.btcWorker with
    | none, some events => some { t with mutex := some (.forwarding (t.messages events)) }
    | _, _ => none
  | .sendLocked created =>
    match t.mutex.bind MutexHolder.next? with
    | some (b, h) =>
      if t.updates.length < channelCapacity then
        some { t with updates := t.updates ++ [{ created := created, body := b }], mutex := some h }
      else none
    | none => none
  | .answerLocked answer => (t.mutex.bind (MutexHolder.answered? answer)).map fun h => { t with mutex := some (.handler h) }
  | .unlock =>
    match t.mutex with
    | some (.forwarding []) => some { t with mutex := none, btcWorker := none }
    | some (.handler (.unlock next)) => some { t with mutex := none, handlers := t.handlers ++ [next] }
    | _ => none
  | .receiveResult =>
    match t.resultsWorker, t.results with
    | .working .idle, .withdrawConfirmed id :: rs => some { t with results := rs, resultsWorker := .waiting id }
    | .working .idle, .withdrawalUnderlimit wr :: rs =>
      some { t with
        results := rs
        resultsWorker := .working (.calling wr.id (.withdrawUnderLimit (World.underLimitWithdrawal k wr))) }
    | _, _ => none
  | .lookUp o =>
    match t.mutex, t.resultsWorker with
    | none, .waiting id =>
      match World.taken k t.journal.state o (.withdrawConfirmed id) with
      | none => some { t with resultsWorker := .working .idle }
      | some (id, call) => some { t with resultsWorker := .working (.calling id call) }
    | _, _ => none
  | .answerPayment reply now =>
    match t.resultsWorker with
    | .working (.calling id call) =>
      (World.answered id call reply now).map fun w => { t with resultsWorker := .working w }
    | _ => none
  | .sendSettlement =>
    match t.resultsWorker with
    | .working (.sending u) =>
      if t.updates.length < channelCapacity then
        some { t with updates := t.updates ++ [u], resultsWorker := .working .idle }
      else none
    | _ => none
  | .lockHandler n =>
    match t.mutex, t.handlers[n]? with
    | none, some (.lock locked) =>
      some { t with mutex := some (.handler (locked t.journal.state)), handlers := t.handlers.eraseIdx n }
    | _, _ => none
  | .sendHandler n created =>
    match t.handlers[n]? with
    | some (.send b next) =>
      if t.updates.length < channelCapacity then
        some { t with updates := t.updates ++ [{ created := created, body := b }], handlers := t.handlers.set n next }
      else none
    | _ => none
  | .answerHandler n answer =>
    match t.handlers[n]? with
    | some (.call next) => some { t with handlers := t.handlers.set n (next answer) }
    | _ => none

/-- The tasks as they start, with the State that was read back. -/
def new (j : Journal) : Tasks where
  journal := j
  updates := []
  results := []
  mutex := none
  updateWorker := none
  btcWorker := none
  resultsWorker := .working .idle
  handlers := []

def machine (k : Clock) : Machine Tasks TaskAction where
  init t := ∃ j, t = new j
  step := step k

/-- What a step can do. -/
inductive Step (k : Clock) (t : Tasks) : TaskAction → Tasks → Prop where
  | request (h : Handler) : Step k t (.request h) { t with handlers := t.handlers ++ [h] }
  | poll (events : BtcEvents) (hb : t.btcWorker = none) : Step k t (.poll events) { t with btcWorker := some events }
  | receiveUpdate (u : StateUpdate) (us : List StateUpdate) (hu : t.updateWorker = none) (hus : t.updates = u :: us) :
      Step k t .receiveUpdate { t with updates := us, updateWorker := some u }
  | lockUpdate (u : StateUpdate) (hm : t.mutex = none) (hu : t.updateWorker = some u) :
      Step k t .lockUpdate { t with mutex := some (.applying u) }
  | applied (o : Oracle) (stored : Bool) (u : StateUpdate) (j : Journal) (hm : t.mutex = some (.applying u))
      (hj : t.journal.attempt o stored u = (j, none)) :
      Step k t (.apply o stored) { t with journal := j, mutex := none, updateWorker := none }
  | answers (o : Oracle) (stored : Bool) (u : StateUpdate) (j : Journal) (res : UpdateResult)
      (hm : t.mutex = some (.applying u)) (hj : t.journal.attempt o stored u = (j, some res)) :
      Step k t (.apply o stored) { t with journal := j, mutex := some (.answering res) }
  | sendResult (res : UpdateResult) (hm : t.mutex = some (.answering res)) (hroom : t.results.length < channelCapacity) :
      Step k t .sendResult { t with results := t.results ++ [res], mutex := none, updateWorker := none }
  | lockEvents (events : BtcEvents) (hm : t.mutex = none) (hb : t.btcWorker = some events) :
      Step k t .lockEvents { t with mutex := some (.forwarding (t.messages events)) }
  | sendLocked (created : NaiveDateTime) (h h' : MutexHolder) (b : UpdateBody) (hm : t.mutex = some h) (hn : h.next? = some (b, h'))
      (hroom : t.updates.length < channelCapacity) :
      Step k t (.sendLocked created)
        { t with updates := t.updates ++ [{ created := created, body := b }], mutex := some h' }
  | answerLocked (answer : Option String) (h : MutexHolder) (h' : Held Handler) (hm : t.mutex = some h)
      (ha : h.answered? answer = some h') : Step k t (.answerLocked answer) { t with mutex := some (.handler h') }
  | unlockEvents (hm : t.mutex = some (.forwarding [])) : Step k t .unlock { t with mutex := none, btcWorker := none }
  | unlockHandler (next : Handler) (hm : t.mutex = some (.handler (.unlock next))) :
      Step k t .unlock { t with mutex := none, handlers := t.handlers ++ [next] }
  | receiveResult (res : UpdateResult) (rs : List UpdateResult) (r : ResultsWorker) (hr : t.resultsWorker = .working .idle)
      (hrs : t.results = res :: rs) (hne : ∀ u, r ≠ .working (.sending u)) :
      Step k t .receiveResult { t with results := rs, resultsWorker := r }
  | lookUp (o : Oracle) (id : WithdrawalRequestId) (r : ResultsWorker) (hm : t.mutex = none) (hr : t.resultsWorker = .waiting id)
      (hne : ∀ u, r ≠ .working (.sending u)) : Step k t (.lookUp o) { t with resultsWorker := r }
  | answerPayment (reply : Reply) (now : NaiveDateTime) (id : WithdrawalRequestId) (call : PayCall) (w : Worker)
      (hr : t.resultsWorker = .working (.calling id call)) (hw : World.answered id call reply now = some w) :
      Step k t (.answerPayment reply now) { t with resultsWorker := .working w }
  | sendSettlement (u : StateUpdate) (hr : t.resultsWorker = .working (.sending u)) (hroom : t.updates.length < channelCapacity) :
      Step k t .sendSettlement { t with updates := t.updates ++ [u], resultsWorker := .working .idle }
  | lockHandler (n : Nat) (locked : State → Held Handler) (hm : t.mutex = none) (hn : t.handlers[n]? = some (.lock locked)) :
      Step k t (.lockHandler n)
        { t with mutex := some (.handler (locked t.journal.state)), handlers := t.handlers.eraseIdx n }
  | sendHandler (n : Nat) (created : NaiveDateTime) (b : UpdateBody) (next : Handler) (hn : t.handlers[n]? = some (.send b next))
      (hroom : t.updates.length < channelCapacity) :
      Step k t (.sendHandler n created)
        { t with updates := t.updates ++ [{ created := created, body := b }], handlers := t.handlers.set n next }
  | answerHandler (n : Nat) (answer : Option String) (next : Option String → Handler)
      (hn : t.handlers[n]? = some (.call next)) :
      Step k t (.answerHandler n answer) { t with handlers := t.handlers.set n (next answer) }

theorem step_eq_some {k : Clock} {t t' : Tasks} {a : TaskAction} (h : t.step k a = some t') : Step k t a t' := by
  cases a with
  | request h' =>
    obtain rfl := Option.some.inj h
    exact .request h'
  | poll events =>
    simp only [step] at h
    split at h
    · obtain rfl := Option.some.inj h
      exact .poll events ‹_›
    · cases h
  | receiveUpdate =>
    simp only [step] at h
    split at h
    · obtain rfl := Option.some.inj h
      exact .receiveUpdate _ _ ‹_› ‹_›
    · cases h
  | lockUpdate =>
    simp only [step] at h
    split at h
    · obtain rfl := Option.some.inj h
      exact .lockUpdate _ ‹_› ‹_›
    · cases h
  | apply o stored =>
    simp only [step] at h
    split at h
    · split at h
      · obtain rfl := Option.some.inj h
        exact .applied o stored _ _ ‹_› ‹_›
      · obtain rfl := Option.some.inj h
        exact .answers o stored _ _ _ ‹_› ‹_›
    · cases h
  | sendResult =>
    simp only [step] at h
    split at h
    · split at h
      · obtain rfl := Option.some.inj h
        exact .sendResult _ ‹_› ‹_›
      · cases h
    · cases h
  | lockEvents =>
    simp only [step] at h
    split at h
    · obtain rfl := Option.some.inj h
      exact .lockEvents _ ‹_› ‹_›
    · cases h
  | sendLocked created =>
    simp only [step] at h
    split at h
    · rename_i b h' hb
      obtain ⟨holder, hm, hn⟩ := Option.bind_eq_some_iff.mp hb
      split at h
      · obtain rfl := Option.some.inj h
        exact .sendLocked created holder h' b hm hn ‹_›
      · cases h
    · cases h
  | answerLocked answer =>
    simp only [step] at h
    obtain ⟨h', hb, rfl⟩ := Option.map_eq_some_iff.mp h
    obtain ⟨holder, hm, ha⟩ := Option.bind_eq_some_iff.mp hb
    exact .answerLocked answer holder h' hm ha
  | unlock =>
    simp only [step] at h
    split at h
    · obtain rfl := Option.some.inj h
      exact .unlockEvents ‹_›
    · obtain rfl := Option.some.inj h
      exact .unlockHandler _ ‹_›
    · cases h
  | receiveResult =>
    simp only [step] at h
    split at h
    · obtain rfl := Option.some.inj h
      exact .receiveResult _ _ _ ‹_› ‹_› (fun _ => nofun)
    · obtain rfl := Option.some.inj h
      exact .receiveResult _ _ _ ‹_› ‹_› (fun _ => nofun)
    · cases h
  | lookUp o =>
    simp only [step] at h
    split at h
    · split at h
      · obtain rfl := Option.some.inj h
        exact .lookUp o _ _ ‹_› ‹_› (fun _ => nofun)
      · obtain rfl := Option.some.inj h
        exact .lookUp o _ _ ‹_› ‹_› (fun _ => nofun)
    · cases h
  | answerPayment reply now =>
    simp only [step] at h
    split at h
    · obtain ⟨w, hw, rfl⟩ := Option.map_eq_some_iff.mp h
      exact .answerPayment reply now _ _ w ‹_› hw
    · cases h
  | sendSettlement =>
    simp only [step] at h
    split at h
    · split at h
      · obtain rfl := Option.some.inj h
        exact .sendSettlement _ ‹_› ‹_›
      · cases h
    · cases h
  | lockHandler n =>
    simp only [step] at h
    split at h
    · obtain rfl := Option.some.inj h
      exact .lockHandler n _ ‹_› ‹_›
    · cases h
  | sendHandler n created =>
    simp only [step] at h
    split at h
    · split at h
      · obtain rfl := Option.some.inj h
        exact .sendHandler n created _ _ ‹_› ‹_›
      · cases h
    · cases h
  | answerHandler n answer =>
    simp only [step] at h
    split at h
    · obtain rfl := Option.some.inj h
      exact .answerHandler n answer _ ‹_›
    · cases h

/-- No task has anything to do. -/
structure Idle (t : Tasks) : Prop where
  updates : t.updates = []
  results : t.results = []
  mutex : t.mutex = none
  updateWorker : t.updateWorker = none
  btcWorker : t.btcWorker = none
  resultsWorker : t.resultsWorker = .working .idle
  handlers : ∀ h ∈ t.handlers, h.isDone = true

end Tasks

end Hexstody
