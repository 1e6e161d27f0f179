import Hexstody.Tasks

/-!
# The tasks and deadlock

`btc_worker` sends an update for each event of a batch while it holds the mutex, and `update_worker` needs the mutex for each update
that it takes out of the channel: when a batch makes more updates than the channel has room for, both wait for each other for ever
(`large_batch_deadlocks`). So does a handler that sends under the mutex, and `update_worker` that sends a result into a full channel
while `update_results_worker` waits. `KeepsRoom` is the condition under which none of this happens: room for what is sent under the
mutex. Where every step keeps room, some task can take a step whenever there is work; a step that does not keep room leaves a holder
of the mutex that never gives it back (`Blocked`), and the other tasks come to an end one after the other.
-/

namespace Hexstody

namespace Handler

/-- How many steps the handler takes before it waits for the mutex or is done, when every call fails. -/
def steps : Handler → Nat
  | .done => 0
  | .send _ next => next.steps + 1
  | .call next => (next none).steps + 1
  | .lock _ => 0

/-- A handler that asks for an address with the mutex gives it back, or allocates one. -/
theorem locked_getDepositAddress {user : UserId} {currency : Currency} {update : CurrencyAddress → UpdateBody} {s : State}
    {held : Held Handler} (h : (getDepositAddress user currency update).locked? s = some held) :
    held = .unlock .done ∨ ∃ allocated, held = allocateLocked allocated := by
  cases currency with
  | btc => cases h
  | eth =>
    obtain rfl := Option.some.inj h
    dsimp only
    split
    · exact .inl rfl
    · split
      · exact .inr ⟨_, rfl⟩
      · exact .inl rfl
  | erc20 token =>
    obtain rfl := Option.some.inj h
    dsimp only
    split
    · exact .inl rfl
    · split
      · exact .inr ⟨_, rfl⟩
      · exact .inl rfl

/-- A handler that makes an invite sends nothing under the mutex. -/
theorem sends_genInvite {Γ : OpCtx} {sd : SignatureData} {req : InviteRequest} {ids : List Uuid} {s : State} {held : Held Handler}
    (h : (genInvite Γ sd req ids).locked? s = some held) : ∃ next, held = .unlock next := by
  unfold genInvite at h
  split at h
  · cases h
  · obtain rfl := Option.some.inj h
    dsimp only
    split
    · exact ⟨_, rfl⟩
    · exact ⟨_, rfl⟩

end Handler

namespace Tasks

variable {k : Clock} {t t' : Tasks} {a : TaskAction} {h : MutexHolder}

/-! ## Room -/

/-- The channel of the updates takes so many more before `update_worker` gets the mutex: one more than it has slots for when
`update_worker` waits for an update. -/
def Room (t : Tasks) (n : Nat) : Prop :=
  t.updates.length + n ≤ channelCapacity + (if t.updateWorker.isNone then 1 else 0)

instance (t : Tasks) (n : Nat) : Decidable (t.Room n) := inferInstanceAs (Decidable (_ ≤ _))

/-- `update_results_worker` comes back to its channel without the mutex, also when so many more updates were sent before it. -/
def Returns (t : Tasks) (n : Nat) : Prop :=
  match t.resultsWorker with
  | .waiting _ => False
  | .working (.sending _) => t.updates.length + n < channelCapacity
  | .working _ => True

instance (t : Tasks) (n : Nat) : Decidable (t.Returns n) :=
  match h : t.resultsWorker with
  | .waiting _ => isFalse (by simp [Returns, h])
  | .working (.sending _) =>
    if hn : t.updates.length + n < channelCapacity then isTrue (by simpa [Returns, h] using hn)
    else isFalse (by simpa [Returns, h] using hn)
  | .working .idle => isTrue (by simp [Returns, h])
  | .working (.calling _ _) => isTrue (by simp [Returns, h])

/-- `update_worker` can send a result, at once or when `update_results_worker` has come back. -/
def CanAnswer (t : Tasks) (n : Nat) : Prop := t.results.length < channelCapacity ∨ t.Returns n

instance (t : Tasks) (n : Nat) : Decidable (t.CanAnswer n) := inferInstanceAs (Decidable (_ ∨ _))

/-- A task with the mutex can do what it has to do with it, also when the others send so many more updates before it. -/
def CanFinish (t : Tasks) (n : Nat) : MutexHolder → Prop
  | .applying _ => True
  | .answering _ => t.CanAnswer n
  | .forwarding unsent => t.Room (unsent.length + n)
  | .handler h => t.Room (h.sends + n)

instance (t : Tasks) (n : Nat) (h : MutexHolder) : Decidable (t.CanFinish n h) :=
  match h with
  | .applying _ => isTrue trivial
  | .answering _ => inferInstanceAs (Decidable (t.CanAnswer n))
  | .forwarding unsent => inferInstanceAs (Decidable (t.Room (unsent.length + n)))
  | .handler h => inferInstanceAs (Decidable (t.Room (h.sends + n)))

/-- The result that `update_worker` has to send on, when it applies and stores its update. -/
def answer? (t : Tasks) (o : Oracle) (stored : Bool) : Option UpdateResult :=
  match t.mutex with
  | some (.applying u) => (t.journal.attempt o stored u).2
  | _ => none

/-- The answer of a module makes `update_results_worker` send an update. -/
def settles (t : Tasks) (reply : Reply) (now : NaiveDateTime) : Bool :=
  match t.resultsWorker with
  | .working (.calling id call) =>
    match World.answered id call reply now with
    | some (.sending _) => true
    | _ => false
  | _ => false

/-- There is room for the step: for the updates that a task sends under the mutex, when it takes the mutex or a module answers it;
for those that the holder of the mutex has still to send, when another task sends one; and for the result of an update, when it is
applied and as long as it is not sent. -/
def KeepsRoom (t : Tasks) : TaskAction → Prop
  | .apply o stored => (t.answer? o stored).isSome → t.CanAnswer 0
  | .lockEvents => ∀ events ∈ t.btcWorker, t.Room (t.messages events).length
  | .lockHandler n => ∀ h ∈ t.handlers[n]?, ∀ held ∈ h.locked? t.journal.state, t.Room held.sends
  | .answerLocked answer => ∀ held ∈ t.mutex.bind (MutexHolder.answered? answer), t.Room held.sends
  | .answerPayment reply now =>
    ∀ h ∈ t.mutex, h.isAnswering → t.settles reply now → t.results.length < channelCapacity ∨ t.updates.length < channelCapacity
  | .sendHandler _ _ => ∀ h ∈ t.mutex, t.CanFinish 1 h
  | .sendSettlement => ∀ h ∈ t.mutex, h.isAnswering ∨ t.CanFinish 1 h
  | _ => True

instance (t : Tasks) (a : TaskAction) : Decidable (t.KeepsRoom a) :=
  match a with
  | .apply o stored => inferInstanceAs (Decidable ((t.answer? o stored).isSome → t.CanAnswer 0))
  | .lockEvents => inferInstanceAs (Decidable (∀ events ∈ t.btcWorker, t.Room (t.messages events).length))
  | .lockHandler n =>
    inferInstanceAs (Decidable (∀ h ∈ t.handlers[n]?, ∀ held ∈ h.locked? t.journal.state, t.Room held.sends))
  | .answerLocked answer =>
    inferInstanceAs (Decidable (∀ held ∈ t.mutex.bind (MutexHolder.answered? answer), t.Room held.sends))
  | .answerPayment reply now =>
    inferInstanceAs (Decidable (∀ h ∈ t.mutex, h.isAnswering → t.settles reply now →
      t.results.length < channelCapacity ∨ t.updates.length < channelCapacity))
  | .sendHandler _ _ => inferInstanceAs (Decidable (∀ h ∈ t.mutex, t.CanFinish 1 h))
  | .sendSettlement => inferInstanceAs (Decidable (∀ h ∈ t.mutex, h.isAnswering ∨ t.CanFinish 1 h))
  | .request _ | .poll _ | .receiveUpdate | .lockUpdate | .sendResult | .sendLocked _ | .unlock | .receiveResult | .lookUp _
  | .answerHandler _ _ => isTrue trivial

/-! ## What holds of every state reached -/

/-- The channels hold what they hold, and `update_worker` does not wait for an update while it has the mutex. -/
structure Sound (t : Tasks) : Prop where
  updates : t.updates.length ≤ channelCapacity
  results : t.results.length ≤ channelCapacity
  received : ∀ h, t.mutex = some h → h.ofUpdateWorker = true → t.updateWorker.isSome = true

theorem Sound.of_free (hupd : t.updates.length ≤ channelCapacity) (hres : t.results.length ≤ channelCapacity)
    (hm : t.mutex = none) : t.Sound :=
  ⟨hupd, hres, fun h hh => by simp [hm] at hh⟩

theorem Sound.of_other (hupd : t.updates.length ≤ channelCapacity) (hres : t.results.length ≤ channelCapacity)
    (hm : t.mutex = some h) (hh : h.ofUpdateWorker = false) : t.Sound := by
  refine ⟨hupd, hres, fun h' hm' hh' => ?_⟩
  rw [hm, Option.some.injEq] at hm'
  simp [← hm', hh] at hh'

theorem Sound.step (hs : t.Sound) (ht : Step k t a t') : t'.Sound := by
  obtain ⟨hupd, hres, hrec⟩ := hs
  cases ht with
  | request h => exact ⟨hupd, hres, hrec⟩
  | poll events hb => exact ⟨hupd, hres, hrec⟩
  | receiveUpdate u us hu hus =>
    rw [hus, List.length_cons] at hupd
    exact ⟨by simp only; omega, hres, fun _ _ _ => rfl⟩
  | lockUpdate u hm hu => exact ⟨hupd, hres, fun _ _ _ => by simp [hu]⟩
  | applied o stored u j hm hj => exact .of_free hupd hres rfl
  | answers o stored u j res hm hj => exact ⟨hupd, hres, fun _ _ _ => hrec _ hm rfl⟩
  | sendResult res hm hroom =>
    refine .of_free hupd ?_ rfl
    simp only [List.length_append, List.length_singleton]
    omega
  | lockEvents events hm hb => exact .of_other hupd hres rfl rfl
  | sendLocked created h h' b hm hn hroom =>
    refine .of_other ?_ hres rfl ?_
    · simp only [List.length_append, List.length_singleton]
      omega
    · rcases MutexHolder.next?_eq_some hn with ⟨bs, -, rfl⟩ | ⟨held, -, rfl⟩ <;> rfl
  | answerLocked answer h h' hm ha => exact .of_other hupd hres rfl rfl
  | unlockEvents hm => exact .of_free hupd hres rfl
  | unlockHandler next hm => exact .of_free hupd hres rfl
  | receiveResult res rs r hr hrs hne =>
    rw [hrs, List.length_cons] at hres
    exact ⟨hupd, by simp only; omega, hrec⟩
  | lookUp o id r hm hr hne => exact ⟨hupd, hres, hrec⟩
  | answerPayment reply now id call w hr hw => exact ⟨hupd, hres, hrec⟩
  | sendSettlement u hr hroom =>
    refine ⟨?_, hres, hrec⟩
    simp only [List.length_append, List.length_singleton]
    omega
  | lockHandler n locked hm hn => exact .of_other hupd hres rfl rfl
  | sendHandler n created b next hn hroom =>
    refine ⟨?_, hres, hrec⟩
    simp only [List.length_append, List.length_singleton]
    omega
  | answerHandler n answer next hn => exact ⟨hupd, hres, hrec⟩

theorem sound_of_reachable {P : Tasks → TaskAction → Prop} (ht : (machine k).Reachable P t) : t.Sound := by
  refine ht.invariant ?_ (fun t a t' _ hs _ hstep => hs.step (step_eq_some hstep))
  rintro t ⟨j, rfl⟩
  exact .of_free (Nat.zero_le _) (Nat.zero_le _) rfl

/-! ## Steps that keep room -/

/-- The task that holds the mutex, if there is one, can do what it has to do with it. -/
def Safe (t : Tasks) : Prop := ∀ h, t.mutex = some h → t.CanFinish 0 h

theorem safe_of_free (hm : t.mutex = none) : t.Safe := fun h hh => by simp [hm] at hh

theorem safe_held_iff (hm : t.mutex = some h) : t.Safe ↔ t.CanFinish 0 h := by
  simp [Safe, hm]

theorem eq_answering (hh : h.isAnswering = true) : ∃ res, h = .answering res := by
  cases h with
  | answering res => exact ⟨res, rfl⟩
  | applying u => cases hh
  | forwarding unsent => cases hh
  | handler held => cases hh

/-- Who has no result to send does not depend on `update_results_worker`. -/
theorem canFinish_congr {n : Nat} (hfin : t.CanFinish n h) (hh : h.isAnswering = false) (hupd : t'.updates = t.updates)
    (hu : t'.updateWorker = t.updateWorker) : t'.CanFinish n h := by
  cases h with
  | answering res => cases hh
  | applying u => trivial
  | forwarding unsent => simpa only [CanFinish, Room, hupd, hu] using hfin
  | handler held => simpa only [CanFinish, Room, hupd, hu] using hfin

/-- `update_worker` takes up the update that it waits for: there is room for as many as before. -/
theorem canFinish_receive {u : StateUpdate} {us : List StateUpdate} (hu : t.updateWorker = none) (hus : t.updates = u :: us)
    (hh : h.ofUpdateWorker = false) (n : Nat) :
    ({ t with updates := us, updateWorker := some u } : Tasks).CanFinish n h ↔ t.CanFinish n h := by
  have hroom (m : Nat) : ({ t with updates := us, updateWorker := some u } : Tasks).Room m ↔ t.Room m := by
    simp only [Room, hu, hus, List.length_cons, Option.isNone_none, Option.isNone_some, if_true, Bool.false_eq_true, if_false]
    omega
  cases h with
  | applying u => cases hh
  | answering res => cases hh
  | forwarding unsent => exact hroom _
  | handler held => exact hroom _

/-- What another task sends takes up one slot. -/
theorem canFinish_append (u : StateUpdate) (hs : List Handler) (n : Nat) (h : MutexHolder) :
    ({ t with updates := t.updates ++ [u], handlers := hs } : Tasks).CanFinish n h ↔ t.CanFinish (n + 1) h := by
  cases h with
  | applying u => exact Iff.rfl
  | answering res =>
    simp only [CanFinish, CanAnswer, Returns, List.length_append, List.length_singleton, Nat.add_right_comm _ 1 n, Nat.add_assoc]
  | forwarding unsent =>
    simp only [CanFinish, Room, List.length_append, List.length_singleton]
    constructor <;> intro h <;> omega
  | handler held =>
    simp only [CanFinish, Room, List.length_append, List.length_singleton]
    constructor <;> intro h <;> omega

/-- A step from a safe state is one to a safe state just when it keeps room. -/
theorem safe_step_iff (hs : t.Sound) (hsafe : t.Safe) (ht : Step k t a t') : t'.Safe ↔ t.KeepsRoom a := by
  cases ht with
  | request h => exact ⟨fun _ => trivial, fun _ => hsafe⟩
  | poll events hb => exact ⟨fun _ => trivial, fun _ => hsafe⟩
  | receiveUpdate u us hu hus =>
    refine ⟨fun _ => trivial, fun _ h hm => ?_⟩
    cases hown : h.ofUpdateWorker with
    | true => simpa [hu] using hs.received h hm hown
    | false => exact (canFinish_receive hu hus hown 0).mpr (hsafe h hm)
  | lockUpdate u hm hu =>
    refine ⟨fun _ => trivial, fun _ => ?_⟩
    rw [safe_held_iff rfl]
    trivial
  | applied o stored u j hm hj =>
    refine ⟨fun _ h => ?_, fun _ => safe_of_free rfl⟩
    simp [answer?, hm, hj] at h
  | answers o stored u j res hm hj =>
    have ha : t.answer? o stored = some res := by simp [answer?, hm, hj]
    rw [safe_held_iff rfl]
    simp only [KeepsRoom, ha, Option.isSome_some, forall_const]
    exact Iff.rfl
  | sendResult res hm hroom => exact ⟨fun _ => trivial, fun _ => safe_of_free rfl⟩
  | lockEvents events hm hb =>
    rw [safe_held_iff rfl]
    simp only [KeepsRoom, hb, Option.mem_some_iff, forall_eq']
    exact Iff.rfl
  | sendLocked created h h' b hm hn hroom =>
    refine ⟨fun _ => trivial, fun _ => (safe_held_iff rfl).mpr ?_⟩
    have hfin := hsafe h hm
    rcases MutexHolder.next?_eq_some hn with ⟨bs, rfl, rfl⟩ | ⟨held, rfl, rfl⟩
    · simp only [CanFinish, Room, List.length_cons, List.length_append, List.length_nil] at hfin ⊢
      omega
    · simp only [CanFinish, Room, Held.sends, List.length_append, List.length_singleton] at hfin ⊢
      omega
  | answerLocked answer h held hm ha =>
    rw [safe_held_iff rfl]
    simp only [KeepsRoom, hm, Option.bind_some, ha, Option.mem_some_iff, forall_eq']
    exact Iff.rfl
  | unlockEvents hm => exact ⟨fun _ => trivial, fun _ => safe_of_free rfl⟩
  | unlockHandler next hm => exact ⟨fun _ => trivial, fun _ => safe_of_free rfl⟩
  | receiveResult res rs r hr hrs hne =>
    refine ⟨fun _ => trivial, fun _ h hm => ?_⟩
    have hlen := hs.results
    rw [hrs, List.length_cons] at hlen
    cases hans : h.isAnswering with
    | true =>
      obtain ⟨res, rfl⟩ := eq_answering hans
      exact .inl hlen
    | false => exact canFinish_congr (hsafe h hm) hans rfl rfl
  | lookUp o id r hm hr hne => exact ⟨fun _ => trivial, fun _ => safe_of_free hm⟩
  | answerPayment reply now id call w hr hw =>
    constructor
    · intro hsafe' h hm hans hset
      obtain ⟨res, rfl⟩ := eq_answering hans
      cases w with
      | sending u => exact hsafe' _ hm
      | idle => simp [settles, hr, hw] at hset
      | calling id call => simp [settles, hr, hw] at hset
    · intro hk h hm
      cases hans : h.isAnswering with
      | true =>
        obtain ⟨res, rfl⟩ := eq_answering hans
        cases w with
        | sending u => exact hk _ hm rfl (by simp [settles, hr, hw])
        | idle => exact .inr trivial
        | calling id call => exact .inr trivial
      | false => exact canFinish_congr (hsafe h hm) hans rfl rfl
  | sendSettlement u hr hroom =>
    refine forall₂_congr fun h hm => ?_
    cases hans : h.isAnswering with
    | true =>
      -- the worker comes back to its channel
      obtain ⟨res, rfl⟩ := eq_answering hans
      exact ⟨fun _ => .inl rfl, fun _ => .inr trivial⟩
    | false =>
      simp only [Bool.false_eq_true, false_or]
      have hsent := canFinish_append (t := { t with resultsWorker := .working .idle }) u t.handlers 0 h
      exact ⟨fun hfin => canFinish_congr (hsent.mp hfin) hans rfl rfl, fun hfin => hsent.mpr (canFinish_congr hfin hans rfl rfl)⟩
  | lockHandler n locked hm hn =>
    rw [safe_held_iff rfl]
    simp only [KeepsRoom, hn, Option.mem_some_iff, forall_eq', Handler.locked?]
    exact Iff.rfl
  | sendHandler n created b next hn hroom =>
    exact forall₂_congr fun h hm => canFinish_append _ _ 0 h
  | answerHandler n answer next hn => exact ⟨fun _ => trivial, fun _ => hsafe⟩

/-- A handler that sends nothing under the mutex before a module answers keeps room when it takes it. -/
theorem keepsRoom_lockHandler {n : Nat} {handler : Handler} (hs : t.Sound) (hn : t.handlers[n]? = some handler)
    (hsends : ∀ held, handler.locked? t.journal.state = some held → held.sends = 0) : t.KeepsRoom (.lockHandler n) := by
  rintro h hh held hheld
  obtain rfl : handler = h := Option.some.inj (hn.symm.trans hh)
  rw [hsends held hheld]
  exact hs.updates.trans (Nat.le_add_right _ _)

/-- Where every step keeps room, every state is safe. -/
theorem safe_of_reachable (ht : (machine k).Reachable KeepsRoom t) : t.Safe := by
  refine ht.invariant ?_ (fun t a t' hr hsafe hk hstep => (safe_step_iff (sound_of_reachable hr) hsafe (step_eq_some hstep)).mpr hk)
  rintro t ⟨j, rfl⟩
  exact safe_of_free rfl

/-! ## Progress -/

/-- The step is of a task. -/
def internal (_ : Tasks) (a : TaskAction) : Prop := a.Internal

instance (t : Tasks) (a : TaskAction) : Decidable (internal t a) := inferInstanceAs (Decidable a.Internal)

/-- Some task can take a step. -/
def CanStep (k : Clock) (t : Tasks) : Prop := ∃ a : TaskAction, a.Internal ∧ (t.step k a).isSome = true

/-- A task with the mutex that can do what it has to do with it, or a task that it waits for, can take a step. -/
theorem canStep_of_held (hm : t.mutex = some h) (hfin : t.CanFinish 0 h) : t.CanStep k := by
  -- a slot is free, or `update_worker` takes an update out of the channel
  have hsend (n : Nat) (hroom : t.Room (n + 1)) :
      t.updates.length < channelCapacity ∨ (t.step k .receiveUpdate).isSome = true := by
    unfold Room at hroom
    cases hu : t.updateWorker with
    | some u =>
      simp only [hu, Option.isNone_some, Bool.false_eq_true, if_false] at hroom
      exact .inl (by omega)
    | none =>
      cases hus : t.updates with
      | nil => exact .inl (by simp [channelCapacity])
      | cons u us => exact .inr (by simp [step, hu, hus])
  cases h with
  | applying u =>
    refine ⟨.apply Sample.oracle false, trivial, ?_⟩
    simp only [step, hm]
    split <;> rfl
  | answering res =>
    by_cases hroom : t.results.length < channelCapacity
    · exact ⟨.sendResult, trivial, by simp [step, hm, hroom]⟩
    · have hback : t.Returns 0 := hfin.resolve_left hroom
      cases hr : t.resultsWorker with
      | waiting id => simp [Returns, hr] at hback
      | working w =>
        cases w with
        | idle =>
          cases hrs : t.results with
          | nil => simp [hrs, channelCapacity] at hroom
          | cons r rs =>
            refine ⟨.receiveResult, trivial, ?_⟩
            cases r <;> simp [step, hr, hrs]
        | calling id call =>
          refine ⟨.answerPayment (.failed "") ⟨0⟩, trivial, ?_⟩
          cases call <;> simp [step, hr, World.answered]
        | sending u =>
          simp only [Returns, hr, Nat.add_zero] at hback
          exact ⟨.sendSettlement, trivial, by simp [step, hr, hback]⟩
  | forwarding unsent =>
    cases unsent with
    | nil => exact ⟨.unlock, trivial, by simp [step, hm]⟩
    | cons b bs =>
      rcases hsend bs.length hfin with hroom | hrecv
      · exact ⟨.sendLocked ⟨0⟩, trivial, by simp [step, hm, MutexHolder.next?, hroom]⟩
      · exact ⟨.receiveUpdate, trivial, hrecv⟩
  | handler held =>
    cases held with
    | unlock next => exact ⟨.unlock, trivial, by simp [step, hm]⟩
    | call next => exact ⟨.answerLocked none, trivial, by simp [step, hm, MutexHolder.answered?]⟩
    | send b next =>
      rcases hsend next.sends hfin with hroom | hrecv
      · exact ⟨.sendLocked ⟨0⟩, trivial, by simp [step, hm, MutexHolder.next?, hroom]⟩
      · exact ⟨.receiveUpdate, trivial, hrecv⟩

/-- When the mutex is free, whoever waits for it can take it. -/
theorem canStep_of_free (hm : t.mutex = none) (hidle : ¬t.Idle) : t.CanStep k := by
  by_contra hno
  have hnone (a : TaskAction) (ha : a.Internal) : t.step k a = none := by
    cases hstep : t.step k a with
    | none => rfl
    | some t' => exact absurd ⟨a, ha, by rw [hstep]; rfl⟩ hno
  have hu : t.updateWorker = none := by
    cases hu : t.updateWorker with
    | none => rfl
    | some u => simpa [step, hm, hu] using hnone .lockUpdate trivial
  have hus : t.updates = [] := by
    cases hus : t.updates with
    | nil => rfl
    | cons u us => simpa [step, hu, hus] using hnone .receiveUpdate trivial
  have hroom : t.updates.length < channelCapacity := by simp [hus, channelCapacity]
  have hb : t.btcWorker = none := by
    cases hb : t.btcWorker with
    | none => rfl
    | some events => simpa [step, hm, hb] using hnone .lockEvents trivial
  have hr : t.resultsWorker = .working .idle := by
    cases hr : t.resultsWorker with
    | waiting id =>
      have := hnone (.lookUp Sample.oracle) trivial
      simp only [step, hm, hr] at this
      split at this <;> cases this
    | working w =>
      cases w with
      | idle => rfl
      | calling id call =>
        have := hnone (.answerPayment (.failed "") ⟨0⟩) trivial
        cases call <;> simp [step, hr, World.answered] at this
      | sending u => simpa [step, hr, hroom] using hnone .sendSettlement trivial
  have hrs : t.results = [] := by
    cases hrs : t.results with
    | nil => rfl
    | cons r rs =>
      have := hnone .receiveResult trivial
      cases r <;> simp [step, hr, hrs] at this
  refine hidle ⟨hus, hrs, hm, hu, hb, hr, fun h hh => ?_⟩
  obtain ⟨n, hn⟩ := List.getElem?_of_mem hh
  cases h with
  | done => rfl
  | send b next => simpa [step, hn, hroom] using hnone (.sendHandler n ⟨0⟩) trivial
  | call next => simpa [step, hn] using hnone (.answerHandler n none) trivial
  | lock locked => simpa [step, hm, hn] using hnone (.lockHandler n) trivial

theorem canStep_of_safe (hsafe : t.Safe) (hidle : ¬t.Idle) : t.CanStep k := by
  cases hm : t.mutex with
  | none => exact canStep_of_free hm hidle
  | some h => exact canStep_of_held hm (hsafe h hm)

/-! ## Steps that do not keep room -/

/-- A task that holds the mutex cannot do what it has to do with it. -/
def Blocked (t : Tasks) : Prop := ∃ h, t.mutex = some h ∧ ¬t.CanFinish 0 h

theorem blocked_of_not_safe (hsafe : ¬t.Safe) : t.Blocked := by
  simpa [Safe, Blocked] using hsafe

/-- How many steps `update_results_worker` takes before it comes back to its channel. -/
def rank : ResultsWorker → Nat
  | .waiting _ => 0
  | .working .idle => 0
  | .working (.calling _ _) => 2
  | .working (.sending _) => 1

/-- A bound on the steps that are left while the mutex is not given back. -/
def measure (t : Tasks) : Nat :=
  (t.handlers.map Handler.steps).sum + t.mutex.elim 0 MutexHolder.sends + (if t.updateWorker.isNone then 1 else 0) +
    3 * t.results.length + rank t.resultsWorker

/-- The step is of a task, and where a module answers a handler that does not hold the mutex, it fails. -/
def windsDown (_ : Tasks) (a : TaskAction) : Prop := a.Internal ∧ ∀ n answer, a = .answerHandler n answer → answer = none

theorem sum_steps_set {hs : List Handler} {n : Nat} {h : Handler} (hn : hs[n]? = some h) (h' : Handler)
    (hlt : h'.steps < h.steps) : ((hs.set n h').map Handler.steps).sum < (hs.map Handler.steps).sum := by
  induction hs generalizing n with
  | nil => cases hn
  | cons x xs ih =>
    cases n with
    | zero =>
      obtain rfl : x = h := by simpa using hn
      simpa using hlt
    | succ n => simpa using ih (by simpa using hn)

theorem rank_le (r : ResultsWorker) : rank r ≤ 2 := by
  unfold rank
  split <;> omega

theorem rank_answered {id : WithdrawalRequestId} {call : PayCall} {reply : Reply} {now : NaiveDateTime} {w : Worker}
    (hw : World.answered id call reply now = some w) : rank (.working w) < 2 := by
  unfold World.answered at hw
  split at hw <;> first
    | (split at hw
       · obtain rfl := Option.some.inj hw
         simp [rank]
       · cases hw)
    | (obtain rfl := Option.some.inj hw
       simp [rank])
    | cases hw

theorem canFinish_of_succ {n : Nat} (hfin : t.CanFinish (n + 1) h) : t.CanFinish n h := by
  cases h with
  | applying u => trivial
  | answering res =>
    refine hfin.imp_right fun hback => ?_
    unfold Returns at hback ⊢
    split at hback
    · cases hback
    · exact Nat.lt_of_succ_lt hback
    · trivial
  | forwarding unsent => exact Nat.le_of_succ_le hfin
  | handler held => exact Nat.le_of_succ_le hfin

/-- Whatever the others do, the holder of the mutex stays blocked, no update is applied, and the other tasks wind down. -/
theorem Blocked.step (hs : t.Sound) (hb : t.Blocked) (ht : Step k t a t') :
    t'.Blocked ∧ t'.journal = t.journal ∧ (windsDown t a → t'.measure < t.measure) := by
  obtain ⟨h, hm, hfin⟩ := hb
  have hsome : t.mutex ≠ none := by simp [hm]
  -- the holder has something to send
  have hroom (n : Nat) (hn : ¬t.Room n) : 0 < n := by
    have := hs.updates
    simp only [Room] at hn
    omega
  have not_answering (hback : t.Returns 0) : h.isAnswering = false := by
    cases hans : h.isAnswering with
    | false => rfl
    | true =>
      obtain ⟨res, rfl⟩ := eq_answering hans
      exact absurd (.inr hback) hfin
  cases ht with
  | request h' => exact ⟨⟨h, hm, hfin⟩, rfl, fun ha => ha.1.elim⟩
  | poll events hb => exact ⟨⟨h, hm, hfin⟩, rfl, fun ha => ha.1.elim⟩
  | receiveUpdate u us hu hus =>
    have hfin' : ¬({ t with updates := us, updateWorker := some u } : Tasks).CanFinish 0 h := by
      cases hown : h.ofUpdateWorker with
      | true => simpa [hu] using hs.received h hm hown
      | false => exact fun hfin' => hfin ((canFinish_receive hu hus hown 0).mp hfin')
    refine ⟨⟨h, hm, hfin'⟩, rfl, fun _ => ?_⟩
    simp only [measure, hu, Option.isNone_none, Option.isNone_some, if_true, Bool.false_eq_true, if_false]
    omega
  | lockUpdate u hm' hu => exact absurd hm' hsome
  | applied o stored u j hm' hj =>
    obtain rfl : h = .applying u := Option.some.inj (hm.symm.trans hm')
    exact absurd trivial hfin
  | answers o stored u j res hm' hj =>
    obtain rfl : h = .applying u := Option.some.inj (hm.symm.trans hm')
    exact absurd trivial hfin
  | sendResult res hm' hlt =>
    obtain rfl : h = .answering res := Option.some.inj (hm.symm.trans hm')
    exact absurd (.inl hlt) hfin
  | lockEvents events hm' hb => exact absurd hm' hsome
  | sendLocked created h₀ h' b hm' hn hlt =>
    obtain rfl : h = h₀ := Option.some.inj (hm.symm.trans hm')
    rcases MutexHolder.next?_eq_some hn with ⟨bs, rfl, rfl⟩ | ⟨held, rfl, rfl⟩
    · refine ⟨⟨_, rfl, fun hfin' => hfin ?_⟩, rfl, fun _ => ?_⟩
      · simp only [CanFinish, Room, List.length_cons, List.length_append, List.length_nil] at hfin' ⊢
        omega
      · simp only [measure, hm, Option.elim_some, MutexHolder.sends, List.length_cons]
        omega
    · refine ⟨⟨_, rfl, fun hfin' => hfin ?_⟩, rfl, fun _ => ?_⟩
      · simp only [CanFinish, Room, Held.sends, List.length_append, List.length_singleton] at hfin' ⊢
        omega
      · simp only [measure, hm, Option.elim_some, MutexHolder.sends, Held.sends]
        omega
  | answerLocked answer h₀ held hm' ha =>
    obtain rfl : h = h₀ := Option.some.inj (hm.symm.trans hm')
    obtain ⟨next, rfl, -⟩ := MutexHolder.answered?_eq_some ha
    exact absurd (hroom _ hfin) (Nat.lt_irrefl 0)
  | unlockEvents hm' =>
    obtain rfl : h = .forwarding [] := Option.some.inj (hm.symm.trans hm')
    exact absurd (hroom _ hfin) (Nat.lt_irrefl 0)
  | unlockHandler next hm' =>
    obtain rfl : h = .handler (.unlock next) := Option.some.inj (hm.symm.trans hm')
    exact absurd (hroom _ hfin) (Nat.lt_irrefl 0)
  | receiveResult res rs r hr hrs hne =>
    refine ⟨⟨h, hm, ?_⟩, rfl, fun _ => ?_⟩
    · have hans : h.isAnswering = false := not_answering (by simp [Returns, hr])
      exact fun hfin' => hfin (canFinish_congr hfin' hans rfl rfl)
    · have := rank_le r
      have hidle : rank (.working .idle) = 0 := rfl
      simp only [measure, hr, hrs, List.length_cons, hidle]
      omega
  | lookUp o id r hm' hr hne => exact absurd hm' hsome
  | answerPayment reply now id call w hr hw =>
    refine ⟨⟨h, hm, ?_⟩, rfl, fun _ => ?_⟩
    · have hans : h.isAnswering = false := not_answering (by simp [Returns, hr])
      exact fun hfin' => hfin (canFinish_congr hfin' hans rfl rfl)
    · have := rank_answered hw
      simp only [measure, hr, rank] at this ⊢
      omega
  | sendSettlement u hr hlt =>
    refine ⟨⟨h, hm, ?_⟩, rfl, fun _ => ?_⟩
    · have hans : h.isAnswering = false := not_answering (by simpa [Returns, hr] using hlt)
      have hsent := canFinish_append (t := { t with resultsWorker := .working .idle }) u t.handlers 0 h
      exact fun hfin' => hfin (canFinish_of_succ (canFinish_congr (hsent.mp hfin') hans rfl rfl))
    · simp only [measure, hr, rank]
      omega
  | lockHandler n locked hm' hn => exact absurd hm' hsome
  | sendHandler n created b next hn hlt =>
    refine ⟨⟨h, hm, fun hfin' => hfin (canFinish_of_succ ((canFinish_append _ _ 0 h).mp hfin'))⟩, rfl, fun _ => ?_⟩
    have := sum_steps_set hn next (by simp [Handler.steps])
    simp only [measure]
    omega
  | answerHandler n answer next hn =>
    refine ⟨⟨h, hm, hfin⟩, rfl, fun ha => ?_⟩
    obtain rfl := ha.2 n answer rfl
    have := sum_steps_set hn (next none) (by simp [Handler.steps])
    simp only [measure]
    omega

/-- A step that does not keep room leaves the holder of the mutex blocked. -/
theorem blocked_of_step (ht : (machine k).Reachable Machine.anyStep t) (hstep : t.step k a = some t') (hroom : ¬t.KeepsRoom a) :
    t'.Blocked := by
  have hs := sound_of_reachable ht
  by_cases hsafe : t.Safe
  · exact blocked_of_not_safe fun hsafe' => hroom ((safe_step_iff hs hsafe (step_eq_some hstep)).mp hsafe')
  · exact ((blocked_of_not_safe hsafe).step hs (step_eq_some hstep)).1

/-- The mutex is not given back, and no update is applied, from a state on in which its holder is blocked. -/
theorem Blocked.reachable (hs : t.Sound) (hb : t.Blocked) (ht : ((machine k).startedAt t).Reachable Machine.anyStep t') :
    t'.mutex ≠ none ∧ t'.journal = t.journal := by
  have hinv := Machine.Reachable.invariant (I := fun s => s.Sound ∧ s.Blocked ∧ s.journal = t.journal) ht
    (fun s hst => by obtain rfl : s = t := hst; exact ⟨hs, hb, rfl⟩)
    (fun s a s' _ ⟨hs, hb, hj⟩ _ hstep =>
      have h := hb.step hs (step_eq_some hstep)
      ⟨hs.step (step_eq_some hstep), h.1, h.2.1.trans hj⟩)
  obtain ⟨h, hm, -⟩ := hinv.2.1
  exact ⟨by simp [hm], hinv.2.2⟩

/-- From a state in which the holder of the mutex is blocked, the tasks may come to a state in which none can take a step. -/
theorem Blocked.exists_stuck (hs : t.Sound) (hb : t.Blocked) :
    ∃ t', ((machine k).startedAt t).Reachable internal t' ∧ ¬t'.Idle ∧ ¬t'.CanStep k := by
  obtain ⟨t', -, hr, ⟨⟨-, h, hm, -⟩, -⟩, hq⟩ := Machine.exists_quiescent (M := machine k) (P := windsDown)
    (B := fun n t => (t.Sound ∧ t.Blocked) ∧ t.measure = n) ⟨⟨hs, hb⟩, rfl⟩ (fun n t a t' ⟨⟨hs, hb⟩, hn⟩ ha hstep =>
      have h := hb.step hs (step_eq_some hstep)
      ⟨t'.measure, hn ▸ h.2.2 ha, ⟨hs.step (step_eq_some hstep), h.1⟩, rfl⟩)
  refine ⟨t', hr.mono fun _ _ ha => ha.1, fun hidle => by simp [hidle.mutex] at hm, ?_⟩
  rintro ⟨a, ha, hstep⟩
  have hnone (a : TaskAction) (ha : windsDown t' a) : t'.step k a = none := hq a ha
  by_cases hw : ∃ n answer, a = .answerHandler n answer
  · -- a handler that can be answered can also be answered that the call failed
    obtain ⟨n, answer, rfl⟩ := hw
    have hfails := hnone (.answerHandler n none) ⟨trivial, fun _ _ h => by cases h; rfl⟩
    simp only [Tasks.step] at hfails hstep
    split at hfails
    · cases hfails
    · split at hstep
      · rename_i next hn
        exact absurd hn (by simp_all)
      · cases hstep
  · rw [hnone a ⟨ha, fun n answer h => absurd ⟨n, answer, h⟩ hw⟩] at hstep
    cases hstep

/-- A batch that makes more updates than the channel and `update_worker` take: the tasks may come to a stop. -/
theorem large_batch_deadlocks {events : BtcEvents} (hs : t.Sound) (hm : t.mutex = none) (hb : t.btcWorker = some events)
    (hlarge : channelCapacity + 1 < (t.messages events).length) :
    ∃ t', ((machine k).startedAt t).Reachable internal t' ∧ ¬t'.Idle ∧ ¬t'.CanStep k := by
  obtain ⟨t₁, hstep, hblocked⟩ : ∃ t₁, t.step k .lockEvents = some t₁ ∧ t₁.Blocked := by
    refine ⟨{ t with mutex := some (.forwarding (t.messages events)) }, by simp [step, hm, hb], _, rfl, fun hfin => ?_⟩
    simp only [CanFinish, Room] at hfin
    split at hfin <;> omega
  obtain ⟨t', hr, hpending, hstuck⟩ := hblocked.exists_stuck (k := k) (hs.step (step_eq_some hstep))
  have hlock : ((machine k).startedAt t).Reachable internal t₁ := .step (a := .lockEvents) (.init rfl) trivial hstep
  exact ⟨t', hlock.trans hr, hpending, hstuck⟩

/-- Where every step keeps room, some task can take a step in every state reached in which there is work. After a step that does
not keep room the mutex is not given back and no update is applied, whatever happens, and the tasks may come to a state in which
there is work and none can take a step. -/
theorem progress_with_room (k : Clock) :
    (∀ t, (machine k).Reachable KeepsRoom t → ¬t.Idle → t.CanStep k) ∧
      ∀ t a t', (machine k).Reachable Machine.anyStep t → t.step k a = some t' → ¬t.KeepsRoom a →
        (∀ t'', ((machine k).startedAt t').Reachable Machine.anyStep t'' → t''.mutex ≠ none ∧ t''.journal = t'.journal) ∧
          ∃ t'', ((machine k).startedAt t').Reachable internal t'' ∧ ¬t''.Idle ∧ ¬t''.CanStep k := by
  refine ⟨fun t ht hidle => canStep_of_safe (safe_of_reachable ht) hidle, fun t a t' ht hstep hroom => ?_⟩
  have hs : t'.Sound := (sound_of_reachable ht).step (step_eq_some hstep)
  have hb : t'.Blocked := blocked_of_step ht hstep hroom
  exact ⟨fun t'' ht'' => hb.reachable hs ht'', hb.exists_stuck hs⟩

end Tasks

namespace Sample

/-- A batch of deposits up to a new best block, each by a transaction of its own. -/
def history (n : Nat) : BtcEvents where
  height := 1
  hash := ⟨"b1"⟩
  events := (List.range n).map fun i =>
    .update
      { direction := .deposit, txid := ⟨toString i⟩, vout := 0, address := ⟨"addr"⟩, amount := 1000, confirmations := 1,
        timestamp := 0, conflicts := [], fee := none }

/-- The tasks as they start, when `btc_worker` has received a batch. -/
def received (n : Nat) : Tasks := { Tasks.new start with btcWorker := some (history n) }

/-- One update for each deposit, and one for the best block. -/
theorem messages_history (n : Nat) : ((received n).messages (history n)).length = n + 1 := by
  have hdeposits : ((history n).events.filterMap BtcEvent.toUpdate).length = n := by
    rw [history, List.filterMap_map, List.length_filterMap_eq_countP]
    exact (List.countP_eq_length.mpr fun _ _ => rfl).trans List.length_range
  have hbest : bestBtcBlock (received n).journal.state.btcState.blockHash (history n) =
      some (.bestBtcBlock { height := 1, blockHash := "b1" }) := if_pos (show "genesis" ≠ "b1" by decide)
  simp only [Tasks.messages, processBtcEvents, hbest, Option.toList_some, List.length_append, List.length_singleton, hdeposits]
  omega

/-- The steps of the tasks, and the batch of a new best block with 1001 deposits. -/
def importing (_ : Tasks) (a : TaskAction) : Prop := a = .poll (history 1001) ∨ a.Internal

theorem reachable_received {P : Tasks → TaskAction → Prop} (n : Nat) (hP : P (Tasks.new start) (.poll (history n))) :
    (Tasks.machine clock).Reachable P (received n) :=
  .step (.init ⟨start, rfl⟩) hP rfl

end Sample

namespace Tasks

open Sample in
/-- While `btc_worker` forwards two deposits some task can take a step; a batch of 1001 deposits, with the best block 1002 updates,
brings them to a stop. -/
theorem progress_with_room_seen :
    (∃ t, (machine clock).Reachable KeepsRoom t ∧ ¬t.Idle ∧ t.CanStep clock) ∧
      ∃ t', (received 1001).step clock .lockEvents = some t' ∧
        (∀ t'', ((machine clock).startedAt t').Reachable Machine.anyStep t'' → t''.mutex ≠ none ∧ t''.journal = t'.journal) ∧
          ∃ t'', ((machine clock).startedAt t').Reachable internal t'' ∧ ¬t''.Idle ∧ ¬t''.CanStep clock := by
  constructor
  · obtain ⟨t, ht, hm⟩ := Machine.exists_reachable (M := machine clock) (P := KeepsRoom)
      [.poll (history 2), .lockEvents, .sendLocked ⟨0⟩, .receiveUpdate] (q := fun t => t.mutex.isSome)
      ⟨start, rfl⟩ (by decide +kernel)
    have hidle : ¬t.Idle := fun hidle => by simp [hidle.mutex] at hm
    exact ⟨t, ht, hidle, (progress_with_room clock).1 t ht hidle⟩
  · refine ⟨_, rfl, (progress_with_room clock).2 (received 1001) .lockEvents _ (reachable_received 1001 trivial) rfl ?_⟩
    intro hroom
    have := hroom (history 1001) rfl
    rw [Room, messages_history] at this
    simp [received, Tasks.new, channelCapacity] at this

open Sample in
/-- Without a single request, one batch of 1001 deposits is enough. -/
theorem history_deadlocks : ¬∀ t, (machine clock).Reachable importing t → ¬t.Idle → t.CanStep clock := by
  intro hprogress
  have hreceived : (machine clock).Reachable importing (received 1001) := reachable_received 1001 (.inl rfl)
  have hlarge : channelCapacity + 1 < ((received 1001).messages (history 1001)).length := by
    rw [messages_history]
    decide
  obtain ⟨t, hr, hpending, hstuck⟩ := large_batch_deadlocks (k := clock) (sound_of_reachable hreceived) rfl rfl hlarge
  exact hstuck (hprogress t (hreceived.trans (hr.mono fun _ _ => .inr)) hpending)

end Tasks

end Hexstody
