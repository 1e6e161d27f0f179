import Hexstody.AddressDesk
import Hexstody.Lemmas.Addresses

/-!
# Addresses of the exchange that were handed out

Whether an address of the exchange keeps working once it was handed out to an operator. A call for ETH or a token never gets one:
it looks for a user whose name nobody can sign up (`Guarded.answered`). In bitcoins every call gets one; but where two calls are
under way at the same time each asks for an address of its own, the second replaces the first in the State, and what is paid to the
first is nobody's. `handed_out_addresses_work` says that this is all: while operators ask for bitcoins, and no call answers an
address when another is the exchange's or waits to become it, every address works; and a step that breaks this leads to a State
where one does not.
-/

namespace Hexstody

/-- The currency that a call is for. -/
def AddressCall.currency : AddressCall → Currency
  | .reading c => c
  | .lookingUp c => c
  | .allocating c => c
  | .sending a => a.currency
  | .answered c _ => c

/-- A deposit to the address is the exchange's. -/
structure State.CreditsExchange (s : State) (a : CurrencyAddress) : Prop where
  recognised : s.isExchangeAddress a = true
  credited : ∀ o created tx, btcAddress tx.address = a →
    ∃ s', s.applyUpdate o { created := created, body := .updateBtcTx tx } = (s', .ok none) ∧
      s'.exchangeState = s.exchangeState.processIncomingBtcTx tx

/-- The address of the exchange in bitcoins credits the exchange. -/
theorem State.CreditsExchange.of_get? {s : State} {a : CurrencyAddress} (ha : a.currency = .btc)
    (h : s.exchangeState.addresses.get? .btc = some a) : s.CreditsExchange a := by
  have hrec : s.isExchangeAddress a = true := by
    unfold State.isExchangeAddress
    rw [ha, h]
    exact beq_self_eq_true _
  refine ⟨hrec, fun o created tx htx => ?_⟩
  unfold State.applyUpdate State.withBtcTxUpdate
  simp only [htx, hrec, if_true]
  exact ⟨_, rfl, rfl⟩

/-! ## One call, and the update that it sends -/

/-- Where the special user is not there, a call for bitcoins alone asks for an address, and no other is answered one. -/
def AddressCall.Sound : AddressCall → Prop
  | .reading _ => True
  | .lookingUp c => c ≠ .btc
  | .allocating c => c = .btc
  | .sending a => a.currency = .btc
  | .answered c (.ok a) => c = .btc ∧ a.currency = .btc
  | .answered c (.error _) => c ≠ .btc

/-- Only addresses in bitcoins are set. -/
def State.AddressesInBtc (s : State) : Prop := ∀ c a, s.exchangeState.addresses.get? c = some a → c = .btc ∧ a.currency = .btc

theorem AddressCall.Sound.read {s : State} (hs : s.AddressesInBtc) (c : Currency) : (AddressCall.read s c).Sound := by
  unfold AddressCall.read
  cases hget : s.exchangeState.addresses.get? c with
  | some a => exact hs c a hget
  | none =>
    cases c with
    | btc => exact rfl
    | eth => exact nofun
    | erc20 token => exact nofun

/-- What a call for bitcoins is answered when it reads is the address of the exchange. -/
theorem AddressCall.read_answered {s : State} {a : CurrencyAddress} (h : AddressCall.read s .btc = .answered .btc (.ok a)) :
    s.exchangeState.addresses.get? .btc = some a := by
  unfold AddressCall.read at h
  cases hget : s.exchangeState.addresses.get? .btc with
  | some b =>
    simp only [hget, AddressCall.answered.injEq, Except.ok.injEq, true_and] at h
    rw [h]
  | none =>
    rw [hget] at h
    cases h

theorem AddressCall.Sound.lookUp {s : State} {c : Currency} (hs : s.users.get? HEXSTODY_EXCHANGE_USER = none) (hc : c ≠ .btc) :
    (AddressCall.lookUp s c).Sound := by
  unfold AddressCall.lookUp
  rw [State.currency?, hs]
  exact hc

@[simp] theorem Handlers.packedAddress_currency (c : Currency) (address : String) :
    (Handlers.packedAddress c address).currency = c := by
  cases c <;> rfl

/-- The update that an address is set by. -/
theorem exchangeAddress?_eq_some {b : UpdateBody} {a : CurrencyAddress} :
    b.exchangeAddress? = some a ↔ b = .exchangeAddress a := by
  cases b <;> simp [UpdateBody.exchangeAddress?]

theorem exchangeAddress?_of_fromElsewhere {b : UpdateBody} (h : b.fromElsewhere = true) : b.exchangeAddress? = none := by
  cases b with
  | exchangeAddress a => cases h
  | _ => rfl

theorem not_isSnapshot_of_fromElsewhere {b : UpdateBody} (h : b.fromElsewhere = true) : ¬b.IsSnapshot := by
  cases b with
  | snapshot s => cases h
  | _ => exact not_false

namespace Journal

variable {j j' : Journal} {o : Oracle} {up : StateUpdate}

/-- An update that sets an address of the exchange is always accepted. -/
theorem exists_store_exchangeAddress {a : CurrencyAddress} (o : Oracle) (hb : up.body = .exchangeAddress a) :
    ∃ j', j.store o up = some j' := by
  unfold store State.applyUpdate
  rw [hb]
  exact ⟨_, rfl⟩

theorem addresses_store (h : j.store o up = some j') (hs : ¬up.body.IsSnapshot) :
    j'.state.exchangeState.addresses = match up.body.exchangeAddress? with
      | none => j.state.exchangeState.addresses
      | some a => j.state.exchangeState.addresses.insert a.currency a := by
  have happly := store_answer h
  cases hb : up.body.exchangeAddress? with
  | some a => exact (State.applyUpdate_exchangeAddress happly (exchangeAddress?_eq_some.mp hb)).2
  | none =>
    rcases State.applyUpdate_addresses happly hs with hsame | ⟨a, ha, -⟩
    · exact hsame
    · rw [ha] at hb
      cases hb

end Journal

/-- An update that sets an address in bitcoins, or none, leaves only such addresses. -/
theorem State.AddressesInBtc.store {j j' : Journal} {o : Oracle} {up : StateUpdate} (hj : j.state.AddressesInBtc)
    (h : j.store o up = some j') (hs : ¬up.body.IsSnapshot) (hup : ∀ a, up.body.exchangeAddress? = some a → a.currency = .btc) :
    j'.state.AddressesInBtc := by
  intro c a hget
  rw [Journal.addresses_store h hs] at hget
  cases hb : up.body.exchangeAddress? with
  | none =>
    rw [hb] at hget
    exact hj c a hget
  | some b =>
    simp only [hb, AssocMap.get?_insert] at hget
    split at hget
    · rename_i hc
      obtain rfl := Option.some.inj hget
      exact ⟨hc.trans (hup _ hb), hup _ hb⟩
    · exact hj c a hget

namespace AddressDesk

/-- The addresses that the applied updates have set. -/
def applied (d : AddressDesk) : List CurrencyAddress := d.journal.updates.filterMap (·.body.exchangeAddress?)

/-- The addresses that updates in the channel set. -/
def waiting (d : AddressDesk) : List CurrencyAddress := d.queue.filterMap (·.body.exchangeAddress?)

/-- The address of the exchange in bitcoins, and those that wait to become it. -/
def taken (d : AddressDesk) : List CurrencyAddress := (d.journal.state.exchangeState.addresses.get? .btc).toList ++ d.waiting

/-- The address that a call is about to answer. -/
def sending? (d : AddressDesk) (n : Nat) : Option CurrencyAddress :=
  match d.calls[n]? with
  | some (.sending a) => some a
  | _ => none

/-- A step of the call with a number, where a module answers an address. -/
def ownStep (n : Nat) (address : String) (_ : AddressDesk) : DeskAction → Prop
  | .read m => m = n
  | .lookUp m => m = n
  | .allocate m answer => m = n ∧ answer = address
  | .send m _ => m = n
  | _ => False

/-- The call's own steps can bring it to an address in the currency, where a module answers an address. -/
def Serves (d : AddressDesk) (n : Nat) (c : Currency) (address : String) : Prop :=
  ∃ d', (machine.startedAt d).Reachable (ownStep n address) d' ∧ ∃ a, d'.calls[n]? = some (.answered c (.ok a))

/-- Every call gets an address, and the addresses in bitcoins that were answered work once their updates are applied. -/
structure Works (d : AddressDesk) : Prop where
  served : ∀ n call address, d.calls[n]? = some call → d.Serves n call.currency address
  sent : ∀ a, .answered .btc (.ok a) ∈ d.calls → a ∈ d.applied ∨ a ∈ d.waiting
  credited : ∀ a, .answered .btc (.ok a) ∈ d.calls → a ∈ d.applied → d.journal.state.CreditsExchange a

/-- Operators ask for bitcoins; and a call answers an address when no other is the exchange's or waits to become it. -/
def KeepsOne (d : AddressDesk) : DeskAction → Prop
  | .request c => c = .btc
  | .send n _ => ∀ a ∈ d.sending? n, ∀ b ∈ d.taken, b = a
  | _ => True

instance (d : AddressDesk) (a : DeskAction) : Decidable (d.KeepsOne a) :=
  match a with
  | .request c => inferInstanceAs (Decidable (c = .btc))
  | .send n _ => inferInstanceAs (Decidable (∀ a ∈ d.sending? n, ∀ b ∈ d.taken, b = a))
  | .read _ => isTrue trivial
  | .lookUp _ => isTrue trivial
  | .allocate _ _ => isTrue trivial
  | .other _ => isTrue trivial
  | .apply _ => isTrue trivial

variable {d d' : AddressDesk} {act : DeskAction}

/-! ## The steps -/

/-- What each step does. -/
inductive Moves (d : AddressDesk) : DeskAction → AddressDesk → Prop where
  | request (c : Currency) : Moves d (.request c) { d with calls := d.calls ++ [.reading c] }
  | read (n : Nat) (c : Currency) : d.calls[n]? = some (.reading c) → Moves d (.read n) (d.setCall n (.read d.journal.state c))
  | lookUp (n : Nat) (c : Currency) : d.calls[n]? = some (.lookingUp c) →
      Moves d (.lookUp n) (d.setCall n (.lookUp d.journal.state c))
  | allocate (n : Nat) (c : Currency) (address : String) : d.calls[n]? = some (.allocating c) →
      Moves d (.allocate n address) (d.setCall n (.sending (Handlers.packedAddress c address)))
  | send (n : Nat) (created : NaiveDateTime) (a : CurrencyAddress) : d.calls[n]? = some (.sending a) →
      Moves d (.send n created) { d.setCall n (.answered a.currency (.ok a)) with
        queue := d.queue ++ [{ created := created, body := .exchangeAddress a }] }
  | other (up : StateUpdate) : up.body.fromElsewhere = true → Moves d (.other up) { d with queue := d.queue ++ [up] }
  | stored (o : Oracle) (up : StateUpdate) (rest : List StateUpdate) (j : Journal) : d.queue = up :: rest →
      d.journal.store o up = some j → Moves d (.apply o) { d with queue := rest, journal := j }
  | refused (o : Oracle) (up : StateUpdate) (rest : List StateUpdate) : d.queue = up :: rest →
      d.journal.store o up = none → Moves d (.apply o) { d with queue := rest }

theorem moves (h : machine.step d act = some d') : Moves d act d' := by
  change d.step act = some d' at h
  cases act with
  | request c =>
    obtain rfl := Option.some.inj h
    exact .request c
  | read n =>
    simp only [step] at h
    split at h
    · rename_i c hcall _
      obtain rfl := Option.some.inj h
      exact .read n c hcall
    · cases h
  | lookUp n =>
    simp only [step] at h
    split at h
    · rename_i c hcall _
      obtain rfl := Option.some.inj h
      exact .lookUp n c hcall
    · cases h
  | allocate n address =>
    simp only [step] at h
    split at h
    · rename_i c hcall
      obtain rfl := Option.some.inj h
      exact .allocate n c address hcall
    · cases h
  | send n created =>
    simp only [step] at h
    split at h
    · rename_i a hcall
      obtain rfl := Option.some.inj h
      exact .send n created a hcall
    · cases h
  | other up =>
    simp only [step] at h
    split at h
    · rename_i hup
      obtain rfl := Option.some.inj h
      exact .other up hup
    · cases h
  | apply o =>
    simp only [step] at h
    split at h
    · rename_i up rest hqueue _
      obtain rfl := Option.some.inj h
      cases hs : d.journal.store o up with
      | none => exact .refused o up rest hqueue hs
      | some j => exact .stored o up rest j hqueue hs
    · cases h

/-! ## What no run changes -/

/-- What holds in every run: nobody has the reserved name, and only addresses in bitcoins are asked for, sent, set and answered. -/
structure Guarded (d : AddressDesk) : Prop where
  queued : ∀ up ∈ d.queue, up.body.fromElsewhere = true ∨ ∃ a, up.body = .exchangeAddress a ∧ a.currency = .btc
  reserved : d.journal.state.users.get? HEXSTODY_EXCHANGE_USER = none
  addresses : d.journal.state.AddressesInBtc
  calls : ∀ call ∈ d.calls, call.Sound

theorem Guarded.mem_setCall (hd : d.Guarded) {n : Nat} {call : AddressCall} (hcall : call.Sound) :
    ∀ c ∈ (d.setCall n call).calls, c.Sound := by
  intro c hc
  rcases List.mem_or_eq_of_mem_set hc with hc | rfl
  · exact hd.calls c hc
  · exact hcall

theorem Guarded.not_isSnapshot (hd : d.Guarded) {up : StateUpdate} (hup : up ∈ d.queue) : ¬up.body.IsSnapshot := by
  intro hs
  rcases hd.queued up hup with helse | ⟨a, hb, -⟩
  · exact not_isSnapshot_of_fromElsewhere helse hs
  · rw [hb] at hs
    exact hs

/-- Nobody signs the reserved name up. -/
theorem Guarded.username_ne (hd : d.Guarded) {up : StateUpdate} {info : SignupInfo} (hup : up ∈ d.queue)
    (hb : up.body = .signup info) : info.username ≠ HEXSTODY_EXCHANGE_USER := by
  rcases hd.queued up hup with helse | ⟨a, ha, -⟩
  · rw [hb] at helse
    exact bne_iff_ne.mp helse
  · rw [hb] at ha
    cases ha

/-- An address that waits to be set is in bitcoins. -/
theorem Guarded.currency_of_exchangeAddress? (hd : d.Guarded) {up : StateUpdate} {a : CurrencyAddress} (hup : up ∈ d.queue)
    (ha : up.body.exchangeAddress? = some a) : a.currency = .btc := by
  rcases hd.queued up hup with helse | ⟨b, hb, hbtc⟩
  · rw [exchangeAddress?_of_fromElsewhere helse] at ha
    cases ha
  · rw [hb] at ha
    obtain rfl := Option.some.inj ha
    exact hbtc

/-- (step) -/
theorem Guarded.step (hd : d.Guarded) (h : machine.step d act = some d') : d'.Guarded := by
  cases moves h with
  | request c =>
    refine ⟨hd.queued, hd.reserved, hd.addresses, fun call hcall => ?_⟩
    rcases List.mem_append.mp hcall with hcall | hcall
    · exact hd.calls call hcall
    · rw [List.mem_singleton.mp hcall]
      trivial
  | read n c hcall => exact ⟨hd.queued, hd.reserved, hd.addresses, hd.mem_setCall (.read hd.addresses c)⟩
  | lookUp n c hcall =>
    have hc : c ≠ .btc := hd.calls _ (List.mem_of_getElem? hcall)
    exact ⟨hd.queued, hd.reserved, hd.addresses, hd.mem_setCall (.lookUp hd.reserved hc)⟩
  | allocate n c address hcall =>
    have hc : c = .btc := hd.calls _ (List.mem_of_getElem? hcall)
    have hsound : (AddressCall.sending (Handlers.packedAddress c address)).Sound :=
      (Handlers.packedAddress_currency c address).trans hc
    exact ⟨hd.queued, hd.reserved, hd.addresses, hd.mem_setCall hsound⟩
  | send n created a hcall =>
    have ha : a.currency = .btc := hd.calls _ (List.mem_of_getElem? hcall)
    refine ⟨fun up hup => ?_, hd.reserved, hd.addresses, hd.mem_setCall ⟨ha, ha⟩⟩
    rcases List.mem_append.mp hup with hup | hup
    · exact hd.queued up hup
    · rw [List.mem_singleton.mp hup]
      exact Or.inr ⟨a, rfl, ha⟩
  | other up hup =>
    refine ⟨fun up' hup' => ?_, hd.reserved, hd.addresses, hd.calls⟩
    rcases List.mem_append.mp hup' with hup' | hup'
    · exact hd.queued up' hup'
    · rw [List.mem_singleton.mp hup']
      exact Or.inl hup
  | refused o up rest hqueue _ =>
    exact ⟨fun up' hup' => hd.queued up' (hqueue ▸ List.mem_cons_of_mem _ hup'), hd.reserved, hd.addresses, hd.calls⟩
  | stored o up rest j hqueue hs =>
    have hup : up ∈ d.queue := hqueue ▸ List.mem_cons_self
    have hsnap := hd.not_isSnapshot hup
    refine ⟨fun up' hup' => hd.queued up' (hqueue ▸ List.mem_cons_of_mem _ hup'), ?_, ?_, hd.calls⟩
    · exact applyUpdate_absent (Journal.store_answer hs) hsnap (fun info hb => hd.username_ne hup hb) hd.reserved
    · exact hd.addresses.store hs hsnap (fun a ha => hd.currency_of_exchangeAddress? hup ha)

/-- (run) -/
theorem guarded {P : AddressDesk → DeskAction → Prop} (h : machine.Reachable P d) : d.Guarded := by
  refine h.invariant ?_ (fun _ _ _ _ hd _ hs => hd.step hs)
  rintro _ ⟨now, genesisHash, rfl⟩
  exact ⟨List.forall_mem_nil _, rfl, fun _ _ h => absurd h (by simp [State.new, ExchangeState.new]), List.forall_mem_nil _⟩

/-- A call that is answered an address is one for bitcoins. -/
theorem Guarded.answered (hd : d.Guarded) {c : Currency} {a : CurrencyAddress} (h : .answered c (.ok a) ∈ d.calls) :
    c = .btc ∧ a.currency = .btc := hd.calls _ h

/-- No call keeps the mutex while it waits for a module. -/
theorem Guarded.not_stateHeld (hd : d.Guarded) : d.stateHeld = false := by
  rw [stateHeld, List.any_eq_false]
  intro call hcall
  have hsound := hd.calls call hcall
  cases call with
  | allocating c =>
    obtain rfl : c = .btc := hsound
    exact Bool.false_ne_true
  | sending a =>
    have ha : a.currency = .btc := hsound
    simp [AddressCall.holdsState, ha]
  | _ => exact Bool.false_ne_true

/-! ## A call that is left alone is served -/

/-- One step of the call, and the rest. -/
theorem Serves.step {n : Nat} {c : Currency} {address : String} (h : machine.step d act = some d')
    (hown : ownStep n address d act) (hd : d'.Serves n c address) : d.Serves n c address := by
  obtain ⟨d'', hr, hcall⟩ := hd
  exact ⟨d'', (Machine.Reachable.single hown h).trans hr, hcall⟩

theorem setCall_calls {n : Nat} {call : AddressCall} (call' : AddressCall) (h : d.calls[n]? = some call) :
    (d.setCall n call').calls[n]? = some call' :=
  List.getElem?_set_self (List.getElem?_eq_some_iff.mp h).1

theorem serves_answered {n : Nat} {c : Currency} {a : CurrencyAddress} (address : String)
    (h : d.calls[n]? = some (.answered c (.ok a))) : d.Serves n c address :=
  ⟨d, .init rfl, a, h⟩

theorem serves_sending {n : Nat} {a : CurrencyAddress} (address : String) (h : d.calls[n]? = some (.sending a)) :
    d.Serves n a.currency address := by
  have hstep : machine.step d (.send n ⟨0⟩) = some { d.setCall n (.answered a.currency (.ok a)) with
      queue := d.queue ++ [{ created := ⟨0⟩, body := .exchangeAddress a }] } := by
    simp only [machine, step, h]
  exact .step hstep rfl (serves_answered address (setCall_calls _ h))

theorem serves_allocating {n : Nat} {c : Currency} (address : String) (h : d.calls[n]? = some (.allocating c)) :
    d.Serves n c address := by
  have hstep : machine.step d (.allocate n address) = some (d.setCall n (.sending (Handlers.packedAddress c address))) := by
    simp only [machine, step, h]
  have hserves := serves_sending address (setCall_calls (.sending (Handlers.packedAddress c address)) h)
  rw [Handlers.packedAddress_currency] at hserves
  exact .step hstep ⟨rfl, rfl⟩ hserves

theorem serves_reading {n : Nat} (address : String) (hheld : d.stateHeld = false) (h : d.calls[n]? = some (.reading .btc)) :
    d.Serves n .btc address := by
  have hstep : machine.step d (.read n) = some (d.setCall n (.read d.journal.state .btc)) := by
    simp only [machine, step, h, hheld]
  have hnext := setCall_calls (.read d.journal.state .btc) h
  refine .step hstep rfl ?_
  unfold AddressCall.read at hnext ⊢
  cases hget : d.journal.state.exchangeState.addresses.get? .btc with
  | some a => rw [hget] at hnext; exact serves_answered address hnext
  | none => rw [hget] at hnext; exact serves_allocating address hnext

/-- In every run a call for bitcoins is served. -/
theorem Guarded.serves (hd : d.Guarded) {n : Nat} {call : AddressCall} (address : String) (h : d.calls[n]? = some call)
    (hbtc : call.currency = .btc) : d.Serves n call.currency address := by
  have hsound := hd.calls call (List.mem_of_getElem? h)
  cases call with
  | reading c =>
    obtain rfl : c = .btc := hbtc
    exact serves_reading address hd.not_stateHeld h
  | lookingUp c => exact absurd hbtc hsound
  | allocating c => exact serves_allocating address h
  | sending a => exact serves_sending address h
  | answered c answer =>
    cases answer with
    | ok a => exact serves_answered address h
    | error e => exact absurd hbtc hsound

/-- In every run a call for another currency never is. -/
theorem not_serves (h : machine.Reachable Machine.anyStep d) {n : Nat} {c : Currency} {address : String} (hc : c ≠ .btc) :
    ¬d.Serves n c address := by
  rintro ⟨d', hr, a, hcall⟩
  have hd' : d'.Guarded := guarded (h.trans (hr.mono fun _ _ _ => trivial))
  exact hc (hd'.answered (List.mem_of_getElem? hcall)).1

/-! ## One address at a time -/

/-- What holds while each step keeps one address. -/
structure OneAddress (d : AddressDesk) : Prop where
  asked : ∀ call ∈ d.calls, call.currency = .btc
  alone : ∀ a ∈ d.taken, ∀ b ∈ d.taken, a = b
  returned : ∀ a, .answered .btc (.ok a) ∈ d.calls ↔ a ∈ d.taken
  applied : ∀ a, a ∈ d.applied ↔ d.journal.state.exchangeState.addresses.get? .btc = some a

theorem mem_taken {a : CurrencyAddress} :
    a ∈ d.taken ↔ d.journal.state.exchangeState.addresses.get? .btc = some a ∨ a ∈ d.waiting := by
  rw [taken, List.mem_append, Option.mem_toList]

/-- A call that is answered stays so. -/
theorem answered_setCall {n : Nat} {call call' : AddressCall} {a : CurrencyAddress} (h : d.calls[n]? = some call)
    (hopen : call ≠ .answered .btc (.ok a)) :
    .answered .btc (.ok a) ∈ (d.setCall n call').calls ↔ .answered .btc (.ok a) ∈ d.calls ∨ .answered .btc (.ok a) = call' := by
  constructor
  · exact List.mem_or_eq_of_mem_set
  · rintro (hm | rfl)
    · obtain ⟨i, hi⟩ := List.mem_iff_getElem?.mp hm
      have hne : n ≠ i := by
        rintro rfl
        exact hopen (Option.some.inj (h.symm.trans hi))
      exact List.mem_of_getElem? ((List.getElem?_set_ne hne).trans hi)
    · exact List.mem_of_getElem? (setCall_calls _ h)

/-- A step of a call that changes no address. -/
theorem OneAddress.setCall (hd : d.OneAddress) {n : Nat} {call call' : AddressCall} (h : d.calls[n]? = some call)
    (hopen : ∀ a, call ≠ .answered .btc (.ok a)) (hbtc : call'.currency = .btc)
    (hnew : ∀ a, .answered .btc (.ok a) = call' → a ∈ d.taken) : (d.setCall n call').OneAddress where
  asked := fun c hc => (List.mem_or_eq_of_mem_set hc).elim (hd.asked c) (fun he => he ▸ hbtc)
  alone := hd.alone
  returned := fun a => by
    rw [answered_setCall h (hopen a), hd.returned]
    exact ⟨fun ha => ha.elim id (hnew a), Or.inl⟩
  applied := hd.applied

/-- A call sends the update for an address, when no other is taken. -/
theorem OneAddress.send (hd : d.OneAddress) {n : Nat} {a : CurrencyAddress} (created : NaiveDateTime)
    (hcall : d.calls[n]? = some (.sending a)) (ha : a.currency = .btc) (halone : ∀ b ∈ d.taken, b = a) :
    OneAddress { d.setCall n (.answered a.currency (.ok a)) with
      queue := d.queue ++ [{ created := created, body := .exchangeAddress a }] } := by
  have htaken : ∀ b, b ∈ taken { d.setCall n (.answered a.currency (.ok a)) with
      queue := d.queue ++ [{ created := created, body := .exchangeAddress a }] } ↔ b ∈ d.taken ∨ b = a := by
    intro b
    rw [mem_taken, mem_taken, waiting, List.filterMap_append, List.mem_append, or_assoc]
    exact or_congr Iff.rfl (or_congr Iff.rfl List.mem_singleton)
  refine ⟨fun call hc => ?_, fun b hb c hc => ?_, fun b => ?_, hd.applied⟩
  · rcases List.mem_or_eq_of_mem_set hc with hc | rfl
    · exact hd.asked call hc
    · exact ha
  · have hb := ((htaken b).mp hb).elim (halone b) id
    exact hb.trans (((htaken c).mp hc).elim (halone c) id).symm
  · rw [htaken, ← hd.returned b]
    refine (answered_setCall hcall nofun).trans (or_congr Iff.rfl ?_)
    rw [ha]
    simp

/-- The channel's first update is applied, when it sets no address. -/
theorem OneAddress.pop (hd : d.OneAddress) {up : StateUpdate} {rest : List StateUpdate} {j : Journal}
    (hqueue : d.queue = up :: rest) (hup : up.body.exchangeAddress? = none)
    (haddresses : j.state.exchangeState.addresses = d.journal.state.exchangeState.addresses)
    (happlied : j.updates.filterMap (·.body.exchangeAddress?) = d.applied) :
    OneAddress { d with queue := rest, journal := j } := by
  have htaken : taken { d with queue := rest, journal := j } = d.taken := by
    simp only [taken, waiting, haddresses, hqueue, List.filterMap_cons, hup]
  refine ⟨hd.asked, ?_, fun a => ?_, fun a => ?_⟩
  · rw [htaken]
    exact hd.alone
  · rw [htaken]
    exact hd.returned a
  · change a ∈ j.updates.filterMap _ ↔ j.state.exchangeState.addresses.get? .btc = some a
    rw [happlied, haddresses]
    exact hd.applied a

/-- The channel's first update is applied, and sets the one address. -/
theorem OneAddress.set (hd : d.OneAddress) {up : StateUpdate} {rest : List StateUpdate} {j : Journal} {a : CurrencyAddress}
    (hqueue : d.queue = up :: rest) (hup : up.body.exchangeAddress? = some a)
    (hget : j.state.exchangeState.addresses.get? .btc = some a)
    (happlied : j.updates.filterMap (·.body.exchangeAddress?) = d.applied ++ [a]) :
    OneAddress { d with queue := rest, journal := j } := by
  have hwaiting : d.waiting = a :: rest.filterMap (·.body.exchangeAddress?) := by
    simp only [waiting, hqueue, List.filterMap_cons, hup]
  have ha : a ∈ d.taken := mem_taken.mpr (Or.inr (hwaiting ▸ List.mem_cons_self))
  -- every address that is taken is this one, before and after
  have htaken : ∀ b, b ∈ taken { d with queue := rest, journal := j } ↔ b ∈ d.taken := by
    intro b
    constructor
    · intro hb
      rcases mem_taken.mp hb with hb | hb
      · rw [hget] at hb
        obtain rfl := Option.some.inj hb
        exact ha
      · exact mem_taken.mpr (Or.inr (hwaiting ▸ List.mem_cons_of_mem _ hb))
    · intro hb
      obtain rfl := hd.alone b hb a ha
      exact mem_taken.mpr (Or.inl hget)
  refine ⟨hd.asked, fun b hb c hc => hd.alone b ((htaken b).mp hb) c ((htaken c).mp hc), fun b => ?_, fun b => ?_⟩
  · rw [htaken]
    exact hd.returned b
  · change b ∈ j.updates.filterMap _ ↔ j.state.exchangeState.addresses.get? .btc = some b
    rw [happlied, hget, List.mem_append, hd.applied, List.mem_singleton, Option.some.injEq]
    constructor
    · rintro (hb | rfl)
      · exact hd.alone a ha b (mem_taken.mpr (Or.inl hb))
      · rfl
    · exact fun hb => Or.inr hb.symm

theorem applied_store {o : Oracle} {up : StateUpdate} {j : Journal} (h : d.journal.store o up = some j) :
    j.updates.filterMap (·.body.exchangeAddress?) = d.applied ++ up.body.exchangeAddress?.toList := by
  rw [Journal.updates_store h, List.filterMap_append, applied]
  cases hup : up.body.exchangeAddress? <;> simp [hup]

/-- (step) -/
theorem OneAddress.step (hd : d.OneAddress) (hg : d.Guarded) (hkeep : d.KeepsOne act) (h : machine.step d act = some d') :
    d'.OneAddress := by
  cases moves h with
  | request c =>
    obtain rfl : c = .btc := hkeep
    refine ⟨fun call hcall => ?_, hd.alone, fun a => ?_, hd.applied⟩
    · rcases List.mem_append.mp hcall with hcall | hcall
      · exact hd.asked call hcall
      · rw [List.mem_singleton.mp hcall]
        rfl
    · refine Iff.trans ?_ (hd.returned a)
      simp
  | read n c hcall =>
    obtain rfl : c = .btc := hd.asked _ (List.mem_of_getElem? hcall)
    refine hd.setCall hcall (fun _ => nofun) ?_ (fun a ha => ?_)
    · unfold AddressCall.read
      cases d.journal.state.exchangeState.addresses.get? .btc <;> rfl
    · exact mem_taken.mpr (Or.inl (AddressCall.read_answered ha.symm))
  | lookUp n c hcall =>
    have hm := List.mem_of_getElem? hcall
    exact absurd (hd.asked _ hm) (hg.calls _ hm)
  | allocate n c address hcall =>
    obtain rfl : c = .btc := hd.asked _ (List.mem_of_getElem? hcall)
    exact hd.setCall hcall (fun _ => nofun) rfl (fun _ => nofun)
  | send n created a hcall =>
    have ha : a.currency = .btc := hd.asked _ (List.mem_of_getElem? hcall)
    exact hd.send created hcall ha (hkeep a (by simp [sending?, hcall]))
  | other up hup =>
    have htaken : taken { d with queue := d.queue ++ [up] } = d.taken := by
      simp [taken, waiting, exchangeAddress?_of_fromElsewhere hup]
    refine ⟨hd.asked, ?_, fun a => ?_, hd.applied⟩
    · rw [htaken]
      exact hd.alone
    · rw [htaken]
      exact hd.returned a
  | refused o up rest hqueue hs =>
    refine hd.pop hqueue ?_ rfl rfl
    cases hup : up.body.exchangeAddress? with
    | none => rfl
    | some a =>
      obtain ⟨j, hj⟩ := Journal.exists_store_exchangeAddress (j := d.journal) o (exchangeAddress?_eq_some.mp hup)
      rw [hs] at hj
      cases hj
  | stored o up rest j hqueue hs =>
    have hmem : up ∈ d.queue := hqueue ▸ List.mem_cons_self
    have haddresses := Journal.addresses_store hs (hg.not_isSnapshot hmem)
    have happlied := applied_store hs
    cases hup : up.body.exchangeAddress? with
    | none =>
      rw [hup] at haddresses happlied
      exact hd.pop hqueue hup haddresses (happlied.trans (List.append_nil _))
    | some a =>
      rw [hup] at haddresses happlied
      have ha := hg.currency_of_exchangeAddress? hmem hup
      exact hd.set hqueue hup (by rw [haddresses, AssocMap.get?_insert, ha, if_pos rfl]) happlied

/-- (run) -/
theorem oneAddress (h : machine.Reachable KeepsOne d) : d.OneAddress := by
  refine h.invariant ?_ (fun d act d' hr hd hkeep hs => hd.step (guarded hr) hkeep hs)
  rintro _ ⟨now, genesisHash, rfl⟩
  refine ⟨List.forall_mem_nil _, List.forall_mem_nil _, fun a => ?_, fun a => ?_⟩
  · exact iff_of_false List.not_mem_nil List.not_mem_nil
  · exact iff_of_false List.not_mem_nil (fun h => Option.some_ne_none a h.symm)

/-- While each step keeps one address, every address works. -/
theorem OneAddress.works (hd : d.OneAddress) (hg : d.Guarded) : d.Works where
  served := fun _ call address h => hg.serves address h (hd.asked call (List.mem_of_getElem? h))
  sent := fun a ha => (mem_taken.mp ((hd.returned a).mp ha)).imp_left (hd.applied a).mpr
  credited := fun a ha happlied => .of_get? (hg.answered ha).2 ((hd.applied a).mp happlied)

/-! ## A step that does not keep one address -/

/-- The first updates of the channel are applied. -/
theorem exists_drained (o : Oracle) (q rest : List StateUpdate) (hheld : d.stateHeld = false) (hqueue : d.queue = q ++ rest) :
    ∃ d', (machine.startedAt d).Reachable Machine.anyStep d' ∧ d'.queue = rest ∧ d'.calls = d.calls ∧
      ∀ a, a ∈ d.applied ∨ a ∈ q.filterMap (·.body.exchangeAddress?) → a ∈ d'.applied := by
  induction q generalizing d with
  | nil => exact ⟨d, .init rfl, hqueue, rfl, fun a ha => ha.elim id nofun⟩
  | cons up q ih =>
    let d₁ : AddressDesk := { d with queue := q ++ rest, journal := (d.journal.store o up).getD d.journal }
    have hstep : machine.step d (.apply o) = some d₁ := by
      simp only [machine, step, hqueue, List.cons_append, hheld, d₁]
    obtain ⟨d', hr, hrest, hcalls, hd'⟩ := ih (d := d₁) hheld rfl
    refine ⟨d', (Machine.Reachable.single trivial hstep).trans hr, hrest, hcalls, fun a ha => hd' a ?_⟩
    have hup : a ∈ d.applied ∨ up.body.exchangeAddress? = some a → a ∈ d₁.applied := by
      cases hs : d.journal.store o up with
      | some j =>
        have happlied : d₁.applied = d.applied ++ up.body.exchangeAddress?.toList := by
          simp only [d₁, hs]
          exact applied_store hs
        rw [happlied, List.mem_append, Option.mem_toList]
        exact id
      | none =>
        have hsame : d₁.applied = d.applied := by
          simp only [d₁, hs]
          rfl
        rw [hsame]
        rintro (ha | ha)
        · exact ha
        · obtain ⟨j, hj⟩ := Journal.exists_store_exchangeAddress (j := d.journal) o (exchangeAddress?_eq_some.mp ha)
          rw [hs] at hj
          cases hj
    rcases ha with ha | ha
    · exact Or.inl (hup (Or.inl ha))
    · obtain ⟨x, hx, hxa⟩ := List.mem_filterMap.mp ha
      rcases List.mem_cons.mp hx with rfl | hx
      · exact Or.inl (hup (Or.inr hxa))
      · exact Or.inr (List.mem_filterMap.mpr ⟨x, hx, hxa⟩)

/-- An address that was answered is the exchange's no more once the update of another one is applied. -/
theorem replaced {a b : CurrencyAddress} {up : StateUpdate} (o : Oracle) (hheld : d.stateHeld = false) (hqueue : d.queue = [up])
    (hup : up.body = .exchangeAddress a) (ha : a.currency = .btc) (hb : b.currency = .btc) (hne : b ≠ a)
    (hanswered : .answered .btc (.ok b) ∈ d.calls) (happlied : b ∈ d.applied) :
    ∃ d', (machine.startedAt d).Reachable Machine.anyStep d' ∧ ¬d'.Works := by
  obtain ⟨j, hj⟩ := Journal.exists_store_exchangeAddress (j := d.journal) o hup
  have hstep : machine.step d (.apply o) = some { d with queue := [], journal := j } := by
    simp only [machine, step, hqueue, hheld, hj, Option.getD_some]
  refine ⟨_, .single trivial hstep, fun hworks => ?_⟩
  have hstill : b ∈ applied { d with queue := [], journal := j } := by
    rw [applied, applied_store hj]
    exact List.mem_append_left _ happlied
  have hrec := (hworks.credited b hanswered hstill).recognised
  obtain ⟨b, rfl⟩ : ∃ x, b = .btc x := by
    cases b with
    | btc x => exact ⟨x, rfl⟩
    | eth x => cases hb
    | erc20 x => cases hb
  rw [State.isExchangeAddress_set (Journal.store_answer hj) hup, if_pos ha] at hrec
  exact hne (of_decide_eq_true hrec).symm

/-- A step that does not keep one address leads to where a call is not served, or an address does not work. -/
theorem OneAddress.breaks (hd : d.OneAddress) (hr : machine.Reachable Machine.anyStep d) (h : machine.step d act = some d')
    (hbreak : ¬d.KeepsOne act) : ∃ d'', (machine.startedAt d').Reachable Machine.anyStep d'' ∧ ¬d''.Works := by
  have hr' : machine.Reachable Machine.anyStep d' := .step hr trivial h
  have hheld := (guarded hr').not_stateHeld
  cases moves h with
  | request c =>
    refine ⟨_, .init rfl, fun hworks => ?_⟩
    have hcall : (d.calls ++ [AddressCall.reading c])[d.calls.length]? = some (.reading c) := by simp
    exact not_serves hr' hbreak (hworks.served _ _ "" hcall)
  | send n created a hcall =>
    have ha : a.currency = .btc := (guarded hr).calls _ (List.mem_of_getElem? hcall)
    obtain ⟨b, hb, hne⟩ : ∃ b ∈ d.taken, b ≠ a := by
      by_contra hall
      push Not at hall
      refine hbreak fun x hx b hb => ?_
      have hx : some a = some x := by simpa [sending?, hcall] using hx
      exact (hall b hb).trans (Option.some.inj hx)
    have hanswered := (hd.returned b).mpr hb
    have hbtc := ((guarded hr).answered hanswered).2
    obtain ⟨d₁, hr₁, hqueue, hcalls, happlied⟩ := exists_drained Sample.oracle d.queue _ hheld rfl
    have hb₁ : b ∈ d₁.applied := happlied b ((mem_taken.mp hb).imp_left (hd.applied b).mpr)
    have hanswered₁ : .answered .btc (.ok b) ∈ d₁.calls := by
      rw [hcalls]
      exact (answered_setCall hcall nofun).mpr (Or.inl hanswered)
    have hheld₁ := (guarded (hr'.trans hr₁)).not_stateHeld
    obtain ⟨d₂, hr₂, hfails⟩ := replaced Sample.oracle hheld₁ hqueue rfl ha hbtc hne hanswered₁ hb₁
    exact ⟨d₂, hr₁.trans hr₂, hfails⟩
  | _ => exact absurd trivial hbreak

/-- Addresses that are handed out work in every run whose steps keep one address; and a step that does not leads to where they
do not work. -/
theorem handed_out_addresses_work (h : machine.Reachable KeepsOne d) :
    d.Works ∧ ∀ act d', machine.step d act = some d' → ¬d.KeepsOne act →
      ∃ d'', (machine.startedAt d').Reachable Machine.anyStep d'' ∧ ¬d''.Works := by
  have hd := oneAddress h
  exact ⟨hd.works (guarded h), fun act d' hstep hbreak => hd.breaks (h.mono fun _ _ _ => trivial) hstep hbreak⟩

end AddressDesk

namespace Sample

open AddressDesk

def desk : AddressDesk := { journal := start, queue := [], calls := [] }

theorem machine_init_desk : AddressDesk.machine.init desk := ⟨⟨0⟩, "genesis", rfl⟩

def handedOut (name : String) : AddressCall := .answered .btc (.ok (.btc { addr := name }))

/-- Two calls, of which the second reads once the update of the first is applied. -/
def inTurn : List DeskAction :=
  [.request .btc, .request .btc, .read 0, .allocate 0 "first", .send 0 ⟨1⟩, .apply oracle, .read 1]

/-- Two calls, of which both read before either has sent its update. -/
def overlapping : List DeskAction :=
  [.request .btc, .request .btc, .read 0, .read 1, .allocate 0 "first", .allocate 1 "second", .send 0 ⟨1⟩, .send 1 ⟨2⟩,
    .apply oracle, .apply oracle]

/-- A call for ETH. -/
def forEth : List DeskAction := [.request .eth, .read 0, .lookUp 0]

end Sample

open Sample in
/-- Two calls that come in turn are answered one address, and it works. -/
theorem AddressDesk.handed_out_in_turn :
    ∃ d, machine.Reachable KeepsOne d ∧ d.calls = [handedOut "first", handedOut "first"] ∧ d.Works := by
  obtain ⟨d, hr, hq⟩ := Machine.exists_reachable (P := KeepsOne) inTurn
    (q := fun (d : AddressDesk) => decide (d.calls = [handedOut "first", handedOut "first"])) machine_init_desk (by decide)
  exact ⟨d, hr, of_decide_eq_true hq, (handed_out_addresses_work hr).1⟩

open Sample in
/-- A call for ETH is answered with an error; and of two calls at the same time the address of the first is nobody's in the end. -/
theorem AddressDesk.handed_out_address_replaced :
    (∃ d, machine.Reachable Machine.anyStep d ∧ d.calls = [.answered .eth (.error (.failedGenAddress .eth))]) ∧
    (∃ d, machine.Reachable Machine.anyStep d ∧ d.calls = [handedOut "first", handedOut "second"] ∧ d.queue = [] ∧
      d.journal.state.isExchangeAddress (.btc { addr := "first" }) = false) ∧
    ¬∀ d, machine.Reachable Machine.anyStep d → d.Works := by
  obtain ⟨d₁, hr₁, hq₁⟩ := Machine.exists_reachable (P := Machine.anyStep) forEth
    (q := fun (d : AddressDesk) => decide (d.calls = [.answered .eth (.error (.failedGenAddress .eth))]))
    machine_init_desk (by decide)
  obtain ⟨d, hr, hq⟩ := Machine.exists_reachable (P := Machine.anyStep) overlapping
    (q := fun (d : AddressDesk) => decide (d.calls = [handedOut "first", handedOut "second"] ∧ d.queue.isEmpty = true ∧
      .btc { addr := "first" } ∈ d.applied ∧ d.journal.state.isExchangeAddress (.btc { addr := "first" }) = false))
    machine_init_desk (by decide)
  obtain ⟨hcalls, hqueue, happlied, hrec⟩ := of_decide_eq_true hq
  refine ⟨⟨d₁, hr₁, of_decide_eq_true hq₁⟩, ⟨d, hr, hcalls, List.isEmpty_iff.mp hqueue, hrec⟩, fun hall => ?_⟩
  have hanswered : handedOut "first" ∈ d.calls := hcalls ▸ List.mem_cons_self
  have hcredits := (hall d hr).credited _ hanswered happlied
  exact absurd (hrec.symm.trans hcredits.recognised) Bool.false_ne_true

end Hexstody
