import Hexstody.Lemmas.Journal

/-!
# What an update does to an exchange order, and what it credits

The change of an account (`AccountChange`) seen at one exchange order (`OrderChange`) and at one incoming amount
(`IncomingChange`). In runs with fresh ids every order of the State was created by a row of the journal, in the account it is in
(`Journal.OrdersFiled`), and an amount that came in is of an order that is completed (`Journal.CreditedOnce`); so no amount comes
in twice under one id.
-/

namespace Hexstody

/-- The exchange order with an id in an account. -/
def State.order? (s : State) (u : UserId) (c : Currency) (i : ExchangeOrderId) : Option ExchangeOrder :=
  (s.currency? u c).bind (·.exchangeRequests.get? i)

/-- The amount that came into an account for an order. -/
def State.incoming? (s : State) (u : UserId) (c : Currency) (i : ExchangeOrderId) : Option UInt64 :=
  (s.currency? u c).bind (·.incomingExchangeRequests.get? i)

/-- How an accepted update changes the order with id `i` in the account of `u` in `c`, with what the update had to meet. -/
inductive OrderChange (up : StateUpdate) (u : UserId) (c : Currency) (i : ExchangeOrderId) :
    Option ExchangeOrder → Option ExchangeOrder → Prop where
  | same (a : Option ExchangeOrder) : OrderChange up u c i a a
  | dropped (ex : ExchangeOrder) (token : Erc20Token) : c = .erc20 token → OrderChange up u c i (some ex) none
  | created (a : Option ExchangeOrder) (req : ExchangeOrderUpd) :
      up.body = .exchangeRequest req → req.id = i → req.user = u → req.currencyFrom = c →
      OrderChange up u c i a (some (.ofUpd req))
  | decided (ex ex' : ExchangeOrder) (req : ExchangeDecision) (completes : Bool) :
      up.body = .exchangeDecision req → req.user = u → req.currencyFrom = c → req.id = i →
      ex.applyDecision EXCHANGE_NUMBER_OF_CONFIRMATIONS req = .ok (ex', completes) →
      OrderChange up u c i (some ex) (some ex')

/-- How an accepted update changes the amount that came in for order `i`. -/
inductive IncomingChange (s : State) (up : StateUpdate) (u : UserId) (c : Currency) (i : ExchangeOrderId) :
    Option UInt64 → Option UInt64 → Prop where
  | same (a : Option UInt64) : IncomingChange s up u c i a a
  | dropped (amount : UInt64) (token : Erc20Token) : c = .erc20 token → IncomingChange s up u c i (some amount) none
  | credited (a : Option UInt64) (req : ExchangeDecision) (ex ex' : ExchangeOrder) :
      up.body = .exchangeDecision req → req.user = u → req.currencyTo = c → req.id = i →
      s.order? u req.currencyFrom i = some ex →
      ex.applyDecision EXCHANGE_NUMBER_OF_CONFIRMATIONS req = .ok (ex', true) →
      IncomingChange s up u c i a (some req.amountTo)

/-- The order with an id in an account that may be there. -/
def orderIn (a : Option UserCurrencyInfo) (i : ExchangeOrderId) : Option ExchangeOrder := a.bind (·.exchangeRequests.get? i)

/-- The amount that came in for an order, in an account that may be there. -/
def incomingIn (a : Option UserCurrencyInfo) (i : ExchangeOrderId) : Option UInt64 :=
  a.bind (·.incomingExchangeRequests.get? i)

/-! ## The changes -/

section

variable {s s' : State} {o : Oracle} {up : StateUpdate} {u : UserId} {c : Currency} {a a' : Option UserCurrencyInfo}

/-- Orders that are left as they are. -/
theorem orderChange_same {j j' : UserCurrencyInfo} (i : ExchangeOrderId) (h : j'.exchangeRequests = j.exchangeRequests) :
    OrderChange up u c i (orderIn (some j) i) (orderIn (some j') i) := by
  simp only [orderIn, Option.bind_some, h]
  exact .same _

/-- Incoming amounts that are left as they are. -/
theorem incomingChange_same {j j' : UserCurrencyInfo} (i : ExchangeOrderId)
    (h : j'.incomingExchangeRequests = j.incomingExchangeRequests) :
    IncomingChange s up u c i (incomingIn (some j) i) (incomingIn (some j') i) := by
  simp only [incomingIn, Option.bind_some, h]
  exact .same _

/-- The change of an account, seen at an order. -/
theorem AccountChange.order (h : AccountChange s up u c a a') (hs : s.currency? u c = a) (i : ExchangeOrderId) :
    OrderChange up u c i (orderIn a i) (orderIn a' i) := by
  cases h with
  | same => exact .same _
  | opened => exact .same _
  | closed j token hb hc hbal =>
    cases hr : orderIn (some j) i with
    | none => exact .same _
    | some ex => exact .dropped ex token hc
  | requested j info hb hu hc hl => exact orderChange_same i rfl
  | voted j d r r' confirmed hb hu hc hr ha => exact orderChange_same i rfl
  | completed j info hb => exact orderChange_same i rfl
  | nodeRejected j info hb => exact orderChange_same i rfl
  | addressed j address hb hc hn => exact orderChange_same i rfl
  | deposited j tx hb hc =>
    rw [UserCurrencyInfo.updateBtcTx_eq]
    exact orderChange_same i rfl
  | canceled j tx owner rid hb ho hrid =>
    rw [UserCurrencyInfo.afterCancel_eq]
    exact orderChange_same i rfl
  | limited j lcd hb hu hc ht => exact orderChange_same i rfl
  | cleared j span hb =>
    rw [UserCurrencyInfo.clearLimit_eq]
    exact orderChange_same i rfl
  | ordered j req hb hu hc hbal =>
    simp only [orderIn, Option.bind_some, UserCurrencyInfo.insertExchange, AssocMap.get?_insert]
    by_cases hi : i = req.id
    · rw [if_pos hi]
      exact .created _ req hb hi.symm hu hc
    · rw [if_neg hi]
      exact .same _
  | exchanged j k req ex ex' completes hb hu hk hex ha =>
    rw [UserCurrencyInfo.afterExchange_eq]
    simp only [orderIn, Option.bind_some]
    by_cases hc : c = req.currencyFrom
    · rw [if_pos hc, AssocMap.get?_modify]
      by_cases hi : i = req.id
      · -- the account is the one the order is in
        have hjk : j = k := by
          rw [hc] at hs
          exact Option.some.inj (hs.symm.trans hk)
        rw [if_pos hi, hjk, hi, hex]
        exact .decided ex ex' req completes hb hu hc.symm rfl ha
      · rw [if_neg hi]
        exact .same _
    · rw [if_neg hc]
      exact .same _

/-- The change of an account, seen at an incoming amount. -/
theorem AccountChange.incoming (h : AccountChange s up u c a a') (i : ExchangeOrderId) :
    IncomingChange s up u c i (incomingIn a i) (incomingIn a' i) := by
  cases h with
  | same => exact .same _
  | opened => exact .same _
  | closed j token hb hc hbal =>
    cases hr : incomingIn (some j) i with
    | none => exact .same _
    | some amount => exact .dropped amount token hc
  | requested j info hb hu hc hl => exact incomingChange_same i rfl
  | voted j d r r' confirmed hb hu hc hr ha => exact incomingChange_same i rfl
  | completed j info hb => exact incomingChange_same i rfl
  | nodeRejected j info hb => exact incomingChange_same i rfl
  | addressed j address hb hc hn => exact incomingChange_same i rfl
  | deposited j tx hb hc =>
    rw [UserCurrencyInfo.updateBtcTx_eq]
    exact incomingChange_same i rfl
  | canceled j tx owner rid hb ho hrid =>
    rw [UserCurrencyInfo.afterCancel_eq]
    exact incomingChange_same i rfl
  | limited j lcd hb hu hc ht => exact incomingChange_same i rfl
  | cleared j span hb =>
    rw [UserCurrencyInfo.clearLimit_eq]
    exact incomingChange_same i rfl
  | ordered j req hb hu hc hbal => exact incomingChange_same i rfl
  | exchanged j k req ex ex' completes hb hu hk hex ha =>
    rw [UserCurrencyInfo.afterExchange_eq]
    simp only [incomingIn, Option.bind_some]
    by_cases hc : completes = true ∧ c = req.currencyTo
    · rw [if_pos hc, AssocMap.get?_insert]
      by_cases hi : i = req.id
      · rw [if_pos hi]
        have hord : s.order? u req.currencyFrom i = some ex := by
          rw [State.order?, hk, hi]
          exact hex
        rw [hc.1] at ha
        exact .credited _ req ex ex' hb hu hc.2.symm hi.symm hord ha
      · rw [if_neg hi]
        exact .same _
    · rw [if_neg hc]
      exact .same _

/-- What an accepted update, other than a snapshot, does to an order. -/
theorem applyUpdate_order {res : Option UpdateResult} (h : s.applyUpdate o up = (s', .ok res)) (hs : ¬up.body.IsSnapshot)
    (u : UserId) (c : Currency) (i : ExchangeOrderId) : OrderChange up u c i (s.order? u c i) (s'.order? u c i) :=
  (applyUpdate_account h hs u c).order rfl i

/-- What an accepted update, other than a snapshot, does to an incoming amount. -/
theorem applyUpdate_incoming {res : Option UpdateResult} (h : s.applyUpdate o up = (s', .ok res))
    (hs : ¬up.body.IsSnapshot) (u : UserId) (c : Currency) (i : ExchangeOrderId) :
    IncomingChange s up u c i (s.incoming? u c i) (s'.incoming? u c i) :=
  (applyUpdate_account h hs u c).incoming i

end

/-! ## Votes on an order -/

/-- A vote is on an order in progress; it leaves what is exchanged as it is, and completes the order if it says so. -/
theorem ExchangeOrder.applyDecision_eq_ok {t : Int16} {ex ex' : ExchangeOrder} {req : ExchangeDecision} {completes : Bool}
    (h : ex.applyDecision t req = .ok (ex', completes)) :
    (∃ m n, ex.status = .inProgress m n) ∧ ex'.amountFrom = ex.amountFrom ∧ (completes = true → ex'.status = .completed) := by
  unfold ExchangeOrder.applyDecision at h
  cases hst : ex.status with
  | completed => simp [hst] at h
  | rejected => simp [hst] at h
  | inProgress m n =>
    refine ⟨⟨m, n, rfl⟩, ?_⟩
    simp only [hst] at h
    cases hd : req.decision with
    | confirm =>
      simp only [hd] at h
      split at h
      · cases h
      · split at h
        · obtain ⟨rfl, rfl⟩ := Prod.mk.inj (Except.ok.inj h)
          exact ⟨rfl, fun _ => rfl⟩
        · obtain ⟨rfl, rfl⟩ := Prod.mk.inj (Except.ok.inj h)
          exact ⟨rfl, fun hc => by cases hc⟩
    | reject =>
      simp only [hd] at h
      split at h
      · cases h
      · split at h
        · obtain ⟨rfl, rfl⟩ := Prod.mk.inj (Except.ok.inj h)
          exact ⟨rfl, fun hc => by cases hc⟩
        · obtain ⟨rfl, rfl⟩ := Prod.mk.inj (Except.ok.inj h)
          exact ⟨rfl, fun hc => by cases hc⟩

/-- A vote leaves what is exchanged as it is. -/
theorem ExchangeOrder.applyDecision_intoExchangeUpd {t : Int16} {ex ex' : ExchangeOrder} {req : ExchangeDecision}
    {completes : Bool} (h : ex.applyDecision t req = .ok (ex', completes)) : ex'.intoExchangeUpd = ex.intoExchangeUpd := by
  unfold ExchangeOrder.applyDecision at h
  cases hst : ex.status with
  | completed => simp [hst] at h
  | rejected => simp [hst] at h
  | inProgress m n =>
    simp only [hst] at h
    cases hd : req.decision with
    | confirm =>
      simp only [hd] at h
      split at h
      · cases h
      · split at h <;>
          · obtain ⟨rfl, -⟩ := Prod.mk.inj (Except.ok.inj h)
            rfl
    | reject =>
      simp only [hd] at h
      split at h
      · cases h
      · split at h <;>
          · obtain ⟨rfl, -⟩ := Prod.mk.inj (Except.ok.inj h)
            rfl

/-- An accepted decision leaves the order it is about as its vote does. -/
theorem applyUpdate_exchanged {s s' : State} {o : Oracle} {up : StateUpdate} {res : Option UpdateResult}
    {req : ExchangeDecision} (h : s.applyUpdate o up = (s', .ok res)) (hb : up.body = .exchangeDecision req) :
    ∃ ex ex' completes, s.order? req.user req.currencyFrom req.id = some ex ∧
      ex.applyDecision EXCHANGE_NUMBER_OF_CONFIRMATIONS req = .ok (ex', completes) ∧
      s'.order? req.user req.currencyFrom req.id = some ex' := by
  unfold State.applyUpdate at h
  rw [hb] at h
  obtain ⟨s₁, a, hout, rfl, -⟩ := State.stamped_eq_ok h
  obtain ⟨j, ex, ex', completes, hj, hex, ha, hafter⟩ := State.withExchangeDecision_eq_ok hout
  refine ⟨ex, ex', completes, ?_, ha, ?_⟩
  · rw [State.order?, hj]
    exact hex
  · have hcur : s₁.currency? req.user req.currencyFrom = some (j.afterExchange req.currencyFrom req ex' completes) := by
      rw [hafter, if_pos rfl, hj]
      rfl
    have hord : s₁.order? req.user req.currencyFrom req.id = some ex' := by
      rw [State.order?, hcur, Option.bind_some, UserCurrencyInfo.afterExchange_eq]
      simp only [if_pos, AssocMap.get?_modify_self, hex, Option.map_some]
    exact hord

/-! ## The journal -/

namespace Journal

variable {j j' : Journal} {o : Oracle} {up : StateUpdate}

/-- Every order of the State was created by a row, in the account it is in, and no id is used twice. -/
structure OrdersFiled (j : Journal) : Prop where
  filed : ∀ {u c i ex}, j.state.order? u c i = some ex → ∃ req ∈ j.orders, req.id = i ∧ req.user = u ∧ req.currencyFrom = c
  nodup : (j.orders.map (·.id)).Nodup

/-- An amount that came in is of an order that was created, and the order, where it is, is completed. -/
def CreditedOnce (j : Journal) : Prop :=
  ∀ u c i amount, j.state.incoming? u c i = some amount → i ∈ j.orders.map (·.id) ∧
    ∀ u' c' ex, j.state.order? u' c' i = some ex → ex.status = .completed

/-- An id names one order, in one account. -/
theorem OrdersFiled.unique {u u' : UserId} {c c' : Currency} {i : ExchangeOrderId} {ex ex' : ExchangeOrder}
    (h : j.OrdersFiled) (he : j.state.order? u c i = some ex) (he' : j.state.order? u' c' i = some ex') : ex = ex' := by
  obtain ⟨req, hm, hi, hu, hc⟩ := h.filed he
  obtain ⟨req', hm', hi', hu', hc'⟩ := h.filed he'
  obtain rfl : req = req' := List.inj_on_of_nodup_map h.nodup hm hm' (hi.trans hi'.symm)
  subst hu hc
  rw [← hu', ← hc', he] at he'
  exact Option.some.inj he'

/-- (step) -/
theorem OrdersFiled.store (hf : j.OrdersFiled) (hp : j.Fresh (o, up)) (h : j.store o up = some j') : j'.OrdersFiled := by
  refine ⟨?_, ?_⟩
  · intro u c i ex he
    have hch := applyUpdate_order (store_answer h) hp.1 u c i
    rw [he] at hch
    generalize hb : j.state.order? u c i = before at hch
    have hkeep : ∀ {ex₀}, j.state.order? u c i = some ex₀ →
        ∃ req ∈ j'.orders, req.id = i ∧ req.user = u ∧ req.currencyFrom = c := by
      intro ex₀ he₀
      obtain ⟨req, hm, hreq⟩ := hf.filed he₀
      exact ⟨req, by rw [orders_store h]; exact List.mem_append_left _ hm, hreq⟩
    cases hch with
    | same => exact hkeep hb
    | created _ req hbody hi hu hc =>
      refine ⟨req, ?_, hi, hu, hc⟩
      rw [orders_store h]
      exact List.mem_append_right _ (by simp [StateUpdate.order?, hbody])
    | decided ex₀ _ req completes _ _ _ _ _ => exact hkeep hb
  · rw [orders_store h, List.map_append]
    cases hu : up.order? with
    | none => simpa using hf.nodup
    | some req =>
      have hn := hp.2.2 req (Option.mem_def.mpr hu)
      simp only [Option.toList_some, List.map_cons, List.map_nil]
      exact List.Nodup.append hf.nodup (List.nodup_singleton _) (by simpa using hn)

/-- (step) -/
theorem CreditedOnce.store (hcr : j.CreditedOnce) (hf : j.OrdersFiled) (hf' : j'.OrdersFiled) (hp : j.Fresh (o, up))
    (h : j.store o up = some j') : j'.CreditedOnce := by
  have ha := store_answer h
  have hold : ∀ i, i ∈ j.orders.map (·.id) → i ∈ j'.orders.map (·.id) := by
    intro i hi
    rw [orders_store h, List.map_append]
    exact List.mem_append_left _ hi
  intro u c i amount hin
  have hch := applyUpdate_incoming ha hp.1 u c i
  rw [hin] at hch
  generalize hb : j.state.incoming? u c i = before at hch
  cases hch with
  | same =>
    obtain ⟨hm, hdone⟩ := hcr u c i amount hb
    refine ⟨hold i hm, fun u' c' ex he => ?_⟩
    have hoc := applyUpdate_order ha hp.1 u' c' i
    rw [he] at hoc
    generalize hbo : j.state.order? u' c' i = obefore at hoc
    cases hoc with
    | same => exact hdone u' c' ex hbo
    | created _ req hbody hi _ _ =>
      have hnew := hp.2.2 req (by simp [StateUpdate.order?, hbody])
      exact absurd (hi ▸ hm) hnew
    | decided ex₀ _ req completes _ _ _ _ hd =>
      obtain ⟨⟨m, n, hst⟩, -, -⟩ := ExchangeOrder.applyDecision_eq_ok hd
      rw [hdone u' c' ex₀ hbo] at hst
      cases hst
  | credited _ req ex ex' hbody hu hc hi hord hd =>
    obtain ⟨req₀, hm₀, hi₀, -, -⟩ := hf.filed hord
    refine ⟨hold i (hi₀ ▸ List.mem_map_of_mem hm₀), fun u' c' ex₁ he₁ => ?_⟩
    -- the order is where the decision names it, and the decision completes it there
    obtain ⟨ex₂, ex₂', completes, hord₂, hd₂, hafter⟩ := applyUpdate_exchanged ha hbody
    subst hu hi
    obtain rfl := Option.some.inj (hord.symm.trans hord₂)
    rw [hd] at hd₂
    obtain ⟨rfl, rfl⟩ := Prod.mk.inj (Except.ok.inj hd₂)
    obtain rfl := hf'.unique he₁ hafter
    exact (ExchangeOrder.applyDecision_eq_ok hd).2.2 rfl

/-- (run) -/
theorem ordersFiled_of_reachable {P : Journal → Oracle × StateUpdate → Prop} (hP : ∀ j a, P j a → j.Fresh a)
    (h : machine.Reachable P j) : j.OrdersFiled ∧ j.CreditedOnce := by
  refine h.invariant (I := fun j => j.OrdersFiled ∧ j.CreditedOnce) ?_ ?_
  · rintro _ ⟨now, genesisHash, rfl⟩
    exact ⟨⟨(fun he => by cases he), List.nodup_nil⟩, fun u c i amount hin => by cases hin⟩
  · intro j a j' _ hj hp hs
    have hf' := hj.1.store (hP j a hp) hs
    exact ⟨hf', hj.2.store hj.1 hf' (hP j a hp) hs⟩

end Journal

end Hexstody
