import Hexstody.Library.Lists
import Hexstody.OrderLists
import Hexstody.Theorems.PendingOrders
import Hexstody.Theorems.Resending
import Hexstody.Theorems.UserAddresses

/-!
# What the lists of exchange orders show

The lists are told by the history. An order is shown as pending if it was created and since then has neither been voted on nor lost
its account, and as completed or rejected if an operator has decided so and its account has been there since (`Journal.Stands`). In
every run with fresh identifiers, each filter selects exactly the orders that stand so, each once and with the data it was requested
with, in any order of the maps; and a user is shown exactly his own (`orders_listed`).
-/

namespace Hexstody

/-! ## What an update does to one order -/

namespace State

variable {s s' : State} {o : Oracle} {up : StateUpdate} {res : Option UpdateResult} {u : UserId} {c : Currency} {i : ExchangeOrderId}

/-- A token that is disabled takes the orders of its account with it. -/
theorem order?_of_closes (h : s.applyUpdate o up = (s', .ok res)) (hcloses : up.body.closes? = some (u, c)) :
    s'.order? u c i = none := by
  unfold UpdateBody.closes? at hcloses
  split at hcloses
  · rename_i req hb
    obtain ⟨user, token, action⟩ := req
    cases action with
    | enable => cases hcloses
    | disable =>
      obtain ⟨rfl, rfl⟩ := Prod.mk.inj (Option.some.inj hcloses)
      unfold applyUpdate at h
      rw [hb] at h
      obtain ⟨s₁, a, hout, rfl, -⟩ := stamped_eq_ok h
      obtain ⟨-, -, -, rfl⟩ := updateTokens_disable_eq_ok hout
      rw [order?, Option.bind_eq_none_iff]
      intro j hj
      change currency? (modifyUser s user _) user (.erc20 token) = some j at hj
      rw [currency?_disable, if_pos ⟨rfl, rfl⟩] at hj
      cases hj
  · cases hcloses

/-- An order that is requested is there, with no vote on it. -/
theorem order?_of_request {req : ExchangeOrderUpd} (h : s.applyUpdate o up = (s', .ok res)) (hb : up.body = .exchangeRequest req) :
    s'.order? req.user req.currencyFrom req.id = some (.ofUpd req) := by
  unfold applyUpdate at h
  rw [hb] at h
  obtain ⟨s₁, a, hout, rfl, -⟩ := stamped_eq_ok h
  unfold addExchangeRequest at hout
  cases hu : s.users.get? req.user with
  | none => simp [hu] at hout
  | some ui =>
    simp only [hu] at hout
    cases hc : ui.currencies.get? req.currencyFrom with
    | none => simp [hc] at hout
    | some j =>
      simp only [hc] at hout
      split at hout
      · cases hout
      · simp only [Prod.mk.injEq, and_true] at hout
        rw [← hout]
        change ((modifyCurrency s _ _ _).currency? _ _).bind _ = _
        rw [currency?_modifyCurrency, if_pos ⟨rfl, rfl⟩, currency?_of_get? hu, hc]
        exact AssocMap.get?_insert_self _ _ _

/-- An order whose account is not closed is still there. -/
theorem order?_kept (h : s.applyUpdate o up = (s', .ok res)) (hs : ¬up.body.IsSnapshot) (hcloses : up.body.closes? ≠ some (u, c))
    {ex : ExchangeOrder} (hex : s.order? u c i = some ex) : s'.order? u c i ≠ none := by
  have hch := applyUpdate_account h hs u c
  change orderIn (s.currency? u c) i = some ex at hex
  change orderIn (s'.currency? u c) i ≠ none
  generalize s'.currency? u c = a' at hch ⊢
  generalize ha : s.currency? u c = a at hch hex
  have hsame : ∀ {j j' : UserCurrencyInfo}, j'.exchangeRequests = j.exchangeRequests → orderIn (some j) i = some ex →
      orderIn (some j') i ≠ none := by
    intro j j' hj hold
    rw [orderIn, Option.bind_some, hj]
    change orderIn (some j) i ≠ none
    rw [hold]
    exact Option.some_ne_none ex
  cases hch with
  | same =>
    rw [hex]
    exact Option.some_ne_none ex
  | opened => cases hex
  | closed j token hb hc _ => exact absurd (by rw [hb, hc]; rfl) hcloses
  | deposited j tx _ _ => exact hsame (by rw [UserCurrencyInfo.updateBtcTx_eq]) hex
  | canceled j tx owner rid _ _ _ => exact hsame (by rw [UserCurrencyInfo.afterCancel_eq]) hex
  | cleared j span _ => exact hsame (by rw [UserCurrencyInfo.clearLimit_eq]) hex
  | ordered j req _ _ _ _ =>
    simp only [orderIn, Option.bind_some, UserCurrencyInfo.insertExchange, AssocMap.get?_insert] at hex ⊢
    split
    · exact Option.some_ne_none _
    · rw [hex]
      exact Option.some_ne_none ex
  | exchanged j k req ex₀ ex' completes _ _ _ _ _ =>
    rw [UserCurrencyInfo.afterExchange_eq]
    simp only [orderIn, Option.bind_some] at hex ⊢
    split
    · rw [AssocMap.get?_modify]
      split
      · rw [hex, Option.map_some]
        exact Option.some_ne_none ex'
      · rw [hex]
        exact Option.some_ne_none ex
    · rw [hex]
      exact Option.some_ne_none ex
  | requested j info _ _ _ _ => exact hsame rfl hex
  | voted j d r r' confirmed _ _ _ _ _ => exact hsame rfl hex
  | completed j info _ => exact hsame rfl hex
  | nodeRejected j info _ => exact hsame rfl hex
  | addressed j address _ _ _ => exact hsame rfl hex
  | limited j lcd _ _ _ _ => exact hsame rfl hex

/-- Nothing else changes an order. -/
theorem order?_same (h : s.applyUpdate o up = (s', .ok res)) (hs : ¬up.body.IsSnapshot) (hcloses : up.body.closes? ≠ some (u, c))
    (hreq : ∀ req, up.body = .exchangeRequest req → ¬(req.user = u ∧ req.currencyFrom = c ∧ req.id = i))
    (hdec : ∀ d, up.body = .exchangeDecision d → ¬(d.user = u ∧ d.currencyFrom = c ∧ d.id = i)) :
    s'.order? u c i = s.order? u c i := by
  have hch := applyUpdate_order h hs u c i
  generalize ha' : s'.order? u c i = a' at hch
  generalize ha : s.order? u c i = a at hch
  cases hch with
  | same => rfl
  | dropped ex token _ => exact absurd ha' (order?_kept h hs hcloses ha)
  | created _ req hb hi hu hc => exact absurd ⟨hu, hc, hi⟩ (hreq req hb)
  | decided ex ex' d completes hb hu hc hi _ => exact absurd ⟨hu, hc, hi⟩ (hdec d hb)

end State

/-! ## How an order stands in the history -/

/-- What an order is once it is decided so. -/
def ExchangeDecisionType.outcome : ExchangeDecisionType → ExchangeStatus
  | .confirm => .completed
  | .reject => .rejected

/-- The first vote on an order decides it, as it says. -/
theorem ExchangeOrder.applyDecision_outcome {ex ex' : ExchangeOrder} {dec : ExchangeDecision} {completes : Bool}
    (hst : ex.status = .inProgress 0 0) (h : ex.applyDecision EXCHANGE_NUMBER_OF_CONFIRMATIONS dec = .ok (ex', completes)) :
    ex'.status = dec.decision.outcome := by
  have hone : (0 : Int16) + 1 - 0 ≥ EXCHANGE_NUMBER_OF_CONFIRMATIONS := by decide
  unfold applyDecision at h
  simp only [hst, if_pos hone] at h
  cases hd : dec.decision with
  | confirm =>
    simp only [hd] at h
    split at h
    · cases h
    · obtain ⟨rfl, -⟩ := Prod.mk.inj (Except.ok.inj h)
      rfl
  | reject =>
    simp only [hd] at h
    split at h
    · cases h
    · obtain ⟨rfl, -⟩ := Prod.mk.inj (Except.ok.inj h)
      rfl

theorem ExchangeDecisionType.outcome_ne_inProgress (d : ExchangeDecisionType) (m n : Int16) : d.outcome ≠ .inProgress m n := by
  cases d <;> exact fun h => by cases h

namespace StateUpdate

/-- An operator decides so about the order. -/
def Decides (req : ExchangeOrderUpd) (d : ExchangeDecisionType) (up : StateUpdate) : Prop :=
  ∃ dec, up.body = .exchangeDecision dec ∧ dec.id = req.id ∧ dec.decision = d

/-- The account that the order is paid from stays. -/
def Keeps (req : ExchangeOrderUpd) (up : StateUpdate) : Prop := up.body.closes? ≠ some (req.user, req.currencyFrom)

/-- The order stays, and is not decided. -/
def LeavesOpen (req : ExchangeOrderUpd) (up : StateUpdate) : Prop := up.Keeps req ∧ ∀ d, ¬up.Decides req d

end StateUpdate

/-- How an order stands: it waits if it was requested and has been left open since; and it is decided if it was requested, an
operator has decided so, and its account has stayed since. -/
inductive Journal.Stands (j : Journal) (req : ExchangeOrderUpd) : ExchangeStatus → Prop where
  | waits : Since (fun up => up.body = .exchangeRequest req) (StateUpdate.LeavesOpen req) j.updates → Stands j req (.inProgress 0 0)
  | decided (d : ExchangeDecisionType) : req ∈ j.orders → Since (StateUpdate.Decides req d) (StateUpdate.Keeps req) j.updates →
      Stands j req d.outcome

/-- The State has the order, with a status. -/
def State.HasOrder (s : State) (req : ExchangeOrderUpd) (st : ExchangeStatus) : Prop :=
  ∃ ex, s.order? req.user req.currencyFrom req.id = some ex ∧ ex.intoExchangeUpd = req ∧ ex.status = st

namespace Journal

variable {j j' : Journal} {o : Oracle} {up : StateUpdate} {req : ExchangeOrderUpd} {st : ExchangeStatus}

theorem mem_orders_iff : req ∈ j.orders ↔ ∃ up ∈ j.updates, up.body = .exchangeRequest req := by
  rw [orders, updates, List.mem_filterMap]
  constructor
  · rintro ⟨row, hrow, hreq⟩
    refine ⟨row.update, List.mem_map_of_mem hrow, ?_⟩
    unfold StateUpdate.order? at hreq
    split at hreq
    · rename_i req' hb
      rw [hb, Option.some.inj hreq]
    · cases hreq
  · rintro ⟨up, hup, hb⟩
    obtain ⟨row, hrow, rfl⟩ := List.mem_map.mp hup
    exact ⟨row, hrow, by rw [StateUpdate.order?, hb]⟩

theorem mem_decidedOrders {dec : ExchangeDecision} (hup : up ∈ j.updates) (hb : up.body = .exchangeDecision dec) :
    dec.id ∈ j.decidedOrders := by
  obtain ⟨row, hrow, rfl⟩ := List.mem_map.mp hup
  refine List.mem_filterMap.mpr ⟨row, hrow, ?_⟩
  simp only [hb]

/-- An order that stands in some way was requested. -/
theorem Stands.mem_orders (h : j.Stands req st) : req ∈ j.orders := by
  cases h with
  | waits h => exact mem_orders_iff.mpr h.exists_mem
  | decided d hmem _ => exact hmem

/-- The State has the orders of the history, as they stand in it. -/
def OrdersStand (j : Journal) : Prop := ∀ req st, j.state.HasOrder req st ↔ j.Stands req st

/-! ## What one update does to how an order stands -/

/-- (step) The account of the order is closed. -/
theorem not_stands_of_closes (h : j.store o up = some j') (hcloses : up.body.closes? = some (req.user, req.currencyFrom)) :
    ¬j'.Stands req st := by
  intro hstands
  cases hstands with
  | waits hsince =>
    rw [updates_store h, since_concat] at hsince
    rcases hsince with hb | ⟨-, hkeep, -⟩
    · rw [hb] at hcloses
      cases hcloses
    · exact hkeep hcloses
  | decided d _ hsince =>
    rw [updates_store h, since_concat] at hsince
    rcases hsince with ⟨dec, hb, -, -⟩ | ⟨-, hkeep⟩
    · rw [hb] at hcloses
      cases hcloses
    · exact hkeep hcloses

/-- (step) An order with a new identifier is requested. -/
theorem stands_of_request {req₁ : ExchangeOrderUpd} (hv : j.VotesOnce) (hp : j.Fresh (o, up)) (h : j.store o up = some j')
    (hb : up.body = .exchangeRequest req₁) (hid : req₁.id = req.id) : j'.Stands req st ↔ req₁ = req ∧ st = .inProgress 0 0 := by
  have hnew : req.id ∉ j.orders.map (·.id) := hid ▸ hp.2.2 req₁ (by simp [StateUpdate.order?, hb])
  constructor
  · intro hstands
    cases hstands with
    | waits hsince =>
      rw [updates_store h, since_concat] at hsince
      rcases hsince with hb' | ⟨hold, -⟩
      · rw [hb] at hb'
        exact ⟨UpdateBody.exchangeRequest.inj hb', rfl⟩
      · exact absurd (List.mem_map_of_mem (Stands.waits hold).mem_orders) hnew
    | decided d _ hsince =>
      rw [updates_store h, since_concat] at hsince
      rcases hsince with ⟨dec, hb', -, -⟩ | ⟨hold, -⟩
      · rw [hb] at hb'
        cases hb'
      · obtain ⟨up₀, hup₀, dec, hb₀, hid₀, -⟩ := hold.exists_mem
        exact absurd (hid₀ ▸ (hv.decided dec.id (mem_decidedOrders hup₀ hb₀)).1) hnew
  · rintro ⟨rfl, rfl⟩
    refine .waits ?_
    rw [updates_store h, since_concat]
    exact Or.inl hb

/-- (step) A decision about an order that waits. -/
theorem stands_of_decision {dec : ExchangeDecision} (hmem : req ∈ j.orders)
    (hopen : ∀ d : ExchangeDecisionType, ¬j.Stands req d.outcome)
    (h : j.store o up = some j') (hb : up.body = .exchangeDecision dec) (hid : dec.id = req.id) :
    j'.Stands req st ↔ st = dec.decision.outcome := by
  have horders : j'.orders = j.orders := by
    rw [orders_store h, StateUpdate.order?, hb]
    exact List.append_nil _
  constructor
  · intro hstands
    cases hstands with
    | waits hsince =>
      rw [updates_store h, since_concat] at hsince
      rcases hsince with hb' | ⟨-, -, hnone⟩
      · rw [hb] at hb'
        cases hb'
      · exact absurd ⟨dec, hb, hid, rfl⟩ (hnone dec.decision)
    | decided d _ hsince =>
      rw [updates_store h, since_concat] at hsince
      rcases hsince with ⟨dec', hb', -, rfl⟩ | ⟨hold, -⟩
      · rw [hb] at hb'
        rw [UpdateBody.exchangeDecision.inj hb']
      · exact absurd (.decided d hmem hold) (hopen d)
  · rintro rfl
    refine .decided dec.decision (horders ▸ hmem) ?_
    rw [updates_store h, since_concat]
    exact Or.inl ⟨dec, hb, hid, rfl⟩

/-- (step) An update about something else. -/
theorem stands_of_other (h : j.store o up = some j') (hkeep : up.Keeps req) (hreq : up.body ≠ .exchangeRequest req)
    (hdec : ∀ d, ¬up.Decides req d) : j'.Stands req st ↔ j.Stands req st := by
  constructor
  · intro hstands
    have hmem := hstands.mem_orders
    rw [mem_orders_iff, updates_store h] at hmem
    obtain ⟨up₀, hup₀, hb₀⟩ := hmem
    have hold : req ∈ j.orders := by
      rcases List.mem_append.mp hup₀ with hup₀ | hup₀
      · exact mem_orders_iff.mpr ⟨up₀, hup₀, hb₀⟩
      · exact absurd (List.mem_singleton.mp hup₀ ▸ hb₀) hreq
    cases hstands with
    | waits hsince =>
      rw [updates_store h, since_concat] at hsince
      rcases hsince with hb | ⟨hsince, -⟩
      · exact absurd hb hreq
      · exact .waits hsince
    | decided d _ hsince =>
      rw [updates_store h, since_concat] at hsince
      rcases hsince with hd | ⟨hsince, -⟩
      · exact absurd hd (hdec d)
      · exact .decided d hold hsince
  · intro hstands
    cases hstands with
    | waits hsince =>
      refine .waits ?_
      rw [updates_store h, since_concat]
      exact Or.inr ⟨hsince, hkeep, hdec⟩
    | decided d hmem hsince =>
      refine .decided d ?_ ?_
      · rw [orders_store h]
        exact List.mem_append_left _ hmem
      · rw [updates_store h, since_concat]
        exact Or.inr ⟨hsince, hkeep⟩

/-! ## Every run of the worker -/

/-- (step) A decision is about the one order with its identifier, and is the first about it. -/
theorem OrdersStand.store_decision {dec : ExchangeDecision} (hst : j.OrdersStand) (hv : j.VotesOnce) (hw : j.state.OrdersWait)
    (hf' : j'.OrdersFiled) (h : j.store o up = some j') (hb : up.body = .exchangeDecision dec) (hid : dec.id = req.id) :
    j'.state.HasOrder req st ↔ j'.Stands req st := by
  obtain ⟨ex, ex', completes, hex, hd, hafter⟩ := applyUpdate_exchanged (store_answer h) hb
  obtain ⟨⟨m, n, hprog⟩, -, -⟩ := ExchangeOrder.applyDecision_eq_ok hd
  have hwaits := hv.orders hex hprog
  have hsame := ExchangeOrder.applyDecision_intoExchangeUpd hd
  have hout := ExchangeOrder.applyDecision_outcome hwaits hd
  obtain ⟨hi, hu, hc⟩ := hw.place hex
  have hplace : j.state.order? ex.user ex.currencyFrom ex.id = some ex := by
    rw [hu, hc, hi]
    exact hex
  have hmem : ex.intoExchangeUpd ∈ j.orders := ((hst _ _).mp ⟨ex, hplace, rfl, rfl⟩).mem_orders
  have honly : ∀ ex₂, j'.state.order? req.user req.currencyFrom req.id = some ex₂ → ex₂ = ex' := by
    intro ex₂ hex₂
    rw [hid] at hafter
    exact hf'.unique hex₂ hafter
  by_cases hthis : ex.intoExchangeUpd = req
  · subst hthis
    have hopen : ∀ d : ExchangeDecisionType, ¬j.Stands ex.intoExchangeUpd d.outcome := by
      intro d hstands
      obtain ⟨ex₀, hex₀, -, hst₀⟩ := (hst _ _).mpr hstands
      obtain rfl := Option.some.inj (hplace.symm.trans hex₀)
      exact d.outcome_ne_inProgress 0 0 (hst₀.symm.trans hwaits)
    rw [stands_of_decision hmem hopen h hb hid]
    constructor
    · rintro ⟨ex₂, hex₂, -, rfl⟩
      rw [honly ex₂ hex₂, hout]
    · rintro rfl
      refine ⟨ex', ?_, hsame, hout⟩
      rw [← hu, ← hc, ← hi] at hafter
      exact hafter
  · -- another order with the identifier of this one is neither there nor in the history
    refine iff_of_false ?_ fun hstands => hthis ?_
    · rintro ⟨ex₂, hex₂, hreq, -⟩
      rw [honly ex₂ hex₂, hsame] at hreq
      exact hthis hreq
    · have hmem' : ex.intoExchangeUpd ∈ j'.orders := by
        rw [orders_store h]
        exact List.mem_append_left _ hmem
      exact List.inj_on_of_nodup_map hf'.nodup hmem' hstands.mem_orders (hi.trans hid)

/-- (step) -/
theorem OrdersStand.store (hst : j.OrdersStand) (hv : j.VotesOnce) (hw : j.state.OrdersWait) (hf' : j'.OrdersFiled)
    (hp : j.Fresh (o, up)) (h : j.store o up = some j') : j'.OrdersStand := by
  have ha := store_answer h
  intro req st
  by_cases hcloses : up.body.closes? = some (req.user, req.currencyFrom)
  · refine iff_of_false ?_ (not_stands_of_closes h hcloses)
    rintro ⟨ex, hex, -, -⟩
    rw [State.order?_of_closes ha hcloses] at hex
    cases hex
  by_cases hreq : ∃ req₁, up.body = .exchangeRequest req₁ ∧ req₁.id = req.id
  · obtain ⟨req₁, hb, hid⟩ := hreq
    rw [stands_of_request hv hp h hb hid]
    have hnow := State.order?_of_request ha hb
    constructor
    · rintro ⟨ex, hex, hsame, rfl⟩
      rw [hid] at hnow
      obtain rfl := hf'.unique hex hnow
      exact ⟨hsame, rfl⟩
    · rintro ⟨rfl, rfl⟩
      exact ⟨.ofUpd req₁, hnow, rfl, rfl⟩
  by_cases hdec : ∃ dec, up.body = .exchangeDecision dec ∧ dec.id = req.id
  · obtain ⟨dec, hb, hid⟩ := hdec
    exact hst.store_decision hv hw hf' h hb hid
  have hother : j'.state.order? req.user req.currencyFrom req.id = j.state.order? req.user req.currencyFrom req.id :=
    State.order?_same ha hp.1 hcloses (fun req₁ hb hat => hreq ⟨req₁, hb, hat.2.2⟩) (fun dec hb hat => hdec ⟨dec, hb, hat.2.2⟩)
  have hnone : ∀ d, ¬up.Decides req d := by
    rintro d ⟨dec, hb, hid, -⟩
    exact hdec ⟨dec, hb, hid⟩
  rw [stands_of_other h hcloses (fun hb => hreq ⟨req, hb, rfl⟩) hnone, ← hst, State.HasOrder, State.HasOrder, hother]

/-- (run) In every run with fresh identifiers, the State has the orders of the history, as they stand in it. -/
theorem ordersStand_of_reachable (h : machine.Reachable Fresh j) : j.OrdersStand := by
  refine h.invariant (I := OrdersStand) ?_ ?_
  · rintro _ ⟨now, genesisHash, rfl⟩ req st
    refine iff_of_false ?_ fun hstands => List.not_mem_nil hstands.mem_orders
    rintro ⟨ex, hex, -, -⟩
    cases hex
  · intro j a j' hj hst hp hs
    have hf := (ordersFiled_of_reachable (fun _ _ hp => hp) hj).1
    have hr : j.state.Reached State.anyUpdate := ⟨_, madeBy_updates (fun _ _ hp => ⟨trivial, hp.1⟩) hj⟩
    exact hst.store (votesOnce_of_reachable hj) hr.ordersWait (hf.store hp hs) hp hs

end Journal

/-! ## What the lists select -/

/-- The filter is for orders with this status. -/
def ExchangeFilter.Admits : ExchangeFilter → ExchangeStatus → Prop
  | .all, _ => True
  | .pending, st => ∃ m n, st = .inProgress m n
  | .completed, st => st = .completed
  | .rejected, st => st = .rejected

/-- How an order is shown that was requested so and has this status. -/
def ExchangeOrderUpd.shownWith (req : ExchangeOrderUpd) (st : ExchangeStatus) : ExchangeOrderApi :=
  { ExchangeOrder.ofUpd req with status := st }.toApi

theorem ExchangeOrder.selected?_eq_some_iff {eo : ExchangeOrder} {filter : ExchangeFilter} {shown : ExchangeOrderApi} :
    eo.selected? filter = some shown ↔ filter.Admits eo.status ∧ shown = eo.intoExchangeUpd.shownWith eo.status := by
  change _ ↔ _ ∧ shown = eo.toApi
  unfold selected? isFinalized isRejected isPending
  cases hst : eo.status with
  | completed => cases filter <;> simp [ExchangeFilter.Admits, eq_comm]
  | rejected => cases filter <;> simp [ExchangeFilter.Admits, eq_comm]
  | inProgress m n => cases filter <;> simp [ExchangeFilter.Admits, eq_comm]

variable {o : Oracle} {filter : ExchangeFilter} {shown : ExchangeOrderApi}

theorem UserInfo.mem_getExchangeRequests {ui : UserInfo} : shown ∈ ui.getExchangeRequests o filter ↔
    ∃ c i eo, (ui.currencies.get? c).bind (·.exchangeRequests.get? i) = some eo ∧ eo.selected? filter = some shown := by
  simp only [getExchangeRequests, List.mem_flatMap, List.mem_filterMap, Prod.exists, AssocMap.mem_iter_iff,
    Option.bind_eq_some_iff]
  constructor
  · rintro ⟨c, info, hc, i, eo, hi, hsel⟩
    exact ⟨c, i, eo, ⟨info, hc, hi⟩, hsel⟩
  · rintro ⟨c, i, eo, ⟨info, hc, hi⟩, hsel⟩
    exact ⟨c, info, hc, i, eo, hi, hsel⟩

namespace State

variable {s : State}

theorem mem_getExchangeRequests : shown ∈ s.getExchangeRequests o filter ↔
    ∃ u c i eo, s.order? u c i = some eo ∧ eo.selected? filter = some shown := by
  simp only [getExchangeRequests, List.mem_flatMap, Prod.exists, AssocMap.mem_iter_iff, UserInfo.mem_getExchangeRequests, order?,
    currency?, Option.bind_eq_some_iff]
  constructor
  · rintro ⟨u, ui, hu, c, i, eo, ⟨info, hc, hi⟩, hsel⟩
    exact ⟨u, c, i, eo, ⟨info, ⟨ui, hu, hc⟩, hi⟩, hsel⟩
  · rintro ⟨u, c, i, eo, ⟨info, ⟨ui, hu, hc⟩, hi⟩, hsel⟩
    exact ⟨u, ui, hu, c, i, eo, ⟨info, hc, hi⟩, hsel⟩

end State

namespace Journal

variable {j : Journal} {u : UserId} {ui : UserInfo}

/-- An identifier that one account shows is of an order that is there. -/
theorem shown_of_account (hw : j.state.OrdersWait) {c : Currency} {info : UserCurrencyInfo} (hc : j.state.currency? u c = some info)
    {id : Uuid} (hid : id ∈ ((info.exchangeRequests.iter o.requests).filterMap fun eo => eo.2.selected? filter).map (·.id)) :
    ∃ eo, j.state.order? u c id = some eo := by
  obtain ⟨shown, hshown, rfl⟩ := List.mem_map.mp hid
  obtain ⟨⟨i, eo⟩, hi, hsel⟩ := List.mem_filterMap.mp hshown
  have heo : j.state.order? u c i = some eo := by
    rw [State.order?, hc]
    exact AssocMap.mem_iter_iff.mp hi
  obtain ⟨-, rfl⟩ := ExchangeOrder.selected?_eq_some_iff.mp hsel
  refine ⟨eo, ?_⟩
  change j.state.order? u c eo.id = some eo
  rw [(hw.place heo).1]
  exact heo

/-- An account shows each order once. -/
theorem account_ids_nodup (hw : j.state.OrdersWait) {c : Currency} {info : UserCurrencyInfo}
    (hc : j.state.currency? u c = some info) :
    (((info.exchangeRequests.iter o.requests).filterMap fun eo => eo.2.selected? filter).map (·.id)).Nodup := by
  refine nodup_filterMap_of_keys (AssocMap.iter_keys_nodup _ _) ?_
  rintro ⟨i, eo⟩ he shown hshown
  obtain ⟨-, rfl⟩ := ExchangeOrder.selected?_eq_some_iff.mp hshown
  have heo : j.state.order? u c i = some eo := by
    rw [State.order?, hc]
    exact AssocMap.mem_iter_iff.mp he
  exact (hw.place heo).1

/-- A user is shown each of his orders once. -/
theorem user_ids_nodup (hw : j.state.OrdersWait) (hf : j.OrdersFiled) (hu : j.state.users.get? u = some ui) :
    ((ui.getExchangeRequests o filter).map (·.id)).Nodup := by
  rw [UserInfo.getExchangeRequests, List.map_flatMap]
  refine nodup_flatMap_of_keys (AssocMap.iter_keys_nodup _ _) ?_ ?_
  · rintro ⟨c, info⟩ he
    exact account_ids_nodup hw ((State.currency?_of_get? hu c).trans (AssocMap.mem_iter_iff.mp he))
  · rintro ⟨c, info⟩ he ⟨c', info'⟩ he' id hid hid'
    obtain ⟨eo, heo⟩ := shown_of_account hw ((State.currency?_of_get? hu c).trans (AssocMap.mem_iter_iff.mp he)) hid
    obtain ⟨eo', heo'⟩ := shown_of_account hw ((State.currency?_of_get? hu c').trans (AssocMap.mem_iter_iff.mp he')) hid'
    obtain rfl := hf.unique heo heo'
    exact (hw.place heo).2.2.symm.trans (hw.place heo').2.2

/-- The operators are shown each order once. -/
theorem ids_nodup (hw : j.state.OrdersWait) (hf : j.OrdersFiled) : ((j.state.getExchangeRequests o filter).map (·.id)).Nodup := by
  have hthere : ∀ e ∈ j.state.users.iter o.users, ∀ id ∈ (e.2.getExchangeRequests o filter).map (·.id),
      ∃ c eo, j.state.order? e.1 c id = some eo := by
    rintro ⟨u, ui⟩ he id hid
    rw [UserInfo.getExchangeRequests, List.map_flatMap] at hid
    obtain ⟨⟨c, info⟩, hc, hid⟩ := List.mem_flatMap.mp hid
    have hu := AssocMap.mem_iter_iff.mp he
    exact ⟨c, shown_of_account hw ((State.currency?_of_get? hu c).trans (AssocMap.mem_iter_iff.mp hc)) hid⟩
  rw [State.getExchangeRequests, List.map_flatMap]
  refine nodup_flatMap_of_keys (AssocMap.iter_keys_nodup _ _) ?_ ?_
  · rintro ⟨u, ui⟩ he
    exact user_ids_nodup hw hf (AssocMap.mem_iter_iff.mp he)
  · intro e he e' he' id hid hid'
    obtain ⟨c, eo, heo⟩ := hthere e he id hid
    obtain ⟨c', eo', heo'⟩ := hthere e' he' id hid'
    obtain rfl := hf.unique heo heo'
    exact (hw.place heo).2.1.symm.trans (hw.place heo').2.1

/-- The order is shown under a filter: as it was requested, and with the status that it has in the history. -/
def Shows (j : Journal) (filter : ExchangeFilter) (shown : ExchangeOrderApi) : Prop :=
  ∃ req st, j.Stands req st ∧ filter.Admits st ∧ shown = req.shownWith st

/-- In every run with fresh identifiers, whatever the order of the maps: each list shows exactly the orders that stand in the history
as its filter says, with what was requested and with that status, and each once; to the operators those of all users, and to a user
those that are his. -/
theorem orders_listed (h : machine.Reachable Fresh j) (o : Oracle) (filter : ExchangeFilter) :
    (∀ Γ E sd shown, Handlers.getExchangeRequests Γ E j.state sd filter o = .ok shown →
        (∀ order, order ∈ shown ↔ j.Shows filter order) ∧ (shown.map (·.id)).Nodup) ∧
      ∀ u own, Handlers.listMyOrders j.state u filter o = some own →
        (∀ order, order ∈ own ↔ j.Shows filter order ∧ order.user = u) ∧ (own.map (·.id)).Nodup := by
  have hst := ordersStand_of_reachable h
  have hf := (ordersFiled_of_reachable (fun _ _ hp => hp) h).1
  have hr : j.state.Reached State.anyUpdate := ⟨_, madeBy_updates (fun _ _ hp => ⟨trivial, hp.1⟩) h⟩
  have hw := hr.ordersWait
  have hshows : ∀ {u c i eo order}, j.state.order? u c i = some eo → eo.selected? filter = some order →
      j.Shows filter order ∧ order.user = u := by
    intro u c i eo order heo hsel
    obtain ⟨hadmits, rfl⟩ := ExchangeOrder.selected?_eq_some_iff.mp hsel
    obtain ⟨rfl, rfl, rfl⟩ := hw.place heo
    exact ⟨⟨_, _, (hst _ _).mp ⟨eo, heo, rfl, rfl⟩, hadmits, rfl⟩, rfl⟩
  have hshown : ∀ {order}, j.Shows filter order → ∃ c i eo, j.state.order? order.user c i = some eo ∧
      eo.selected? filter = some order := by
    rintro order ⟨req, st, hstands, hadmits, rfl⟩
    obtain ⟨eo, heo, rfl, rfl⟩ := (hst _ _).mpr hstands
    exact ⟨_, _, eo, heo, ExchangeOrder.selected?_eq_some_iff.mpr ⟨hadmits, rfl⟩⟩
  constructor
  · intro Γ E sd shown hlist
    unfold Handlers.getExchangeRequests at hlist
    split at hlist
    · cases hlist
    · obtain rfl := Except.ok.inj hlist
      refine ⟨fun order => ?_, ids_nodup hw hf⟩
      rw [State.mem_getExchangeRequests]
      constructor
      · rintro ⟨u, c, i, eo, heo, hsel⟩
        exact (hshows heo hsel).1
      · intro hs
        obtain ⟨c, i, eo, heo, hsel⟩ := hshown hs
        exact ⟨order.user, c, i, eo, heo, hsel⟩
  · intro u own hlist
    obtain ⟨ui, hu, rfl⟩ := Option.map_eq_some_iff.mp hlist
    refine ⟨fun order => ?_, user_ids_nodup hw hf hu⟩
    have horder : ∀ c i, j.state.order? u c i = (ui.currencies.get? c).bind (·.exchangeRequests.get? i) := by
      intro c i
      rw [State.order?, State.currency?_of_get? hu]
    rw [UserInfo.mem_getExchangeRequests]
    constructor
    · rintro ⟨c, i, eo, heo, hsel⟩
      exact hshows ((horder c i).trans heo) hsel
    · rintro ⟨hs, rfl⟩
      obtain ⟨c, i, eo, heo, hsel⟩ := hshown hs
      exact ⟨c, i, eo, (horder c i).symm.trans heo, hsel⟩

open Sample in
/-- Of the two orders of Alice, the first is confirmed: that one is shown to her as completed, and stands so in the history. -/
theorem orders_listed_alice : ∃ j : Journal, machine.Reachable Fresh j ∧
    (Handlers.listMyOrders j.state alice .pending oracle).map (·.map (·.id)) = some [uuid 9] ∧
      ∃ req, req.id = uuid 8 ∧ j.Stands req .completed := by
  obtain ⟨j, hj, hq⟩ := Machine.exists_reachable (P := Fresh)
    (funded ++ [upd 5 (.updateTokens { user := alice, token := otherToken, action := .enable }),
      upd 6 (.exchangeRequest (orderFor otherToken)), upd 6 (.exchangeRequest { orderFor otherToken with id := uuid 9 }),
      (oracle, confirmOrder otherToken)])
    (q := fun j => decide ((Handlers.listMyOrders j.state alice .pending oracle).map (·.map (·.id)) = some [uuid 9] ∧
      (Handlers.listMyOrders j.state alice .completed oracle).map (·.map (·.id)) = some [uuid 8])) start_init (by decide +kernel)
  obtain ⟨hpending, hcompleted⟩ := of_decide_eq_true hq
  refine ⟨j, hj, hpending, ?_⟩
  obtain ⟨own, hown, hids⟩ := Option.map_eq_some_iff.mp hcompleted
  obtain ⟨order, horder, hid⟩ := List.mem_map.mp (hids ▸ List.mem_singleton_self (uuid 8))
  obtain ⟨⟨req, st, hstands, hst, rfl⟩, -⟩ := (((orders_listed hj oracle .completed).2 alice own hown).1 order).mp horder
  obtain rfl : st = .completed := hst
  exact ⟨req, hid, hstands⟩

end Journal

end Hexstody
