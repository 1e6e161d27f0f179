import Hexstody.History
import Hexstody.Theorems.FailedUpdates

/-!
# Orders that wait for a decision

Whether every exchange order that was accepted can be decided. An order is accepted when its user has an account in the currency
that is paid in, and enough there; the account that it is paid out to need not be there, and may be closed while the order waits.
Such an order can be rejected but its confirmation always fails. `pending_order_decided_iff` says that this is the only obstacle,
in every State that is reached; and that there is none in a run where each order names a currency of its user for what is paid out
and no token is disabled that an order waits for (`State.KeepsTargets`).
-/

namespace Hexstody

/-- The order waits for a decision. -/
def ExchangeOrder.IsInProgress (ex : ExchangeOrder) : Prop := ∃ m n, ex.status = .inProgress m n

/-- The decision is about the order, and repeats it. -/
structure ExchangeDecision.Restates (req : ExchangeDecision) (ex : ExchangeOrder) : Prop where
  user : req.user = ex.user
  id : req.id = ex.id
  currencyFrom : req.currencyFrom = ex.currencyFrom
  currencyTo : req.currencyTo = ex.currencyTo
  amountFrom : req.amountFrom = ex.amountFrom
  amountTo : req.amountTo = ex.amountTo

namespace State

/-- A decision of a kind that repeats the order is accepted from a key, at any time. -/
def Accepts (s : State) (ex : ExchangeOrder) (key : PublicKey) (d : ExchangeDecisionType) : Prop :=
  ∀ o created req, req.Restates ex → req.publicKey = key → req.decision = d →
    ∃ s', s.applyUpdate o { created := created, body := .exchangeDecision req } = (s', .ok none)

/-- A new order is paid out in a currency that its user has an account in; and a token that is disabled is not what an order of
that user, paid in another currency, waits for. -/
def KeepsTargets (s : State) : UpdateBody → Prop
  | .exchangeRequest req => s.currency? req.user req.currencyTo ≠ none
  | .updateTokens req => req.action = .disable → ∀ c i ex, s.order? req.user c i = some ex → ex.IsInProgress →
      c ≠ .erc20 req.token → ex.currencyTo ≠ .erc20 req.token
  | _ => True

/-- Each order is in its own place; and while it waits, nobody has voted on it. -/
structure OrdersWait (s : State) : Prop where
  place : ∀ {u c i ex}, s.order? u c i = some ex → ex.id = i ∧ ex.user = u ∧ ex.currencyFrom = c
  unvoted : ∀ {u c i ex}, s.order? u c i = some ex → ex.IsInProgress →
    ex.status = .inProgress 0 0 ∧ ex.confirmations = [] ∧ ex.rejections = []

/-- Each order that waits can be paid out. -/
def OrdersPayable (s : State) : Prop :=
  ∀ u c i ex, s.order? u c i = some ex → ex.IsInProgress → s.currency? u ex.currencyTo ≠ none

variable {s s' : State} {o : Oracle} {up : StateUpdate} {res : Option UpdateResult}

/-! ## One vote decides -/

/-- The first vote on an order decides it. -/
theorem applyDecision_decides {ex ex' : ExchangeOrder} {req : ExchangeDecision} {completes : Bool}
    (hst : ex.status = .inProgress 0 0) (h : ex.applyDecision EXCHANGE_NUMBER_OF_CONFIRMATIONS req = .ok (ex', completes)) :
    ¬ex'.IsInProgress := by
  have hone : (0 : Int16) + 1 - 0 ≥ EXCHANGE_NUMBER_OF_CONFIRMATIONS := by decide
  rintro ⟨m, n, hst'⟩
  unfold ExchangeOrder.applyDecision at h
  simp only [hst, hone, if_true] at h
  cases hd : req.decision with
  | confirm =>
    simp only [hd] at h
    split at h
    · cases h
    · obtain ⟨rfl, -⟩ := Prod.mk.inj (Except.ok.inj h)
      cases hst'
  | reject =>
    simp only [hd] at h
    split at h
    · cases h
    · obtain ⟨rfl, -⟩ := Prod.mk.inj (Except.ok.inj h)
      cases hst'

/-- (step) -/
theorem OrdersWait.applyUpdate (hw : s.OrdersWait) (hs : ¬up.body.IsSnapshot) (h : s.applyUpdate o up = (s', .ok res)) :
    s'.OrdersWait := by
  constructor
  · intro u c i ex hex
    have hch := applyUpdate_order h hs u c i
    rw [hex] at hch
    generalize ha : s.order? u c i = a at hch
    cases hch with
    | same => exact hw.place ha
    | created a req hb hi hu hc => exact ⟨hi, hu, hc⟩
    | decided ex₀ _ req completes hb hu hc hi hd =>
      have hsame := ExchangeOrder.applyDecision_intoExchangeUpd hd
      obtain ⟨hi₀, hu₀, hc₀⟩ := hw.place ha
      exact ⟨(congrArg ExchangeOrderUpd.id hsame).trans hi₀, (congrArg ExchangeOrderUpd.user hsame).trans hu₀,
        (congrArg ExchangeOrderUpd.currencyFrom hsame).trans hc₀⟩
  · intro u c i ex hex hwaits
    have hch := applyUpdate_order h hs u c i
    rw [hex] at hch
    generalize ha : s.order? u c i = a at hch
    cases hch with
    | same => exact hw.unvoted ha hwaits
    | created a req hb hi hu hc => exact ⟨rfl, rfl, rfl⟩
    | decided ex₀ _ req completes hb hu hc hi hd =>
      obtain ⟨hopen, -, -⟩ := ExchangeOrder.applyDecision_eq_ok hd
      exact absurd hwaits (applyDecision_decides (hw.unvoted ha hopen).1 hd)

/-- (run) -/
theorem Reached.ordersWait {P : State → UpdateBody → Prop} (h : s.Reached P) : s.OrdersWait := by
  refine h.invariant (I := OrdersWait) ?_ ?_ ?_
  · intro now genesisHash
    exact ⟨(fun hex => by cases hex), (fun hex => by cases hex)⟩
  · exact fun s created hw => ⟨hw.place, hw.unvoted⟩
  · exact fun _ hw _ hs happly => hw.applyUpdate hs happly

/-! ## The account that an order is paid out to -/

/-- An account stays, unless the update disables its token. -/
theorem account_stays {u : UserId} {c : Currency} (h : s.applyUpdate o up = (s', .ok res)) (hs : ¬up.body.IsSnapshot)
    (hacc : s.currency? u c ≠ none) :
    s'.currency? u c ≠ none ∨
      ∃ token, up.body = .updateTokens { user := u, token := token, action := .disable } ∧ c = .erc20 token := by
  have hch := applyUpdate_account h hs u c
  generalize s'.currency? u c = after at hch
  generalize s.currency? u c = before at hch hacc
  cases hch with
  | same => exact Or.inl hacc
  | closed j token hb hc hbal => exact Or.inr ⟨token, hb, hc⟩
  | _ => exact Or.inl (Option.some_ne_none _)

/-- (step) -/
theorem OrdersPayable.applyUpdate (hp : s.OrdersPayable) (hw : s.OrdersWait) (hkeep : s.KeepsTargets up.body)
    (hs : ¬up.body.IsSnapshot) (h : s.applyUpdate o up = (s', .ok res)) : s'.OrdersPayable := by
  intro u c i ex hex hwaits
  have hch := applyUpdate_order h hs u c i
  rw [hex] at hch
  generalize ha : s.order? u c i = a at hch
  cases hch with
  | same =>
    rcases account_stays h hs (hp u c i ex ha hwaits) with hstays | ⟨token, hb, hto⟩
    · exact hstays
    · -- the order's own account is not the one that is closed, as the order is still there
      rw [hb] at hkeep
      refine absurd hto (hkeep rfl c i ex ha hwaits ?_)
      rintro rfl
      unfold State.applyUpdate at h
      rw [hb] at h
      obtain ⟨s₁, a, hout, rfl, -⟩ := stamped_eq_ok h
      obtain ⟨-, -, -, rfl⟩ := updateTokens_disable_eq_ok hout
      obtain ⟨j, hj, -⟩ := Option.bind_eq_some_iff.mp hex
      change currency? (modifyUser s u _) u (.erc20 token) = some j at hj
      rw [currency?_disable, if_pos ⟨rfl, rfl⟩] at hj
      cases hj
  | created a req hb hi hu hc =>
    rw [hb] at hkeep
    subst hu
    rcases account_stays h hs hkeep with hstays | ⟨token, hb', -⟩
    · exact hstays
    · rw [hb] at hb'
      cases hb'
  | decided ex₀ _ req completes hb hu hc hi hd =>
    obtain ⟨hopen, -, -⟩ := ExchangeOrder.applyDecision_eq_ok hd
    exact absurd hwaits (applyDecision_decides (hw.unvoted ha hopen).1 hd)

/-- (run) -/
theorem Reached.ordersPayable (h : s.Reached KeepsTargets) : s.OrdersPayable := by
  refine h.invariant (I := OrdersPayable) ?_ ?_ ?_
  · intro now genesisHash u c i ex hex
    cases hex
  · exact fun s created hp => hp
  · exact fun hr hp hkeep hs happly => hp.applyUpdate hr.ordersWait hkeep hs happly

/-! ## What is accepted -/

/-- An update that is a decision on an order is accepted just when the decision is. -/
theorem exists_applyUpdate_exchange_iff {created : NaiveDateTime} {req : ExchangeDecision} :
    (∃ s', s.applyUpdate o { created := created, body := .exchangeDecision req } = (s', .ok none)) ↔ s.takes req = true := by
  rw [← exists_withExchangeDecision_iff]
  constructor
  · rintro ⟨s', h⟩
    obtain ⟨s₁, a, hout, -, -⟩ := stamped_eq_ok h
    exact ⟨s₁, hout⟩
  · rintro ⟨s₁, hout⟩
    refine ⟨{ s₁ with lastChanged := created }, ?_⟩
    change stamped created (s.withExchangeDecision req) noResult = _
    rw [hout]
    rfl

/-- Of an order that waits, a decision that repeats it is taken if it is a rejection, or if there is an account to pay out to. -/
theorem takes_iff (hw : s.OrdersWait) {u : UserId} {c : Currency} {i : ExchangeOrderId} {ex : ExchangeOrder}
    (hex : s.order? u c i = some ex) (hwaits : ex.IsInProgress) {req : ExchangeDecision} (hreq : req.Restates ex) :
    s.takes req = true ↔ (req.decision = .confirm → s.currency? u ex.currencyTo ≠ none) := by
  obtain ⟨hi, hu, hc⟩ := hw.place hex
  obtain ⟨hst, hconf, hrej⟩ := hw.unvoted hex hwaits
  have hone : (0 : Int16) + 1 - 0 ≥ EXCHANGE_NUMBER_OF_CONFIRMATIONS := by decide
  have hexreq : s.order? req.user req.currencyFrom req.id = some ex := by
    rw [hreq.user, hreq.currencyFrom, hreq.id, hi, hu, hc]
    exact hex
  unfold takes
  rw [hexreq, hreq.user, hreq.currencyTo, hu]
  unfold ExchangeOrder.applyDecision
  simp only [hst, hone, if_true, ExchangeOrder.hasConfirmed, ExchangeOrder.hasRejected, hconf, hrej]
  cases hd : req.decision with
  | confirm => simp [hasSigned, Option.isSome_iff_ne_none]
  | reject => simp [hasSigned]

/-- A decision of a kind that repeats an order. -/
def decisionOn (ex : ExchangeOrder) (key : PublicKey) (d : ExchangeDecisionType) : ExchangeDecision where
  user := ex.user
  id := ex.id
  currencyFrom := ex.currencyFrom
  currencyTo := ex.currencyTo
  amountFrom := ex.amountFrom
  amountTo := ex.amountTo
  url := ""
  signature := ⟨[]⟩
  nonce := 0
  publicKey := key
  decision := d

theorem accepts_iff (hw : s.OrdersWait) {u : UserId} {c : Currency} {i : ExchangeOrderId} {ex : ExchangeOrder}
    (hex : s.order? u c i = some ex) (hwaits : ex.IsInProgress) (key : PublicKey) (d : ExchangeDecisionType) :
    s.Accepts ex key d ↔ (d = .confirm → s.currency? u ex.currencyTo ≠ none) := by
  constructor
  · intro h
    have hreq : (decisionOn ex key d).Restates ex := ⟨rfl, rfl, rfl, rfl, rfl, rfl⟩
    exact (takes_iff hw hex hwaits hreq).mp (exists_applyUpdate_exchange_iff.mp (h Sample.oracle ⟨0⟩ _ hreq rfl rfl))
  · rintro h o created req hreq - rfl
    exact exists_applyUpdate_exchange_iff.mpr ((takes_iff hw hex hwaits hreq).mpr h)

/-- In a State that is reached, an order that waits can be both confirmed and rejected by any key, as none has voted on it yet, just
when its user has an account in the currency that is paid out; and it can be in every State that is reached by orders for currencies
that the user has, where no token is disabled that an order waits for. -/
theorem pending_order_decided_iff (s : State) (h : s.Reached anyUpdate) (u : UserId) (c : Currency) (i : ExchangeOrderId)
    (ex : ExchangeOrder) (hex : s.order? u c i = some ex) (hwaits : ex.IsInProgress) (key : PublicKey) :
    (s.Accepts ex key .confirm ∧ s.Accepts ex key .reject ↔ s.currency? u ex.currencyTo ≠ none) ∧
      (s.Reached KeepsTargets → s.Accepts ex key .confirm ∧ s.Accepts ex key .reject) := by
  have hiff : s.Accepts ex key .confirm ∧ s.Accepts ex key .reject ↔ s.currency? u ex.currencyTo ≠ none := by
    rw [accepts_iff h.ordersWait hex hwaits, accepts_iff h.ordersWait hex hwaits]
    exact ⟨fun hboth => hboth.1 rfl, fun hacc => ⟨fun _ => hacc, fun hd => by cases hd⟩⟩
  exact ⟨hiff, fun hkeep => hiff.mpr (hkeep.ordersPayable u c i ex hex hwaits)⟩

end State

namespace Sample

/-- Orders are for currencies that the user has, tokens are enabled only, and there is no snapshot. -/
def keepsTargets (j : Journal) (a : Oracle × StateUpdate) : Bool :=
  match a.2.body with
  | .exchangeRequest req => (j.state.currency? req.user req.currencyTo).isSome
  | .updateTokens req => decide (req.action = .enable)
  | .snapshot _ => false
  | _ => true

theorem keepsTargets_step {j : Journal} {a : Oracle × StateUpdate} (h : keepsTargets j a = true) :
    j.state.KeepsTargets a.2.body ∧ ¬a.2.body.IsSnapshot := by
  unfold keepsTargets at h
  cases hb : a.2.body with
  | exchangeRequest req =>
    rw [hb] at h
    exact ⟨Option.isSome_iff_ne_none.mp h, id⟩
  | updateTokens req =>
    rw [hb] at h
    refine ⟨fun hd => ?_, id⟩
    rw [of_decide_eq_true h] at hd
    cases hd
  | snapshot s₀ =>
    rw [hb] at h
    cases h
  | _ => exact ⟨trivial, id⟩

end Sample

namespace State

open Sample in
/-- Alice enables a token and orders it; the order can be decided either way. -/
theorem pending_order_decided : ∃ (s : State) (ex : ExchangeOrder), s.order? alice .btc (uuid 8) = some ex ∧
    ex.currencyTo = .erc20 otherToken ∧ s.Accepts ex (key 1) .confirm ∧ s.Accepts ex (key 1) .reject := by
  obtain ⟨j, hj, hq⟩ := Machine.exists_reachable (P := fun (j : Journal) a => keepsTargets j a = true)
    (funded ++ [upd 5 (.updateTokens { user := alice, token := otherToken, action := .enable }),
      upd 6 (.exchangeRequest (orderFor otherToken))])
    (q := fun j => (j.state.order? alice .btc (uuid 8)).any (fun ex : ExchangeOrder =>
      decide (ex.currencyTo = .erc20 otherToken ∧ ex.status = .inProgress 0 0))) start_init (by decide)
  obtain ⟨ex, hex, hst⟩ := (Option.any_eq_true _ _).mp hq
  obtain ⟨hto, hst⟩ := of_decide_eq_true hst
  have hr : j.state.Reached KeepsTargets := ⟨_, Journal.madeBy_updates (fun _ _ => keepsTargets_step) hj⟩
  exact ⟨j.state, ex, hex, hto, (pending_order_decided_iff j.state hr.any alice .btc (uuid 8) ex hex ⟨0, 0, hst⟩ (key 1)).2 hr⟩

open Sample in
/-- Alice orders a token that she has not enabled. The order waits, its amount is taken from what she has, and it cannot be
confirmed. -/
theorem pending_order_stuck :
    (∃ s : State, s.Reached anyUpdate ∧ (s.currency? alice .btc).map (·.balance) = some 600 ∧
      (s.order? alice .btc (uuid 8)).map (·.status) = some (.inProgress 0 0) ∧
        (s.applyUpdate oracle (confirmOrder otherToken)).2 = .error (.userMissingCurrency alice (.erc20 otherToken))) ∧
    ¬∀ s : State, s.Reached anyUpdate → ∀ u c i ex, s.order? u c i = some ex → ex.IsInProgress → ∀ key,
      ex.hasConfirmed key = false ∧ ex.hasRejected key = false → s.Accepts ex key .confirm ∧ s.Accepts ex key .reject := by
  obtain ⟨j, hj, hq⟩ := Machine.exists_reachable (P := fun (_ : Journal) (a : Oracle × StateUpdate) => ¬a.2.body.IsSnapshot)
    (funded ++ [upd 5 (.exchangeRequest (orderFor otherToken))])
    (q := fun j => decide ((j.state.currency? alice .btc).map (·.balance) = some 600 ∧
      (j.state.order? alice .btc (uuid 8)).map (·.status) = some (.inProgress 0 0) ∧
      (j.state.applyUpdate oracle (confirmOrder otherToken)).2 = .error (.userMissingCurrency alice (.erc20 otherToken)) ∧
      (j.state.order? alice .btc (uuid 8)).map (·.currencyTo) = some (.erc20 otherToken) ∧
      j.state.currency? alice (.erc20 otherToken) = none)) start_init (by decide)
  obtain ⟨hbal, hst, herr, hto, hnone⟩ := of_decide_eq_true hq
  have hr : j.state.Reached anyUpdate := ⟨_, Journal.madeBy_updates (fun _ _ h => ⟨trivial, h⟩) hj⟩
  refine ⟨⟨j.state, hr, hbal, hst, herr⟩, fun h => ?_⟩
  obtain ⟨ex, hex, hst⟩ := Option.map_eq_some_iff.mp hst
  rw [hex, Option.map_some, Option.some.injEq] at hto
  have hwaits : ex.IsInProgress := ⟨0, 0, hst⟩
  obtain ⟨-, hconf, hrej⟩ := hr.ordersWait.unvoted hex hwaits
  have hboth := h j.state hr alice .btc (uuid 8) ex hex hwaits (key 1)
    (by simp [ExchangeOrder.hasConfirmed, ExchangeOrder.hasRejected, hasSigned, hconf, hrej])
  exact (accepts_iff hr.ordersWait hex hwaits (key 1) .confirm).mp hboth.1 rfl (by rw [hto, hnone])

end State

end Hexstody
