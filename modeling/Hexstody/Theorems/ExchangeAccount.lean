import Hexstody.Handlers
import Hexstody.Lemmas.Ledger
import Hexstody.Lemmas.World
import Hexstody.Queries

/-!
# The exchange account

Whether the running balances of the exchange account are those of its ledger, and whether an exchange conserves value. An order
that is paid out in a currency with no balance yet puts the amount there with the wrong sign; a deposit that is delivered again
with another amount, and a cancellation with another amount than was recorded, change the deposits and the balance by different
amounts. In every run with no such step the balances are those of the ledger (`exchange_balanced`). A decision that completes an
order is settled with the order that is stored and credited to the user as the decision says, and nothing compares the two: so an
exchange conserves value just when the decision repeats the order and the order can be settled exactly
(`exchange_conserves_iff`).
-/

namespace Hexstody

open Wrapping

/-! ## The running balance -/

/-- The update, if it changes the exchange account, changes its balances as it changes its ledger. -/
def State.keepsBooks (s : State) : UpdateBody → Bool
  | .updateBtcTx tx => !s.isExchangeAddress (btcAddress tx.address) || s.exchangeState.takesDeposit tx
  | .cancelBtcTx tx => !s.isExchangeAddress (btcAddress tx.address) || s.exchangeState.takesCancel tx
  | .exchangeDecision req => (s.completedOrder? req).all (fun order => decide (s.exchangeState.Settles order))
  | _ => true

namespace Journal

variable {j j' : Journal} {o : Oracle} {up : StateUpdate}

/-- (step) -/
theorem balanced_store (h : j.state.exchangeState.Balanced) (hk : j.OrdersKeyed) (hset : j.SettledOnce)
    (hsnap : ¬up.body.IsSnapshot) (hst : j.store o up = some j') (hb : j.state.keepsBooks up.body = true) :
    j'.state.exchangeState.Balanced := by
  have hch := applyUpdate_exchangeState (store_answer hst) hsnap
  generalize j'.state.exchangeState = e' at hch
  cases hch with
  | same => exact h
  | deposited tx hbody hx =>
    rw [hbody, State.keepsBooks, hx, Bool.not_true, Bool.false_or] at hb
    exact (ExchangeState.balanced_processIncomingBtcTx_iff h).mpr hb
  | canceled tx hbody hx =>
    rw [hbody, State.keepsBooks, hx, Bool.not_true, Bool.false_or] at hb
    exact (ExchangeState.balanced_cancelBtcTx_iff h).mpr hb
  | settled req order hbody hd =>
    rw [hbody, State.keepsBooks, hd, Option.all_some, decide_eq_true_eq] at hb
    exact (ExchangeState.balanced_processOrder_iff h (hset.not_settled hk hd).2).mpr hb
  | addressed req _ => exact h

/-- No currency has a balance in the empty State. -/
theorem balanced_new : ExchangeState.new.Balanced := by
  intro c
  have hzero : ∀ (l : List Currency) (m : AssocMap Currency Int64), (∀ v, m.get? c = some v → v = 0) →
      ∀ v, ((l.map (fun c => (c, (0 : Int64)))).foldl (fun m e => m.insert e.1 e.2) m).get? c = some v → v = 0 := by
    intro l
    induction l with
    | nil => exact fun m h => h
    | cons c' l ih =>
      intro m h
      refine ih _ (fun v hv => ?_)
      rw [AssocMap.get?_insert] at hv
      by_cases hc : c = c'
      · rw [if_pos hc] at hv
        exact (Option.some.inj hv).symm
      · rw [if_neg hc] at hv
        exact h v hv
  have hledger : ExchangeState.new.ledger c = 0 := rfl
  rw [hledger, ExchangeState.balance]
  cases hv : ExchangeState.new.balances.get? c with
  | none => rfl
  | some v =>
    rw [hzero Currency.supported AssocMap.empty (fun v hv => by cases hv) v hv]
    rfl

/-- (run) -/
theorem balanced_of_reachable {P : Journal → Oracle × StateUpdate → Prop}
    (hP : ∀ j a, P j a → j.Fresh a ∧ j.state.keepsBooks a.2.body = true) (h : machine.Reachable P j) :
    j.state.exchangeState.Balanced := by
  refine h.invariant (I := fun j => j.state.exchangeState.Balanced) ?_ ?_
  · rintro _ ⟨now, genesisHash, rfl⟩
    exact balanced_new
  · intro j a j' hj hbal hp hs
    obtain ⟨hfresh, hb⟩ := hP j a hp
    obtain ⟨hk, hset⟩ := ordersSettled_of_reachable (fun j a hp => (hP j a hp).1) hj
    exact balanced_store hbal hk hset hfresh.1 hs hb

end Journal

/-! ## An order that is settled -/

namespace State

variable {s s' : State} {o : Oracle} {req : ExchangeDecision}

/-- The amount that came into an account for an order; none counts as zero. -/
def incomingAmount (s : State) (u : UserId) (c : Currency) (i : ExchangeOrderId) : Int := ((s.incoming? u c i).getD 0).toNat

/-- The user gets what the order pays out, under its id, and nobody anything else; and the balances of the exchange account
change by what the order brings in and takes out. -/
structure Conserves (s s' : State) (order : ExchangeOrderUpd) : Prop where
  incoming : ∀ u c i, s'.incomingAmount u c i = s.incomingAmount u c i +
    if u = order.user ∧ c = order.currencyTo ∧ i = order.id then (order.amountTo.toNat : Int) else 0
  balance : ∀ c, s'.exchangeState.balance c = s.exchangeState.balance c + order.change c

/-- The decision repeats what the order is about. -/
def Repeats (req : ExchangeDecision) (ex : ExchangeOrder) : Prop :=
  req.currencyTo = ex.currencyTo ∧ req.amountFrom = ex.amountFrom ∧ req.amountTo = ex.amountTo

instance (req : ExchangeDecision) (ex : ExchangeOrder) : Decidable (Repeats req ex) := inferInstanceAs (Decidable (_ ∧ _ ∧ _))

/-- Applied at any time, the decision has no effect unless it repeats the order it names, and if it completes an order, the
exchange conserves value. -/
def SettlesFairly (s : State) (req : ExchangeDecision) : Prop :=
  ∀ o created s' res, s.applyUpdate o { created := created, body := .exchangeDecision req } = (s', .ok res) →
    (∀ ex, s.order? req.user req.currencyFrom req.id = some ex → ¬Repeats req ex → s.Same s') ∧
      ∀ order, s.completedOrder? req = some order → s.Conserves s' order

/-- The decisions are of one operator, of one kind, on one order. -/
structure Alike (req req₁ : ExchangeDecision) : Prop where
  user : req₁.user = req.user
  id : req₁.id = req.id
  currencyFrom : req₁.currencyFrom = req.currencyFrom
  publicKey : req₁.publicKey = req.publicKey
  decision : req₁.decision = req.decision

/-- Applied at any time, the two decisions lead to the same balances of the exchange account, and the same amounts that came in. -/
def LeadTheSame (s : State) (req req₁ : ExchangeDecision) : Prop :=
  ∀ o o₁ t t₁ s' s₁ res res₁, s.applyUpdate o { created := t, body := .exchangeDecision req } = (s', .ok res) →
    s.applyUpdate o₁ { created := t₁, body := .exchangeDecision req₁ } = (s₁, .ok res₁) →
      (∀ c, s₁.exchangeState.balance c = s'.exchangeState.balance c) ∧ ∀ u c i, s₁.incomingAmount u c i = s'.incomingAmount u c i

/-- The decision is accepted: it is a vote that the order takes, and if it completes the order, the user has an account in the
currency that it names. -/
def takes (s : State) (req : ExchangeDecision) : Bool :=
  match s.order? req.user req.currencyFrom req.id with
  | none => false
  | some ex =>
    match ex.applyDecision EXCHANGE_NUMBER_OF_CONFIRMATIONS req with
    | .error _ => false
    | .ok (_, completes) => !completes || (s.currency? req.user req.currencyTo).isSome

/-- The decision is refused; or it repeats the order it names, and if it completes the order, the exchange account can settle it
exactly. -/
def honours (s : State) (req : ExchangeDecision) : Bool :=
  !s.takes req ||
    ((s.order? req.user req.currencyFrom req.id).all (fun ex => decide (Repeats req ex)) &&
      (s.completedOrder? req).all (fun order => decide (s.exchangeState.Settles order)))

/-- What is accepted. -/
theorem exists_withExchangeDecision_iff : (∃ s', s.withExchangeDecision req = (s', .ok ())) ↔ s.takes req = true := by
  unfold withExchangeDecision applyExchangeDecision takes
  cases hu : s.users.get? req.user with
  | none => simp [order?, currency?, hu]
  | some ui =>
    simp only [order?, currency?_of_get? hu]
    cases hc : ui.currencies.get? req.currencyFrom with
    | none => simp
    | some j =>
      simp only [Option.bind_some]
      cases he : j.exchangeRequests.get? req.id with
      | none => simp
      | some ex =>
        simp only
        cases ha : ex.applyDecision EXCHANGE_NUMBER_OF_CONFIRMATIONS req with
        | error e => simp
        | ok p =>
          obtain ⟨ex', completes⟩ := p
          cases completes with
          | false => simp
          | true =>
            -- the first step keeps the user and every account
            simp only [if_true, Bool.not_true, Bool.false_or, addIncomingExchange]
            simp only [modifyCurrency, modifyUser, AssocMap.get?_modify_self, hu, Option.map_some, AssocMap.get?_modify]
            cases ht : ui.currencies.get? req.currencyTo with
            | none => by_cases hct : req.currencyTo = req.currencyFrom <;> simp [hct]
            | some k => by_cases hct : req.currencyTo = req.currencyFrom <;> simp [hct]

/-- A vote leaves its signature in the order. -/
theorem applyDecision_ne {t : Int16} {ex ex' : ExchangeOrder} {completes : Bool}
    (h : ex.applyDecision t req = .ok (ex', completes)) : ex' ≠ ex := by
  have hlen : ex'.confirmations.length = ex.confirmations.length + 1 := by
    unfold ExchangeOrder.applyDecision at h
    cases hst : ex.status with
    | completed => simp [hst] at h
    | rejected => simp [hst] at h
    | inProgress m n =>
      simp only [hst] at h
      cases hd : req.decision with
      | confirm =>
        simp only [hd] at h
        split at h
        · cases h
        · split at h <;>
            · obtain ⟨rfl, -⟩ := Prod.mk.inj (Except.ok.inj h)
              simp
      | reject =>
        simp only [hd] at h
        split at h
        · cases h
        · split at h <;>
            · obtain ⟨rfl, -⟩ := Prod.mk.inj (Except.ok.inj h)
              simp
  rintro rfl
  omega

/-- What comes in with a decision: nothing unless it completes an order, and then what the decision says. -/
theorem incoming?_withExchangeDecision {ex ex' : ExchangeOrder} {completes : Bool} (h : s.withExchangeDecision req = (s', .ok ()))
    (hord : s.order? req.user req.currencyFrom req.id = some ex)
    (ha : ex.applyDecision EXCHANGE_NUMBER_OF_CONFIRMATIONS req = .ok (ex', completes)) (u : UserId) (c : Currency)
    (i : ExchangeOrderId) : s'.incoming? u c i =
      if completes = true ∧ u = req.user ∧ c = req.currencyTo ∧ i = req.id then some req.amountTo else s.incoming? u c i := by
  have htakes := exists_withExchangeDecision_iff.mp ⟨s', h⟩
  obtain ⟨j, ex₁, ex₁', completes₁, hj, hex, ha₁, hafter⟩ := withExchangeDecision_eq_ok h
  have hord₁ : s.order? req.user req.currencyFrom req.id = some ex₁ := by
    rw [order?, hj]
    exact hex
  obtain rfl := Option.some.inj (hord.symm.trans hord₁)
  rw [ha] at ha₁
  obtain ⟨rfl, rfl⟩ := Prod.mk.inj (Except.ok.inj ha₁)
  simp only [takes, hord, ha] at htakes
  have hin : ∀ l : UserCurrencyInfo, (l.afterExchange c req ex' completes).incomingExchangeRequests =
      if completes = true ∧ c = req.currencyTo then l.incomingExchangeRequests.insert req.id req.amountTo
      else l.incomingExchangeRequests := by
    intro l
    rw [UserCurrencyInfo.afterExchange_eq]
  rw [incoming?, hafter]
  by_cases hu : u = req.user
  · subst hu
    rw [if_pos rfl]
    by_cases hc : completes = true ∧ c = req.currencyTo
    · obtain ⟨rfl, rfl⟩ := hc
      rw [Bool.not_true, Bool.false_or] at htakes
      obtain ⟨k, hk⟩ := Option.isSome_iff_exists.mp htakes
      rw [hk, Option.map_some, Option.bind_some, hin, if_pos ⟨rfl, rfl⟩, AssocMap.get?_insert, incoming?, hk, Option.bind_some]
      by_cases hi : i = req.id
      · rw [if_pos hi, if_pos ⟨rfl, rfl, rfl, hi⟩]
      · rw [if_neg hi, if_neg (fun h => hi h.2.2.2)]
    · rw [if_neg (fun h => hc ⟨h.1, h.2.2.1⟩), incoming?]
      cases s.currency? req.user c with
      | none => rfl
      | some l => rw [Option.map_some, Option.bind_some, hin, if_neg hc, Option.bind_some]
  · rw [if_neg hu, if_neg (fun h => hu h.2.1)]
    rfl

/-- Decisions of one operator, of one kind, on one order complete the same, whatever else they say. -/
theorem Alike.completedOrder?_eq {req₁ : ExchangeDecision} (h : Alike req req₁) : s.completedOrder? req₁ = s.completedOrder? req := by
  obtain ⟨hu, hi, hc, hk, hd⟩ := h
  unfold completedOrder?
  rw [hu, hi, hc]
  refine Option.bind_congr (fun ex _ => ?_)
  unfold ExchangeOrder.applyDecision
  rw [hk, hd]
  cases ex.status with
  | completed => rfl
  | rejected => rfl
  | inProgress m n =>
    cases req.decision with
    | confirm =>
      by_cases h1 : ex.hasConfirmed req.publicKey = true
      · simp only [h1, if_true]
      · by_cases h2 : m + 1 - n ≥ EXCHANGE_NUMBER_OF_CONFIRMATIONS
        · simp only [h1, h2, if_true]
          rfl
        · simp only [h1, h2, if_false]
          rfl
    | reject =>
      by_cases h1 : ex.hasRejected req.publicKey = true
      · simp only [h1, if_true]
      · by_cases h2 : n + 1 - m ≥ EXCHANGE_NUMBER_OF_CONFIRMATIONS
        · simp only [h1, h2, if_true]
          rfl
        · simp only [h1, h2, if_false]
          rfl

/-- An accepted decision is a decision of `withExchangeDecision`, and leaves the time. -/
theorem applyUpdate_exchangeDecision_iff {created : NaiveDateTime} {res : Option UpdateResult} :
    s.applyUpdate o { created := created, body := .exchangeDecision req } = (s', .ok res) ↔
      ∃ s₁, s.withExchangeDecision req = (s₁, .ok ()) ∧ s' = { s₁ with lastChanged := created } ∧ res = none := by
  constructor
  · intro h
    obtain ⟨s₁, a, ho, hs', hres⟩ := stamped_eq_ok h
    exact ⟨s₁, ho, hs', hres⟩
  · rintro ⟨s₁, ho, rfl, rfl⟩
    change stamped created (s.withExchangeDecision req) noResult = _
    rw [ho]
    rfl

/-- A decision that completes no order leaves the balances and the amounts that came in. -/
theorem unchanged_of_completedOrder?_eq_none {created : NaiveDateTime} {res : Option UpdateResult} (hd : s.completedOrder? req = none)
    (h : s.applyUpdate o { created := created, body := .exchangeDecision req } = (s', .ok res)) :
    s'.exchangeState = s.exchangeState ∧ ∀ u c i, s'.incomingAmount u c i = s.incomingAmount u c i := by
  obtain ⟨s₁, hs₁, rfl, -⟩ := applyUpdate_exchangeDecision_iff.mp h
  have hx := exchangeState_withExchangeDecision hs₁
  rw [hd] at hx
  refine ⟨hx, fun u c i => ?_⟩
  obtain ⟨j, ex, ex', completes, hj, hex, ha, -⟩ := withExchangeDecision_eq_ok hs₁
  have hord : s.order? req.user req.currencyFrom req.id = some ex := by
    rw [order?, hj]
    exact hex
  have hnot : completes = false := by
    cases completes with
    | false => rfl
    | true =>
      rw [completedOrder?, hord, Option.bind_some, ha] at hd
      cases hd
  have hin := incoming?_withExchangeDecision hs₁ hord ha u c i
  rw [hnot, if_neg (fun h => Bool.false_ne_true h.1)] at hin
  exact congrArg (fun x : Option UInt64 => ((x.getD 0).toNat : Int)) hin

/-- Two such decisions that settle fairly lead to the same balances. -/
theorem SettlesFairly.leadTheSame {req₁ : ExchangeDecision} (h : s.SettlesFairly req) (h₁ : s.SettlesFairly req₁) (hal : Alike req req₁) :
    s.LeadTheSame req req₁ := by
  intro o o₁ t t₁ s' s₁ res res₁ hs hs₁
  cases hord : s.completedOrder? req with
  | none =>
    obtain ⟨hbal, hin⟩ := unchanged_of_completedOrder?_eq_none hord hs
    obtain ⟨hbal₁, hin₁⟩ := unchanged_of_completedOrder?_eq_none (hal.completedOrder?_eq.trans hord) hs₁
    exact ⟨fun c => by rw [hbal, hbal₁], fun u c i => (hin₁ u c i).trans (hin u c i).symm⟩
  | some order =>
    have hcons := (h o t s' res hs).2 order hord
    have hcons₁ := (h₁ o₁ t₁ s₁ res₁ hs₁).2 order (hal.completedOrder?_eq.trans hord)
    exact ⟨fun c => (hcons₁.balance c).trans (hcons.balance c).symm,
      fun u c i => (hcons₁.incoming u c i).trans (hcons.incoming u c i).symm⟩

end State

namespace Journal

variable {j : Journal} {req : ExchangeDecision}

/-- What a decision does to the amounts that came in and to the balances, where it completes an order that it repeats. -/
theorem conserves_iff {s' : State} {order : ExchangeOrderUpd} (hk : j.OrdersKeyed) (hcr : j.CreditedOnce)
    (h : j.state.withExchangeDecision req = (s', .ok ())) (hd : j.state.completedOrder? req = some order)
    (hrep : req.currencyTo = order.currencyTo ∧ req.amountTo = order.amountTo) :
    j.state.Conserves s' order ↔ j.state.exchangeState.Settles order := by
  have hx := State.exchangeState_withExchangeDecision h
  rw [hd, Option.elim_some] at hx
  rw [← ExchangeState.processOrder_balance_iff, ← hx]
  constructor
  · exact fun hc => hc.balance
  · intro hbal
    refine ⟨fun u c i => ?_, hbal⟩
    obtain ⟨ex, ex', hord, ha, rfl⟩ := State.completedOrder?_eq_some hd
    obtain ⟨hid, huser, -⟩ := hk _ _ _ _ hord
    have hin := State.incoming?_withExchangeDecision h hord ha u c i
    have hiff : (u = ex.user ∧ c = ex.currencyTo ∧ i = ex.id) ↔ u = req.user ∧ c = req.currencyTo ∧ i = req.id := by
      rw [huser, hid, hrep.1]
      rfl
    change s'.incomingAmount u c i = _ + if u = ex.user ∧ c = ex.currencyTo ∧ i = ex.id then (ex.amountTo.toNat : Int) else 0
    rw [State.incomingAmount, hin]
    simp only [true_and]
    by_cases hthere : u = req.user ∧ c = req.currencyTo ∧ i = req.id
    · -- the order is in progress, so nothing came in for it yet
      have hnone : j.state.incoming? u c i = none := by
        cases hy : j.state.incoming? u c i with
        | none => rfl
        | some amount =>
          obtain ⟨⟨m, n, hst⟩, -, -⟩ := ExchangeOrder.applyDecision_eq_ok ha
          rw [(hcr u c i amount hy).2 _ _ _ (hthere.2.2 ▸ hord)] at hst
          cases hst
      rw [if_pos hthere, if_pos (hiff.mpr hthere), State.incomingAmount, hnone, hrep.2]
      change (ex.amountTo.toNat : Int) = 0 + _
      omega
    · rw [if_neg hthere, if_neg (fun h => hthere (hiff.mp h)), State.incomingAmount, Int.add_zero]

/-- A decision settles fairly just when it is refused, or honours its order. -/
theorem settlesFairly_iff (hk : j.OrdersKeyed) (hcr : j.CreditedOnce) :
    j.state.SettlesFairly req ↔ j.state.honours req = true := by
  unfold State.honours
  by_cases htakes : j.state.takes req = true
  · rw [htakes, Bool.not_true, Bool.false_or, Bool.and_eq_true]
    obtain ⟨s₁, hs₁⟩ := State.exists_withExchangeDecision_iff.mpr htakes
    obtain ⟨i, ex, ex', completes, hi, hex, ha, hafter⟩ := State.withExchangeDecision_eq_ok hs₁
    have hord : j.state.order? req.user req.currencyFrom req.id = some ex := by
      rw [State.order?, hi]
      exact hex
    -- whatever is completed is this order
    have hcompleted : ∀ order, j.state.completedOrder? req = some order → order = ex.intoExchangeUpd := by
      intro order hd
      obtain ⟨ex₁, -, hord₁, -, ho⟩ := State.completedOrder?_eq_some hd
      obtain rfl := Option.some.inj (hord.symm.trans hord₁)
      exact ho
    rw [hord, Option.all_some, decide_eq_true_eq]
    constructor
    · intro hfair
      obtain ⟨hsame, hcons⟩ := hfair Sample.oracle ⟨0⟩ _ _
        (State.applyUpdate_exchangeDecision_iff.mpr ⟨s₁, hs₁, rfl, rfl⟩)
      have hrep : State.Repeats req ex := by
        by_contra hno
        -- the vote is in the order afterwards
        have hcur := State.currency?_congr (hsame ex hord hno).users req.user req.currencyFrom
        obtain ⟨ex₁, ex₁', b, hord₁, ha₁, hord₁'⟩ := applyUpdate_exchanged
          (State.applyUpdate_exchangeDecision_iff.mpr ⟨s₁, hs₁, rfl, rfl⟩ :
            j.state.applyUpdate Sample.oracle { created := ⟨0⟩, body := .exchangeDecision req } = _) rfl
        rw [State.order?, hcur, ← State.order?, hord₁] at hord₁'
        exact State.applyDecision_ne ha₁ (Option.some.inj hord₁').symm
      refine ⟨hrep, ?_⟩
      cases hd : j.state.completedOrder? req with
      | none => rfl
      | some order =>
        rw [Option.all_some, decide_eq_true_eq]
        have hc := hcons order hd
        obtain rfl := hcompleted order hd
        exact (conserves_iff hk hcr hs₁ hd ⟨hrep.1, hrep.2.2⟩).mp ⟨hc.incoming, hc.balance⟩
    · rintro ⟨hrep, hset⟩ o created s' res happly
      obtain ⟨s₂, hs₂, rfl, -⟩ := State.applyUpdate_exchangeDecision_iff.mp happly
      obtain rfl : s₁ = s₂ := (Prod.mk.inj (hs₁.symm.trans hs₂)).1
      refine ⟨fun ex₁ hord₁ hno => ?_, fun order hd => ?_⟩
      · obtain rfl := Option.some.inj (hord.symm.trans hord₁)
        exact absurd hrep hno
      · rw [hd, Option.all_some, decide_eq_true_eq] at hset
        obtain rfl := hcompleted order hd
        have hc := (conserves_iff hk hcr hs₁ hd ⟨hrep.1, hrep.2.2⟩).mpr hset
        exact ⟨hc.incoming, hc.balance⟩
  · rw [Bool.not_eq_true] at htakes
    rw [htakes, Bool.not_false, Bool.true_or]
    refine ⟨fun _ => rfl, fun _ o created s' res happly => ?_⟩
    obtain ⟨s₁, hs₁, -, -⟩ := State.applyUpdate_exchangeDecision_iff.mp happly
    rw [State.exists_withExchangeDecision_iff.mp ⟨s₁, hs₁⟩] at htakes
    cases htakes

end Journal

/-! ## A small wallet with an exchange, for the runs that are executed -/

namespace Sample

/-- A token that is not among the supported ones. -/
def otherToken : Erc20Token := { ticker := "OTH", name := "OTH", contract := "0x0" }

/-- Alice's order for some of her bitcoins. -/
def exchange (c : Currency) (amountFrom amountTo : UInt64) : HandlerCall :=
  .orderExchange alice { currencyFrom := .btc, currencyTo := c, amountFrom := amountFrom, amountTo := amountTo } (uuid 8) ""

/-- An operator's decision to confirm it, with an amount to pay out. -/
def exchangeDecision (c : Currency) (amountFrom amountTo : UInt64) : ExchangeDecision where
  user := alice
  id := uuid 8
  currencyFrom := .btc
  currencyTo := c
  amountFrom := amountFrom
  amountTo := amountTo
  url := "url"
  signature := ⟨[1]⟩
  nonce := 0
  publicKey := key 1
  decision := .confirm

/-- The exchange gets an address, and a deposit to it. -/
def exchangeDeposit (amount : Int64) : List (Action HandlerCall) :=
  done 5 (.other (.exchangeAddress (.btc { addr := "exchange" }))) ++
    done 6 (.other (.updateBtcTx { deposit amount with txid := ⟨"tx2"⟩, address := ⟨"exchange"⟩ }))

/-- Alice ordered 5, and a decision with another amount gives her 6. -/
def overpays (w : World) : Bool :=
  match w.journal.state.applyUpdate oracle (upd 9 (.exchangeDecision (exchangeDecision .eth 400 6))).2 with
  | (s', .ok _) =>
    w.journal.state.incomingAmount alice .eth (uuid 8) == 0 && s'.incomingAmount alice .eth (uuid 8) == 6 &&
      (w.journal.state.completedOrder? (exchangeDecision .eth 400 6)).any (fun order =>
        order.user == alice && order.currencyTo == .eth && order.id == uuid 8 && order.amountTo == 5)
  | _ => false

end Sample

namespace World

variable {ι : Type} {C : Client ι} {k : Clock} {w : World}

/-- The books are kept in the step. -/
abbrev KeepsBooks (w : World) (a : Action ι) : Prop := OnAccepted (fun j u => j.state.keepsBooks u.body = true) w a

/-- The running balances of the exchange account are those of its ledger, in every run of the hot wallet, over any handlers, in
which each accepted update keeps the books. -/
theorem exchange_balanced (h : (machine C k).Reachable KeepsBooks w) (c : Currency) :
    w.journal.state.exchangeState.balance c = w.journal.state.exchangeState.ledger c := by
  have hreach := journal_reachable (Q := fun j a => j.state.keepsBooks a.2.body = true) h ?_
  · exact Journal.balanced_of_reachable (fun j a hp => hp) hreach c
  · intro w o u us j _ hP hu hj
    exact hP.of_store hu hj

/-- The exchange gets a deposit, and an order of alice's is settled. -/
theorem exchange_balanced_settled : ∃ w : World, w.journal.state.exchangeState.balance .btc = 900 ∧
    w.journal.state.exchangeState.balance .btc = w.journal.state.exchangeState.ledger .btc := by
  obtain ⟨w, hw, hq⟩ := Machine.exists_reachable (P := KeepsBooks)
    (Sample.opening 1000000 ++ Sample.exchangeDeposit 500 ++ Sample.done 8 (Sample.exchange .eth 400 5) ++
      Sample.done 9 (.other (.exchangeDecision (Sample.exchangeDecision .eth 400 5))))
    (q := fun w => w.journal.state.exchangeState.balance .btc == 900) Sample.world_init (by decide +kernel)
  exact ⟨w, by simpa using hq, exchange_balanced hw _⟩

/-- Alice exchanges bitcoins for a token in which the exchange has no balance: what it pays out is added to the balance. -/
theorem exchange_unbalanced : ¬∀ (Γ : Ctx) (k : Clock) (w : World),
    (machine (hotWallet Γ) k).Reachable Machine.anyStep w →
    ∀ c, w.journal.state.exchangeState.balance c = w.journal.state.exchangeState.ledger c := by
  intro h
  obtain ⟨w, hw, hq⟩ := Machine.exists_reachable (P := Machine.anyStep)
    (Sample.opening 1000000 ++
      Sample.done 5 (.other (.updateTokens { user := Sample.alice, token := Sample.otherToken, action := .enable })) ++
      Sample.done 8 (Sample.exchange (.erc20 Sample.otherToken) 400 5) ++
      Sample.done 9 (.other (.exchangeDecision (Sample.exchangeDecision (.erc20 Sample.otherToken) 400 5))))
    (q := fun w => w.journal.state.exchangeState.balance (.erc20 Sample.otherToken) == 5 &&
      w.journal.state.exchangeState.ledger (.erc20 Sample.otherToken) == -5) Sample.world_init (by decide +kernel)
  obtain ⟨hbal, hledger⟩ := Bool.and_eq_true_iff.mp hq
  have heq := h Sample.ctx Sample.clock w hw (.erc20 Sample.otherToken)
  rw [beq_iff_eq.mp hbal, beq_iff_eq.mp hledger] at heq
  cases heq

/-- An exchange conserves value just when its decision honours the order: in every run of the hot wallet, over any handlers, and
for every decision. Two decisions of one operator, of one kind, on one order that both honour it lead to the same balances. -/
theorem exchange_conserves_iff {P : World → Action ι → Prop} (h : (machine C k).Reachable P w) (req : ExchangeDecision) :
    (w.journal.state.SettlesFairly req ↔ w.journal.state.honours req = true) ∧
      ∀ req₁, State.Alike req req₁ → w.journal.state.honours req = true → w.journal.state.honours req₁ = true →
        w.journal.state.LeadTheSame req req₁ := by
  have hreach := journal_reachable (Q := fun _ _ => True) h (fun _ _ _ _ _ _ _ _ _ => trivial)
  have hfair (req : ExchangeDecision) : w.journal.state.SettlesFairly req ↔ w.journal.state.honours req = true :=
    Journal.settlesFairly_iff (Journal.ordersSettled_of_reachable (fun _ _ hp => hp.1) hreach).1
      (Journal.ordersFiled_of_reachable (fun _ _ hp => hp.1) hreach).2
  exact ⟨hfair req, fun req₁ hal hreq hreq₁ => ((hfair req).mpr hreq).leadTheSame ((hfair req₁).mpr hreq₁) hal⟩

/-- A decision that repeats alice's order conserves value. -/
theorem exchange_conserves_repeated : ∃ w : World,
    w.journal.state.completedOrder? (Sample.exchangeDecision .eth 400 5) ≠ none ∧
      w.journal.state.SettlesFairly (Sample.exchangeDecision .eth 400 5) := by
  obtain ⟨w, hw, hq⟩ := Machine.exists_reachable (P := Machine.anyStep)
    (Sample.opening 1000000 ++ Sample.done 8 (Sample.exchange .eth 400 5))
    (q := fun w => (w.journal.state.completedOrder? (Sample.exchangeDecision .eth 400 5)).isSome &&
      w.journal.state.honours (Sample.exchangeDecision .eth 400 5)) Sample.world_init (by decide +kernel)
  obtain ⟨hsome, hhonours⟩ := Bool.and_eq_true_iff.mp hq
  exact ⟨w, Option.isSome_iff_ne_none.mp hsome, (exchange_conserves_iff hw _).1.mpr hhonours⟩

/-- An operator's decision on alice's order carries another amount: alice gets that amount, and the exchange pays the other. -/
theorem exchange_overpaid : ¬∀ (Γ : Ctx) (k : Clock) (w : World),
    (machine (hotWallet Γ) k).Reachable Machine.anyStep w → ∀ req, w.journal.state.SettlesFairly req := by
  intro h
  obtain ⟨w, hw, hq⟩ := Machine.exists_reachable (P := Machine.anyStep)
    (Sample.opening 1000000 ++ Sample.done 8 (Sample.exchange .eth 400 5)) (q := Sample.overpays) Sample.world_init
    (by decide +kernel)
  unfold Sample.overpays at hq
  split at hq
  · rename_i s' res happly
    simp only [Bool.and_eq_true, beq_iff_eq, Option.any_eq_true] at hq
    obtain ⟨⟨hbefore, hafter⟩, order, hd, ⟨⟨hu, hc⟩, hi⟩, ha⟩ := hq
    have hin := ((h Sample.ctx Sample.clock w hw _ _ _ s' res happly).2 order hd).incoming Sample.alice .eth (Sample.uuid 8)
    rw [hbefore, hafter, hu, hc, hi, ha, if_pos ⟨rfl, rfl, rfl⟩] at hin
    cases hin
  · cases hq

end World

end Hexstody
