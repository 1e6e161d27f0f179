import Hexstody.Lemmas.Order
import Hexstody.Library.Wrapping

/-!
# The exchange account and its ledger

The exchange account keeps a running balance in each currency beside the deposits and the completed orders that the balance
should be the sum of. Here: what that sum is in exact integers (`ExchangeState.ledger`), what each of the three operations does
to both, and just when it keeps them equal (`Balanced`); then how an accepted update changes the exchange account
(`ExchangeChange`). A balance in a currency that has none yet counts as zero.
-/

namespace Hexstody

open Wrapping

/-! ## Deposits and orders, in exact integers -/

def Transaction.currency : Transaction → Currency
  | .btc _ => .btc
  | .eth _ => .eth

/-- What a deposit brings in a currency. -/
def Transaction.broughtIn (c : Currency) (t : Transaction) : Int := if t.currency = c then t.amount.toInt else 0

namespace ExchangeOrderUpd

/-- What an order brings to the exchange account in a currency. -/
def broughtIn (c : Currency) (order : ExchangeOrderUpd) : Int :=
  if order.currencyFrom = c then order.amountFrom.toNat else 0

/-- What an order takes from the exchange account in a currency. -/
def takenOut (c : Currency) (order : ExchangeOrderUpd) : Int :=
  if order.currencyTo = c then order.amountTo.toNat else 0

/-- What an order changes in a currency. -/
def change (c : Currency) (order : ExchangeOrderUpd) : Int := order.broughtIn c - order.takenOut c

end ExchangeOrderUpd

namespace ExchangeState

/-- The running balance. -/
def balance (e : ExchangeState) (c : Currency) : Int := ((e.balances.get? c).getD 0).toInt

/-- What the balance should be: the deposits and what the orders brought in, less what the orders took out. -/
def ledger (e : ExchangeState) (c : Currency) : Int :=
  (e.deposits.map (Transaction.broughtIn c)).sum + e.exchanges.sumVals (ExchangeOrderUpd.broughtIn c) -
    e.exchanges.sumVals (ExchangeOrderUpd.takenOut c)

/-- The running balances are those of the ledger. -/
def Balanced (e : ExchangeState) : Prop := ∀ c, e.balance c = e.ledger c

/-- The currency that an order is paid out in has a balance already, when the order is paid out; or the sign of what is paid
out makes no difference. -/
def KnowsTarget (e : ExchangeState) (order : ExchangeOrderUpd) : Prop :=
  e.balances.contains order.currencyTo = true ∨ order.currencyFrom = order.currencyTo ∨ order.amountTo = -order.amountTo

/-- The order can be settled exactly. -/
def Settles (e : ExchangeState) (order : ExchangeOrderUpd) : Prop :=
  e.KnowsTarget order ∧ Fits (e.balance order.currencyFrom + order.change order.currencyFrom) ∧
    Fits (e.balance order.currencyTo + order.change order.currencyTo)

instance (e : ExchangeState) (order : ExchangeOrderUpd) : Decidable (e.Settles order) :=
  inferInstanceAs (Decidable ((_ ∨ _ ∨ _) ∧ _ ∧ _))

/-- The deposit can be recorded exactly: a deposit that is recorded already has the amount it had, and a new one leaves a
balance that fits. -/
def takesDeposit (e : ExchangeState) (tx : BtcTransaction) : Bool :=
  decide (tx.amount < 0) ||
    match firstBtcTx? (·.isSameBtcTx tx) e.deposits with
    | some t => t.amount == tx.amount
    | none => decide (Fits (e.balance .btc + tx.amount.toInt))

/-- The cancellation of a deposit can be recorded exactly: it is of the amount that is recorded, and leaves a balance that
fits. -/
def takesCancel (e : ExchangeState) (tx : BtcTxCancel) : Bool :=
  match firstBtcTx? (·.isSameBtcTxCancel tx) e.deposits with
  | some t => t.amount == tx.amount.toInt64 && decide (Fits (e.balance .btc - t.amount.toInt))
  | none => true

variable {e : ExchangeState}

theorem fits_balance (e : ExchangeState) (c : Currency) : Fits (e.balance c) := fits_toInt _

/-! ## Settling an order -/

/-- What is there after `entry(..).and_modify(f).or_insert(v)`, with nothing counting as zero. -/
theorem getD_modifyOrInsert (m : AssocMap Currency Int64) (k c : Currency) (f : Int64 → Int64) (v : Int64) :
    ((m.modifyOrInsert k f v).get? c).getD 0 =
      if c = k then (if m.contains k = true then f ((m.get? k).getD 0) else v) else (m.get? c).getD 0 := by
  rw [AssocMap.get?_modifyOrInsert]
  by_cases hc : c = k
  · rw [if_pos hc, if_pos hc, AssocMap.contains]
    cases m.get? k <;> rfl
  · rw [if_neg hc, if_neg hc]

/-- What is added to a balance, whether it is there or not. -/
theorem getD_addOrInsert (m : AssocMap Currency Int64) (k c : Currency) (v : Int64) :
    ((m.modifyOrInsert k (· + v) v).get? c).getD 0 = (m.get? c).getD 0 + if c = k then v else 0 := by
  rw [getD_modifyOrInsert, AssocMap.contains]
  by_cases hc : c = k
  · rw [if_pos hc, if_pos hc, hc]
    cases m.get? k with
    | none => simp
    | some w => rfl
  · rw [if_neg hc, if_neg hc, Int64.add_zero]

/-- The balances once the amount that is paid in is added. -/
def credited (e : ExchangeState) (order : ExchangeOrderUpd) : AssocMap Currency Int64 :=
  e.balances.modifyOrInsert order.currencyFrom (· + order.amountFrom.toInt64) order.amountFrom.toInt64

theorem contains_credited (e : ExchangeState) (order : ExchangeOrderUpd) (c : Currency) :
    (e.credited order).contains c = true ↔ e.balances.contains c = true ∨ order.currencyFrom = c := by
  rw [AssocMap.contains, credited, AssocMap.get?_modifyOrInsert, AssocMap.contains]
  by_cases hc : c = order.currencyFrom
  · rw [if_pos hc]
    exact ⟨fun _ => Or.inr hc.symm, fun _ => rfl⟩
  · rw [if_neg hc]
    exact ⟨Or.inl, fun h => h.resolve_right (fun h => hc h.symm)⟩

/-- What is paid in, up to wrapping. -/
theorem wrapped_credited (e : ExchangeState) (order : ExchangeOrderUpd) (c : Currency) :
    Wrapped (e.balance c + order.broughtIn c) (((e.credited order).get? c).getD 0).toInt := by
  rw [credited, getD_addOrInsert]
  refine Wrapped.trans ?_ (wrapped_add_signed _ _)
  refine (Wrapped.refl _).add ?_
  unfold ExchangeOrderUpd.broughtIn
  by_cases hc : c = order.currencyFrom
  · rw [if_pos hc.symm, if_pos hc]
    exact wrapped_toInt64 _
  · rw [if_neg (fun h => hc h.symm), if_neg hc]
    exact .refl 0

/-- An order is settled exactly up to wrapping, where its target has a balance, or the sign makes no difference. -/
theorem wrapped_processOrder {order : ExchangeOrderUpd} (h : e.KnowsTarget order) (c : Currency) :
    Wrapped (e.balance c + order.change c) ((e.processOrder order).balance c) := by
  have hin := wrapped_credited e order c
  have hout := wrapped_toInt64 order.amountTo
  have hsum : e.balance c + order.change c = e.balance c + order.broughtIn c - order.takenOut c := by
    rw [ExchangeOrderUpd.change]
    omega
  rw [hsum]
  change Wrapped _ (((AssocMap.modifyOrInsert (e.credited order) order.currencyTo (· - order.amountTo.toInt64)
    order.amountTo.toInt64).get? c).getD 0).toInt
  rw [getD_modifyOrInsert]
  by_cases hc : c = order.currencyTo
  · rw [if_pos hc, ExchangeOrderUpd.takenOut, if_pos hc.symm, ← hc]
    by_cases hk : (e.credited order).contains c = true
    · rw [if_pos hk]
      exact (hin.sub hout).trans (wrapped_sub_signed _ _)
    · -- nothing was there: what is put there is the amount, and the amount is its own negative
      rw [if_neg hk]
      have hneg : order.amountTo = -order.amountTo := by
        rcases h with h | h | h
        · exact absurd ((contains_credited e order c).mpr (Or.inl (hc ▸ h))) hk
        · exact absurd ((contains_credited e order c).mpr (Or.inr (hc ▸ h))) hk
        · exact h
      have hzero : Wrapped (e.balance c + order.broughtIn c) 0 := by
        have hnone : (e.credited order).get? c = none := by
          simpa [AssocMap.contains] using hk
        rw [hnone] at hin
        exact hin
      have hnat := congrArg UInt64.toNat hneg
      have hsize : UInt64.size = 18446744073709551616 := rfl
      rw [UInt64.toNat_neg, hsize] at hnat
      rw [wrapped_iff] at hzero hout ⊢
      omega
  · rw [if_neg hc, ExchangeOrderUpd.takenOut, if_neg (fun h => hc h.symm), Int.sub_zero]
    exact hin

/-- Where the target has no balance, and the sign makes a difference, the balance is wrong afterwards. -/
theorem knowsTarget_of_balance {order : ExchangeOrderUpd}
    (h : (e.processOrder order).balance order.currencyTo =
      e.balance order.currencyTo + order.change order.currencyTo) : e.KnowsTarget order := by
  by_contra hno
  simp only [KnowsTarget, not_or] at hno
  obtain ⟨hk, hne, hneg⟩ := hno
  refine hneg ?_
  have hcred : ¬(e.credited order).contains order.currencyTo = true :=
    fun hc => ((contains_credited e order _).mp hc).elim hk hne
  have hbal : (e.processOrder order).balance order.currencyTo = order.amountTo.toInt64.toInt := by
    change (((AssocMap.modifyOrInsert (e.credited order) order.currencyTo (· - order.amountTo.toInt64)
      order.amountTo.toInt64).get? order.currencyTo).getD 0).toInt = _
    rw [getD_modifyOrInsert, if_pos rfl, if_neg hcred]
  have hzero : e.balance order.currencyTo = 0 := by
    have hnone : e.balances.get? order.currencyTo = none := by simpa [AssocMap.contains] using hk
    rw [balance, hnone]
    rfl
  have hout := wrapped_toInt64 order.amountTo
  rw [hbal, hzero, ExchangeOrderUpd.change, ExchangeOrderUpd.broughtIn, ExchangeOrderUpd.takenOut, if_neg hne,
    if_pos rfl] at h
  rw [h, wrapped_iff] at hout
  have hsize : UInt64.size = 18446744073709551616 := rfl
  refine UInt64.toNat.inj ?_
  rw [UInt64.toNat_neg, hsize]
  have hlt := order.amountTo.toNat_lt
  omega

/-- An order is settled exactly just when it can be. -/
theorem processOrder_balance_iff {order : ExchangeOrderUpd} :
    (∀ c, (e.processOrder order).balance c = e.balance c + order.change c) ↔ e.Settles order := by
  constructor
  · intro h
    refine ⟨knowsTarget_of_balance (h _), ?_, ?_⟩
    · rw [← h]
      exact fits_balance _ _
    · rw [← h]
      exact fits_balance _ _
  · rintro ⟨hk, hfrom, hto⟩ c
    refine (wrapped_processOrder hk c).eq_iff.mpr ?_
    by_cases hf : order.currencyFrom = c
    · exact hf ▸ hfrom
    · by_cases ht : order.currencyTo = c
      · exact ht ▸ hto
      · have hzero : order.change c = 0 := by
          rw [ExchangeOrderUpd.change, ExchangeOrderUpd.broughtIn, ExchangeOrderUpd.takenOut, if_neg hf, if_neg ht]
          rfl
        rw [hzero, Int.add_zero]
        exact fits_balance e c

/-! ## What keeps the balances those of the ledger -/

/-- A new order changes the ledger by what it changes. -/
theorem ledger_processOrder {order : ExchangeOrderUpd} (hnew : e.exchanges.get? order.id = none) (c : Currency) :
    (e.processOrder order).ledger c = e.ledger c + order.change c := by
  have hin := AssocMap.sumVals_insert_add e.exchanges (ExchangeOrderUpd.broughtIn c) order.id order
  have hout := AssocMap.sumVals_insert_add e.exchanges (ExchangeOrderUpd.takenOut c) order.id order
  rw [hnew, Option.elim_none, Int.add_zero] at hin hout
  unfold ledger
  change _ + (e.exchanges.insert order.id order).sumVals _ - (e.exchanges.insert order.id order).sumVals _ = _
  rw [hin, hout, ExchangeOrderUpd.change]
  change (e.deposits.map _).sum + _ - _ = _
  omega

theorem balanced_processOrder_iff {order : ExchangeOrderUpd} (h : e.Balanced) (hnew : e.exchanges.get? order.id = none) :
    (e.processOrder order).Balanced ↔ e.Settles order := by
  rw [← processOrder_balance_iff]
  refine forall_congr' (fun c => ?_)
  rw [ledger_processOrder hnew, h c]

/-- The sum over some deposits, one of which is put in place of another. -/
theorem sum_broughtIn_middle (pre post : List Transaction) (t : Transaction) (c : Currency) :
    ((pre ++ t :: post).map (Transaction.broughtIn c)).sum =
      ((pre ++ post).map (Transaction.broughtIn c)).sum + t.broughtIn c := by
  simp only [List.map_append, List.map_cons, List.sum_append, List.sum_cons]
  omega

/-- A balance in bitcoins that changes as the ledger in bitcoins does. -/
theorem balanced_btc_iff {e' : ExchangeState} {d : Int} (h : e.Balanced)
    (hl : ∀ c, e'.ledger c = e.ledger c + if Currency.btc = c then d else 0)
    (hb : ∀ c, c ≠ .btc → e'.balance c = e.balance c) : e'.Balanced ↔ e'.balance .btc = e.balance .btc + d := by
  constructor
  · intro h'
    rw [h' .btc, hl .btc, if_pos rfl, h .btc]
  · intro hbtc c
    rw [hl c]
    by_cases hc : Currency.btc = c
    · rw [if_pos hc, ← hc, hbtc, h .btc]
    · rw [if_neg hc, hb c (fun h => hc h.symm), h c, Int.add_zero]

theorem broughtIn_btc (c : Currency) (tx : BtcTransaction) :
    (Transaction.btc tx).broughtIn c = if Currency.btc = c then tx.amount.toInt else 0 := rfl

/-- A deposit keeps the balances just when it can be recorded exactly. -/
theorem balanced_processIncomingBtcTx_iff {tx : BtcTransaction} (h : e.Balanced) :
    (e.processIncomingBtcTx tx).Balanced ↔ e.takesDeposit tx = true := by
  unfold processIncomingBtcTx takesDeposit
  by_cases hneg : tx.amount ≥ 0
  · have hlt : ¬tx.amount < 0 := Int64.not_lt.mpr hneg
    rw [if_pos hneg, decide_eq_false hlt, Bool.false_or]
    cases hf : firstBtcTx? (·.isSameBtcTx tx) e.deposits with
    | some t =>
      obtain ⟨pre, post, hd, -, hr, -⟩ := firstBtcTx?_eq_some hf
      simp only [hr tx, beq_iff_eq]
      rw [balanced_btc_iff (d := tx.amount.toInt - t.amount.toInt) h ?_ ?_]
      · change e.balance .btc = _ ↔ _
        rw [← Int64.toInt_inj]
        omega
      · intro c
        unfold ledger
        simp only [hd, sum_broughtIn_middle, broughtIn_btc]
        by_cases hc : Currency.btc = c
        · simp only [if_pos hc]
          omega
        · simp only [if_neg hc]
          omega
      · exact fun c _ => rfl
    | none =>
      obtain ⟨hr, -⟩ := firstBtcTx?_eq_none hf
      simp only [hr tx, decide_eq_true_eq]
      rw [balanced_btc_iff (d := tx.amount.toInt) h ?_ ?_]
      · refine Wrapped.eq_iff ?_
        rw [getD_addOrInsert, if_pos rfl]
        exact wrapped_add_signed _ _
      · intro c
        unfold ledger
        simp only [List.map_append, List.sum_append, List.map_cons, List.map_nil, List.sum_cons, List.sum_nil, broughtIn_btc]
        omega
      · intro c hc
        unfold balance
        rw [getD_addOrInsert, if_neg hc, Int64.add_zero]
  · have hlt : tx.amount < 0 := Int64.not_le.mp hneg
    rw [if_neg hneg, decide_eq_true hlt, Bool.true_or]
    exact ⟨fun _ => rfl, fun _ => h⟩

/-- A cancellation keeps the balances just when it can be recorded exactly. -/
theorem balanced_cancelBtcTx_iff {tx : BtcTxCancel} (h : e.Balanced) :
    (e.cancelBtcTx tx).Balanced ↔ e.takesCancel tx = true := by
  unfold cancelBtcTx takesCancel
  cases hf : firstBtcTx? (·.isSameBtcTxCancel tx) e.deposits with
  | some t =>
    obtain ⟨pre, post, hd, -, -, hr⟩ := firstBtcTx?_eq_some hf
    simp only [hr, Bool.and_eq_true, beq_iff_eq, decide_eq_true_eq]
    -- with nothing there, what is put there is what zero less the amount is
    have hbal : ∀ c, ((e.balances.modifyOrInsert .btc (· - tx.amount.toInt64) (-tx.amount.toInt64)).get? c).getD 0 =
        (e.balances.get? c).getD 0 + if c = .btc then -tx.amount.toInt64 else 0 := by
      intro c
      rw [← getD_addOrInsert]
      simp only [Int64.sub_eq_add_neg]
    rw [balanced_btc_iff (d := -t.amount.toInt) h ?_ ?_]
    · have hw : Wrapped (e.balance .btc - tx.amount.toInt64.toInt)
          ((e.balances.get? .btc).getD 0 - tx.amount.toInt64).toInt := wrapped_sub_signed _ _
      have hnew : ((e.balances.modifyOrInsert .btc (· - tx.amount.toInt64) (-tx.amount.toInt64)).get? .btc).getD 0 =
          (e.balances.get? .btc).getD 0 - tx.amount.toInt64 := by
        rw [hbal, if_pos rfl, Int64.sub_eq_add_neg]
      change (((e.balances.modifyOrInsert .btc (· - tx.amount.toInt64) (-tx.amount.toInt64)).get? .btc).getD 0).toInt =
        e.balance .btc + -t.amount.toInt ↔ _
      rw [hnew, ← Int64.toInt_inj]
      have hx := fits_toInt ((e.balances.get? .btc).getD 0 - tx.amount.toInt64)
      have ht := fits_toInt t.amount
      have ha := fits_toInt tx.amount.toInt64
      rw [wrapped_iff] at hw
      unfold Fits at hx ht ha ⊢
      omega
    · intro c
      unfold ledger
      simp only [hd, sum_broughtIn_middle, broughtIn_btc]
      by_cases hc : Currency.btc = c
      · simp only [if_pos hc]
        omega
      · simp only [if_neg hc]
        omega
    · intro c hc
      change (((e.balances.modifyOrInsert .btc (· - tx.amount.toInt64) (-tx.amount.toInt64)).get? c).getD 0).toInt = _
      rw [hbal, if_neg hc, Int64.add_zero]
      rfl
  | none =>
    obtain ⟨-, hr⟩ := firstBtcTx?_eq_none hf
    rw [hr]
    exact ⟨fun _ => rfl, fun _ => h⟩

end ExchangeState

/-! ## How an update changes the exchange account -/

namespace State

variable {s s' : State} {o : Oracle} {up : StateUpdate}

/-- The order, as a completed one is kept, that a decision completes. -/
def completedOrder? (s : State) (req : ExchangeDecision) : Option ExchangeOrderUpd :=
  (s.order? req.user req.currencyFrom req.id).bind fun ex =>
    match ex.applyDecision EXCHANGE_NUMBER_OF_CONFIRMATIONS req with
    | .ok (ex', true) => some ex'.intoExchangeUpd
    | _ => none

/-- How an accepted update changes the exchange account, with what the update had to meet. -/
inductive ExchangeChange (s : State) (up : StateUpdate) : ExchangeState → Prop where
  | same : ExchangeChange s up s.exchangeState
  | deposited (tx : BtcTransaction) : up.body = .updateBtcTx tx → s.isExchangeAddress (btcAddress tx.address) = true →
      ExchangeChange s up (s.exchangeState.processIncomingBtcTx tx)
  | canceled (tx : BtcTxCancel) : up.body = .cancelBtcTx tx → s.isExchangeAddress (btcAddress tx.address) = true →
      ExchangeChange s up (s.exchangeState.cancelBtcTx tx)
  | settled (req : ExchangeDecision) (order : ExchangeOrderUpd) : up.body = .exchangeDecision req →
      s.completedOrder? req = some order → ExchangeChange s up (s.exchangeState.processOrder order)
  | addressed (req : CurrencyAddress) : up.body = .exchangeAddress req →
      ExchangeChange s up
        { s.exchangeState with addresses := s.exchangeState.addresses.insert req.currency req }

/-! ### The methods that leave it as it is -/

theorem exchangeState_updateUser (s : State) (user : UserId) (f : UserInfo → UserInfo) :
    (s.updateUser user f).1.exchangeState = s.exchangeState := by
  unfold updateUser
  split <;> rfl

theorem exchangeState_withSignup (s : State) (t : NaiveDateTime) (info : SignupInfo) :
    (s.withSignup t info).1.exchangeState = s.exchangeState := by
  unfold withSignup
  repeat' split
  all_goals rfl

theorem exchangeState_genInvite (s : State) (req : InviteRec) : (s.genInvite req).1.exchangeState = s.exchangeState := by
  unfold genInvite
  split <;> rfl

theorem exchangeState_withNewWithdrawalRequest (s : State) (t : NaiveDateTime) (info : WithdrawalRequestInfo) :
    (s.withNewWithdrawalRequest t info).1.exchangeState = s.exchangeState := by
  unfold withNewWithdrawalRequest
  simp only
  repeat' split
  all_goals rfl

theorem exchangeState_withWithdrawalRequestDecision (s : State) (d : WithdrawalRequestDecisionInfo) :
    (s.withWithdrawalRequestDecision d).1.exchangeState = s.exchangeState := by
  unfold withWithdrawalRequestDecision
  repeat' split
  all_goals rfl

theorem exchangeState_withDepositAddress (s : State) (dep : DepositAddress) :
    (s.withDepositAddress dep).1.exchangeState = s.exchangeState := by
  unfold withDepositAddress
  simp only
  repeat' split
  all_goals rfl

theorem exchangeState_withDepositOwner (s : State) (o : Oracle) (a : CurrencyAddress)
    (f : UserCurrencyInfo → UserCurrencyInfo) : (s.withDepositOwner o a f).1.exchangeState = s.exchangeState := by
  unfold withDepositOwner
  repeat' split
  all_goals rfl

theorem exchangeState_updateTokens (s : State) (req : TokenUpdate) :
    (s.updateTokens req).1.exchangeState = s.exchangeState := by
  unfold updateTokens
  simp only
  repeat' split
  all_goals rfl

theorem exchangeState_insertLimitsReq (s : State) (o : Oracle) (req : LimitChangeUpd) :
    (s.insertLimitsReq o req).1.exchangeState = s.exchangeState := by
  unfold insertLimitsReq
  repeat' split
  all_goals rfl

theorem exchangeState_withLimitChangeDecision (s : State) (lcd : LimitChangeDecision) :
    (s.withLimitChangeDecision lcd).1.exchangeState = s.exchangeState := by
  unfold withLimitChangeDecision
  repeat' split
  all_goals rfl

theorem exchangeState_addExchangeRequest (s : State) (req : ExchangeOrderUpd) :
    (s.addExchangeRequest req).1.exchangeState = s.exchangeState := by
  unfold addExchangeRequest
  repeat' split
  all_goals rfl

theorem exchangeState_addIncomingExchange (s : State) (req : ExchangeDecision) :
    (s.addIncomingExchange req).1.exchangeState = s.exchangeState := by
  unfold addIncomingExchange
  repeat' split
  all_goals rfl

/-! ### The methods that change it -/

theorem exchangeState_withBtcTxUpdate (s : State) (o : Oracle) (tx : BtcTransaction) :
    (s.withBtcTxUpdate o tx).1.exchangeState =
      if s.isExchangeAddress (btcAddress tx.address) then s.exchangeState.processIncomingBtcTx tx else s.exchangeState := by
  unfold withBtcTxUpdate
  by_cases h : s.isExchangeAddress (btcAddress tx.address) = true
  · simp only [h, if_true]
  · simp only [h]
    exact exchangeState_withDepositOwner ..

theorem exchangeState_withBtcTxCancel (s : State) (o : Oracle) (tx : BtcTxCancel) :
    (s.withBtcTxCancel o tx).1.exchangeState =
      if s.isExchangeAddress (btcAddress tx.address) then s.exchangeState.cancelBtcTx tx else s.exchangeState := by
  unfold withBtcTxCancel
  by_cases h : s.isExchangeAddress (btcAddress tx.address) = true
  · simp only [h, if_true]
  · simp only [h]
    have howner := exchangeState_withDepositOwner s o (btcAddress tx.address) (·.cancelBtcTx tx)
    generalize s.withDepositOwner o (btcAddress tx.address) (·.cancelBtcTx tx) = out at howner ⊢
    obtain ⟨s₁, res1⟩ := out
    cases hf : s₁.findWithdrawalByTxId o (.btc { txid := tx.txid.hex }) with
    | none => cases res1 <;> simpa [hf] using howner
    | some rid => cases res1 <;> simpa [hf, setWithdrawalRequestNodeRejected, mapCurrencies] using howner

/-- A decision settles the order that it completes. -/
theorem exchangeState_applyExchangeDecision {req : ExchangeDecision} {completes : Bool}
    (h : s.applyExchangeDecision req = (s', .ok completes)) :
    s'.exchangeState = (s.completedOrder? req).elim s.exchangeState s.exchangeState.processOrder := by
  unfold applyExchangeDecision at h
  cases hu : s.users.get? req.user with
  | none => simp [hu] at h
  | some ui =>
    simp only [hu] at h
    cases hc : ui.currencies.get? req.currencyFrom with
    | none => simp [hc] at h
    | some j =>
      simp only [hc] at h
      cases he : j.exchangeRequests.get? req.id with
      | none => simp [he] at h
      | some ex =>
        simp only [he] at h
        have hord : s.order? req.user req.currencyFrom req.id = some ex := by
          rw [order?, currency?_of_get? hu, hc]
          exact he
        rw [completedOrder?, hord, Option.bind_some]
        cases ha : ex.applyDecision EXCHANGE_NUMBER_OF_CONFIRMATIONS req with
        | error e => simp [ha] at h
        | ok p =>
          obtain ⟨ex', b⟩ := p
          cases b with
          | true =>
            simp only [ha, if_true, Prod.mk.injEq] at h
            rw [← h.1]
            rfl
          | false =>
            simp only [ha, Bool.false_eq_true, if_false, Prod.mk.injEq] at h
            rw [← h.1]
            rfl

theorem exchangeState_withExchangeDecision {req : ExchangeDecision} (h : s.withExchangeDecision req = (s', .ok ())) :
    s'.exchangeState = (s.completedOrder? req).elim s.exchangeState s.exchangeState.processOrder := by
  unfold withExchangeDecision at h
  generalize hd : s.applyExchangeDecision req = out at h
  obtain ⟨s₁, r⟩ := out
  cases r with
  | error e => simp at h
  | ok completes =>
    rw [← exchangeState_applyExchangeDecision hd]
    cases completes with
    | false =>
      simp only [Prod.mk.injEq, and_true] at h
      rw [h]
    | true =>
      have hsame := exchangeState_addIncomingExchange s₁ req
      simp only at h
      rw [h] at hsame
      exact hsame

/-! ### The inversion -/

/-- What a method does to the exchange account, the update does. -/
theorem exchange_of_stamped {α : Type} {created : NaiveDateTime} {out : Outcome α} {f : α → Option UpdateResult}
    {res : Option UpdateResult} (h : stamped created out f = (s', .ok res))
    (hm : ∀ s₁ a, out = (s₁, .ok a) → ExchangeChange s up s₁.exchangeState) : ExchangeChange s up s'.exchangeState := by
  obtain ⟨s₁, a, ho, rfl, -⟩ := stamped_eq_ok h
  exact hm s₁ a ho

/-- A method that leaves the exchange account as it is. -/
theorem exchange_of_same {α : Type} {created : NaiveDateTime} {out : Outcome α} {f : α → Option UpdateResult}
    {res : Option UpdateResult} (h : stamped created out f = (s', .ok res))
    (hm : out.1.exchangeState = s.exchangeState) : ExchangeChange s up s'.exchangeState := by
  refine exchange_of_stamped h (fun s₁ a ho => ?_)
  rw [ho] at hm
  rw [show s₁.exchangeState = s.exchangeState from hm]
  exact .same

end State

open State in
/-- What an accepted update, other than a snapshot, does to the exchange account. -/
theorem applyUpdate_exchangeState {s s' : State} {o : Oracle} {up : StateUpdate} {res : Option UpdateResult}
    (h : s.applyUpdate o up = (s', .ok res)) (hs : ¬up.body.IsSnapshot) : ExchangeChange s up s'.exchangeState := by
  unfold State.applyUpdate at h
  cases hb : up.body with
  | snapshot s₀ => exact absurd (by rw [hb]; trivial) hs
  | signup info => rw [hb] at h; exact exchange_of_same h (exchangeState_withSignup ..)
  | createWithdrawalRequest info => rw [hb] at h; exact exchange_of_same h (exchangeState_withNewWithdrawalRequest ..)
  | withdrawalRequestDecision d => rw [hb] at h; exact exchange_of_same h (exchangeState_withWithdrawalRequestDecision ..)
  | withdrawalRequestComplete info => rw [hb] at h; exact exchange_of_same h rfl
  | withdrawalRequestNodeRejected info => rw [hb] at h; exact exchange_of_same h rfl
  | depositAddress dep => rw [hb] at h; exact exchange_of_same h (exchangeState_withDepositAddress ..)
  | bestBtcBlock btc => rw [hb] at h; exact exchange_of_same h rfl
  | updateBtcTx tx =>
    rw [hb] at h
    refine exchange_of_stamped h (fun s₁ a ho => ?_)
    have he := exchangeState_withBtcTxUpdate s o tx
    rw [ho] at he
    rw [show s₁.exchangeState = _ from he]
    by_cases hx : s.isExchangeAddress (btcAddress tx.address) = true
    · rw [if_pos hx]
      exact .deposited tx hb hx
    · rw [if_neg hx]
      exact .same
  | cancelBtcTx tx =>
    rw [hb] at h
    refine exchange_of_stamped h (fun s₁ a ho => ?_)
    have he := exchangeState_withBtcTxCancel s o tx
    rw [ho] at he
    rw [show s₁.exchangeState = _ from he]
    by_cases hx : s.isExchangeAddress (btcAddress tx.address) = true
    · rw [if_pos hx]
      exact .canceled tx hb hx
    · rw [if_neg hx]
      exact .same
  | updateTokens req => rw [hb] at h; exact exchange_of_same h (exchangeState_updateTokens ..)
  | genInvite req => rw [hb] at h; exact exchange_of_same h (exchangeState_genInvite ..)
  | limitsChangeRequest req => rw [hb] at h; exact exchange_of_same h (exchangeState_insertLimitsReq ..)
  | cancelLimitChange req => rw [hb] at h; exact exchange_of_same h (exchangeState_updateUser ..)
  | limitChangeDecision lcd => rw [hb] at h; exact exchange_of_same h (exchangeState_withLimitChangeDecision ..)
  | clearLimits span => rw [hb] at h; exact exchange_of_same h rfl
  | setLanguage req => rw [hb] at h; exact exchange_of_same h (exchangeState_updateUser ..)
  | configUpdate req => rw [hb] at h; exact exchange_of_same h (exchangeState_updateUser ..)
  | passwordChange req => rw [hb] at h; exact exchange_of_same h (exchangeState_updateUser ..)
  | setPublicKey req => rw [hb] at h; exact exchange_of_same h (exchangeState_updateUser ..)
  | exchangeRequest req => rw [hb] at h; exact exchange_of_same h (exchangeState_addExchangeRequest ..)
  | exchangeDecision req =>
    rw [hb] at h
    refine exchange_of_stamped h (fun s₁ a ho => ?_)
    rw [exchangeState_withExchangeDecision ho]
    cases hd : s.completedOrder? req with
    | none => exact .same
    | some order => exact .settled req order hb hd
  | exchangeAddress req =>
    rw [hb] at h
    refine exchange_of_stamped h (fun s₁ a ho => ?_)
    rw [← (Prod.mk.inj ho).1]
    exact .addressed req hb

/-! ## The orders that are settled -/

/-- What a decision completes is the order that it names. -/
theorem State.completedOrder?_eq_some {s : State} {req : ExchangeDecision} {order : ExchangeOrderUpd}
    (h : s.completedOrder? req = some order) :
    ∃ ex ex', s.order? req.user req.currencyFrom req.id = some ex ∧
      ex.applyDecision EXCHANGE_NUMBER_OF_CONFIRMATIONS req = .ok (ex', true) ∧ order = ex.intoExchangeUpd := by
  obtain ⟨ex, hord, hd⟩ := Option.bind_eq_some_iff.mp h
  split at hd
  · rename_i ex' ha
    exact ⟨ex, ex', hord, ha, (Option.some.inj hd).symm.trans (ExchangeOrder.applyDecision_intoExchangeUpd ha)⟩
  · cases hd

namespace Journal

variable {j j' : Journal} {o : Oracle} {up : StateUpdate}

/-- Every order of the State is under its own id, in the account that it is paid from. -/
def OrdersKeyed (j : Journal) : Prop :=
  ∀ u c i ex, j.state.order? u c i = some ex → ex.id = i ∧ ex.user = u ∧ ex.currencyFrom = c

/-- (step) -/
theorem OrdersKeyed.store (hk : j.OrdersKeyed) (hsnap : ¬up.body.IsSnapshot) (h : j.store o up = some j') :
    j'.OrdersKeyed := by
  intro u c i ex he
  have hch := applyUpdate_order (store_answer h) hsnap u c i
  rw [he] at hch
  generalize hb : j.state.order? u c i = before at hch
  cases hch with
  | same => exact hk u c i ex hb
  | created _ req hbody hi hu hc => exact ⟨hi, hu, hc⟩
  | decided ex₀ _ req completes _ _ _ _ hd =>
    obtain ⟨hi, hu, hc⟩ := hk u c i ex₀ hb
    obtain ⟨hid, huser, hcur, -, -, -, -⟩ :=
      ExchangeOrderUpd.mk.inj (ExchangeOrder.applyDecision_intoExchangeUpd hd)
    exact ⟨hid.trans hi, huser.trans hu, hcur.trans hc⟩

/-- An order that is settled was created, and is completed where it is. -/
def SettledOnce (j : Journal) : Prop :=
  ∀ i upd, j.state.exchangeState.exchanges.get? i = some upd → i ∈ j.orders.map (·.id) ∧
    ∀ u c ex, j.state.order? u c i = some ex → ex.status = .completed

/-- An order that a decision completes is not settled yet. -/
theorem SettledOnce.not_settled {req : ExchangeDecision} {order : ExchangeOrderUpd} (h : j.SettledOnce)
    (hk : j.OrdersKeyed) (hd : j.state.completedOrder? req = some order) :
    order.id = req.id ∧ j.state.exchangeState.exchanges.get? order.id = none := by
  obtain ⟨ex, ex', hord, ha, rfl⟩ := State.completedOrder?_eq_some hd
  obtain ⟨hid, -, -⟩ := hk _ _ _ _ hord
  refine ⟨hid, ?_⟩
  change j.state.exchangeState.exchanges.get? ex.id = none
  rw [hid]
  cases hx : j.state.exchangeState.exchanges.get? req.id with
  | none => rfl
  | some upd =>
    obtain ⟨⟨m, n, hst⟩, -, -⟩ := ExchangeOrder.applyDecision_eq_ok ha
    rw [(h _ _ hx).2 _ _ _ hord] at hst
    cases hst

/-- (step) -/
theorem SettledOnce.store (hs : j.SettledOnce) (hk : j.OrdersKeyed) (hf : j.OrdersFiled) (hf' : j'.OrdersFiled)
    (hp : j.Fresh (o, up)) (h : j.store o up = some j') : j'.SettledOnce := by
  have ha := store_answer h
  -- an order that was settled before stays so
  have hkept : ∀ i, i ∈ j.orders.map (·.id) → (∀ u c ex, j.state.order? u c i = some ex → ex.status = .completed) →
      i ∈ j'.orders.map (·.id) ∧ ∀ u c ex, j'.state.order? u c i = some ex → ex.status = .completed := by
    intro i hm hdone
    refine ⟨by rw [orders_store h, List.map_append]; exact List.mem_append_left _ hm, fun u c ex he => ?_⟩
    have hch := applyUpdate_order ha hp.1 u c i
    rw [he] at hch
    generalize hb : j.state.order? u c i = before at hch
    cases hch with
    | same => exact hdone u c ex hb
    | created _ req hbody hi _ _ =>
      have hnew := hp.2.2 req (by simp [StateUpdate.order?, hbody])
      exact absurd (hi ▸ hm) hnew
    | decided ex₀ _ req completes _ _ _ _ hd =>
      obtain ⟨⟨m, n, hst⟩, -, -⟩ := ExchangeOrder.applyDecision_eq_ok hd
      rw [hdone u c ex₀ hb] at hst
      cases hst
  have hch := applyUpdate_exchangeState ha hp.1
  intro i upd hi
  generalize he : j'.state.exchangeState = e' at hch hi
  cases hch with
  | same => exact hkept i (hs i upd hi).1 (hs i upd hi).2
  | deposited tx hbody hx =>
    have hsame : (j.state.exchangeState.processIncomingBtcTx tx).exchanges = j.state.exchangeState.exchanges := by
      unfold ExchangeState.processIncomingBtcTx
      repeat' split
      all_goals rfl
    rw [hsame] at hi
    exact hkept i (hs i upd hi).1 (hs i upd hi).2
  | canceled tx hbody hx =>
    have hsame : (j.state.exchangeState.cancelBtcTx tx).exchanges = j.state.exchangeState.exchanges := by
      unfold ExchangeState.cancelBtcTx
      split <;> rfl
    rw [hsame] at hi
    exact hkept i (hs i upd hi).1 (hs i upd hi).2
  | addressed req _ => exact hkept i (hs i upd hi).1 (hs i upd hi).2
  | settled req order hbody hd =>
    have hget : (j.state.exchangeState.processOrder order).exchanges.get? i =
        if i = order.id then some order else j.state.exchangeState.exchanges.get? i := AssocMap.get?_insert ..
    rw [hget] at hi
    by_cases hid : i = order.id
    · -- the decision completes the order where it is, and that is the only place
      obtain ⟨ex, ex', hord, hdec, rfl⟩ := State.completedOrder?_eq_some hd
      obtain ⟨req₀, hm₀, hi₀, -, -⟩ := hf.filed hord
      obtain ⟨hkey, -, -⟩ := hk _ _ _ _ hord
      have hreq : i = req.id := hid.trans hkey
      refine ⟨?_, fun u c ex₁ he₁ => ?_⟩
      · rw [orders_store h, List.map_append, hreq, ← hi₀]
        exact List.mem_append_left _ (List.mem_map_of_mem hm₀)
      · obtain ⟨ex₂, ex₂', completes, hord₂, hd₂, hafter⟩ := applyUpdate_exchanged ha hbody
        obtain rfl := Option.some.inj (hord.symm.trans hord₂)
        rw [hdec] at hd₂
        obtain ⟨rfl, rfl⟩ := Prod.mk.inj (Except.ok.inj hd₂)
        obtain rfl := hf'.unique (hreq ▸ he₁) hafter
        exact (ExchangeOrder.applyDecision_eq_ok hdec).2.2 rfl
    · rw [if_neg hid] at hi
      exact hkept i (hs i upd hi).1 (hs i upd hi).2

/-- (run) -/
theorem ordersSettled_of_reachable {P : Journal → Oracle × StateUpdate → Prop} (hP : ∀ j a, P j a → j.Fresh a)
    (h : machine.Reachable P j) : j.OrdersKeyed ∧ j.SettledOnce := by
  refine h.invariant (I := fun j => j.OrdersKeyed ∧ j.SettledOnce) ?_ ?_
  · rintro _ ⟨now, genesisHash, rfl⟩
    exact ⟨fun u c i ex he => (by cases he), fun i upd hi => (by cases hi)⟩
  · intro j a j' hj hinv hp hs
    have hf := (ordersFiled_of_reachable hP hj).1
    have hfresh := hP j a hp
    exact ⟨hinv.1.store hfresh.1 hs, hinv.2.store hinv.1 hf (hf.store hfresh hs) hfresh hs⟩

end Journal

end Hexstody
