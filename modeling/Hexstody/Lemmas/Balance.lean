import Hexstody.Lemmas.Order
import Hexstody.Library.Wrapping

/-!
# The exact balance of an account

What an account is worth in exact integers (`netBalance`): its transactions that are not conflicted and the amounts that came
in, less what its orders and requests take. The balance that the code computes, in 64-bit arithmetic and clamped at zero, is at
most that, as long as that is not negative (`balance_le_netBalance`). Every change of an account is followed by what it does to
the exact balance.
-/

namespace Hexstody

open Wrapping

/-- What a transaction counts for: its amount, unless it is conflicted. -/
def Transaction.counted (t : Transaction) : Int := if t.isConflicted then 0 else t.amount.toInt

/-- What a request takes: its amount and recorded fee, unless it is rejected. -/
def WithdrawalRequest.debit (r : WithdrawalRequest) : Int :=
  if r.isRejected then 0 else (r.amount.toNat : Int) + (r.fee.getD 0).toNat

/-- What an order takes, unless it is rejected. -/
def ExchangeOrder.debit (ex : ExchangeOrder) : Int := if ex.isRejected then 0 else ex.amountFrom.toNat

/-- The request is in progress or confirmed: it may still be paid. -/
def WithdrawalRequest.isOpen (r : WithdrawalRequest) : Bool :=
  match r.status with
  | .inProgress _ => true
  | .confirmed => true
  | _ => false

/-- What the transactions that count come to. -/
def UserCurrencyInfo.deposited (counts : Transaction → Bool) (i : UserCurrencyInfo) : Int :=
  ((i.transactions.filter counts).map (fun t => t.amount.toInt)).sum

/-- What came in. -/
def UserCurrencyInfo.received (i : UserCurrencyInfo) : Int := i.incomingExchangeRequests.sumVals (fun a => (a.toNat : Int))

/-- What the requests take. -/
def UserCurrencyInfo.withdrawn (i : UserCurrencyInfo) : Int := i.withdrawalRequests.sumVals WithdrawalRequest.debit

/-- What the orders take. -/
def UserCurrencyInfo.ordered (i : UserCurrencyInfo) : Int := i.exchangeRequests.sumVals ExchangeOrder.debit

/-- The balance, in exact integers and not clamped, of an account whose transactions are those that `counts` says. -/
def UserCurrencyInfo.exactBalance (counts : Transaction → Bool) (i : UserCurrencyInfo) : Int :=
  i.deposited counts + i.received - i.withdrawn - i.ordered

/-- What an account is worth. -/
def UserCurrencyInfo.netBalance (i : UserCurrencyInfo) : Int :=
  (i.transactions.map Transaction.counted).sum + i.incomingExchangeRequests.sumVals (fun a => (a.toNat : Int)) -
    i.exchangeRequests.sumVals ExchangeOrder.debit - i.withdrawalRequests.sumVals WithdrawalRequest.debit

theorem WithdrawalRequest.debit_nonneg (r : WithdrawalRequest) : 0 ≤ r.debit := by
  unfold debit
  by_cases h : r.isRejected = true
  · rw [if_pos h]
  · rw [if_neg h]
    omega

theorem ExchangeOrder.debit_nonneg (ex : ExchangeOrder) : 0 ≤ ex.debit := by
  unfold debit
  by_cases h : ex.isRejected = true
  · rw [if_pos h]
  · rw [if_neg h]
    omega

/-! ## The balance that is computed -/

theorem WithdrawalRequest.wrapped_debit (r : WithdrawalRequest) : Wrapped r.debit r.pending.toNat := by
  unfold debit pending
  by_cases h : r.isRejected = true
  · rw [if_pos h, if_pos h]
    exact .refl 0
  · rw [if_neg h, if_neg h]
    exact wrapped_add _ _

theorem ExchangeOrder.wrapped_debit (ex : ExchangeOrder) : Wrapped ex.debit ex.outgoing.toNat := by
  unfold debit outgoing
  by_cases h : ex.isRejected = true
  · rw [if_pos h, if_pos h]
    exact .refl 0
  · rw [if_neg h, if_neg h]
    exact .refl _

namespace UserCurrencyInfo

variable {i : UserCurrencyInfo}

/-- What the transactions count for is the sum of those that are not conflicted. -/
theorem sum_counted (l : List Transaction) : (l.map Transaction.counted).sum =
    ((l.filter (fun t => !t.isConflicted)).map (fun t => t.amount.toInt)).sum := by
  induction l with
  | nil => rfl
  | cons t l ih =>
    by_cases h : t.isConflicted = true
    · simp [Transaction.counted, h, ih]
    · simp [Transaction.counted, h, ih]

/-- The transactions that count, summed up in 64 bits. -/
theorem wrapped_transactions (l : List Transaction) :
    Wrapped (l.map Transaction.counted).sum ((l.filter (fun t => !t.isConflicted)).map Transaction.amount).sum.toInt := by
  rw [sum_counted]
  exact wrapped_sum_signed (fun t => .refl _)

theorem netBalance_eq_exactBalance (i : UserCurrencyInfo) : i.netBalance = i.exactBalance (fun t => !t.isConflicted) := by
  unfold netBalance exactBalance deposited received withdrawn ordered
  rw [sum_counted]
  omega

/-- The balance that is computed is a signed value, clamped, that agrees with the exact balance up to a multiple of 2^64. -/
theorem wrapped_balanceOf (counts : Transaction → Bool) (i : UserCurrencyInfo) :
    ∃ x : Int64, Wrapped (i.exactBalance counts) x.toInt ∧ ((i.balanceOf counts).toNat : Int) = max 0 x.toInt := by
  have hval : Wrapped (i.received - i.withdrawn - i.ordered)
      ((i.incomingExchangeRequests.sumVals id).toInt64 - (i.withdrawalRequests.sumVals WithdrawalRequest.pending).toInt64 -
        (i.exchangeRequests.sumVals ExchangeOrder.outgoing).toInt64).toInt := by
    have hin := (wrapped_sumVals (m := i.incomingExchangeRequests) (g := id) (fun a => .refl _)).trans (wrapped_toInt64 _)
    have hreq := (wrapped_sumVals (m := i.withdrawalRequests) WithdrawalRequest.wrapped_debit).trans (wrapped_toInt64 _)
    have hord := (wrapped_sumVals (m := i.exchangeRequests) ExchangeOrder.wrapped_debit).trans (wrapped_toInt64 _)
    exact (((hin.sub hreq).trans (wrapped_sub_signed _ _)).sub hord).trans (wrapped_sub_signed _ _)
  have htx : Wrapped (i.deposited counts) ((i.transactions.filter counts).map Transaction.amount).sum.toInt :=
    wrapped_sum_signed (fun t => .refl _)
  have hnet := (htx.add hval).trans (wrapped_add_signed _ _)
  have heq : i.exactBalance counts = i.deposited counts + (i.received - i.withdrawn - i.ordered) := by
    unfold exactBalance
    omega
  exact ⟨_, heq ▸ hnet, toNat_max_zero _⟩

/-- The computed balance is at most the exact one, when that is not negative. -/
theorem balance_le_netBalance (h : 0 ≤ i.netBalance) : (i.balance.toNat : Int) ≤ i.netBalance := by
  obtain ⟨x, hx, hbal⟩ := wrapped_balanceOf (fun t => !t.isConflicted) i
  rw [netBalance_eq_exactBalance] at h ⊢
  have hle := hx.le_of_nonneg h
  have hbal : (i.balance.toNat : Int) = max 0 x.toInt := hbal
  omega

/-! ## What changes it -/

theorem netBalance_insertRequest (i : UserCurrencyInfo) (id : WithdrawalRequestId) (r : WithdrawalRequest) :
    (i.insertRequest id r).netBalance =
      i.netBalance + (i.withdrawalRequests.get? id).elim 0 WithdrawalRequest.debit - r.debit := by
  have h := AssocMap.sumVals_insert_add i.withdrawalRequests WithdrawalRequest.debit id r
  simp only [netBalance, insertRequest]
  omega

theorem netBalance_modifyRequest (i : UserCurrencyInfo) (id : WithdrawalRequestId) (f : WithdrawalRequest → WithdrawalRequest) :
    netBalance { i with withdrawalRequests := i.withdrawalRequests.modify id f } =
      i.netBalance + (i.withdrawalRequests.get? id).elim 0 WithdrawalRequest.debit -
        ((i.withdrawalRequests.get? id).map f).elim 0 WithdrawalRequest.debit := by
  have h := AssocMap.sumVals_modify_add i.withdrawalRequests WithdrawalRequest.debit id f
  simp only [netBalance]
  omega

theorem netBalance_insertExchange (i : UserCurrencyInfo) (id : ExchangeOrderId) (ex : ExchangeOrder) :
    (i.insertExchange id ex).netBalance =
      i.netBalance + (i.exchangeRequests.get? id).elim 0 ExchangeOrder.debit - ex.debit := by
  have h := AssocMap.sumVals_insert_add i.exchangeRequests ExchangeOrder.debit id ex
  simp only [netBalance, insertExchange]
  omega

theorem netBalance_modifyExchange (i : UserCurrencyInfo) (id : ExchangeOrderId) (f : ExchangeOrder → ExchangeOrder) :
    netBalance { i with exchangeRequests := i.exchangeRequests.modify id f } =
      i.netBalance + (i.exchangeRequests.get? id).elim 0 ExchangeOrder.debit -
        ((i.exchangeRequests.get? id).map f).elim 0 ExchangeOrder.debit := by
  have h := AssocMap.sumVals_modify_add i.exchangeRequests ExchangeOrder.debit id f
  simp only [netBalance]
  omega

theorem netBalance_insertIncoming (id : ExchangeOrderId) (amount : UInt64) (h : i.incomingExchangeRequests.get? id = none) :
    (i.insertIncoming id amount).netBalance = i.netBalance + amount.toNat := by
  have hsum := AssocMap.sumVals_insert_add i.incomingExchangeRequests (fun a => (a.toNat : Int)) id amount
  rw [h, Option.elim_none] at hsum
  simp only [netBalance, insertIncoming]
  omega

/-! ## Requests -/

end UserCurrencyInfo

/-- A vote does not make a request take more. -/
theorem WithdrawalRequest.applyDecision_debit {r r' : WithdrawalRequest} {d : WithdrawalRequestDecisionInfo}
    {confirmed : Option WithdrawalRequestId} (h : r.applyDecision d = .ok (r', confirmed)) : r'.debit ≤ r.debit := by
  obtain ⟨n, hst, -⟩ := applyDecision_eq_ok h
  have hr : r.debit = (r.amount.toNat : Int) + 0 := by
    rw [debit, isRejected, fee, hst]
    rfl
  -- before it is sent a request has no fee, and a rejected one takes nothing
  have hr' : r'.debit ≤ (r'.amount.toNat : Int) + 0 := by
    rcases applyDecision_status h with ⟨-, hst', -⟩ | ⟨-, hst', -⟩ | ⟨-, -, ⟨m, hst'⟩, -⟩
    · rw [debit, isRejected, fee, hst']
      exact le_rfl
    · rw [debit, isRejected, hst']
      exact Int.natCast_nonneg _
    · rw [debit, isRejected, fee, hst']
      exact le_rfl
  rw [(applyDecision_sameOrder h).amount] at hr'
  omega

/-- A vote does not make an order take more. -/
theorem ExchangeOrder.applyDecision_debit {t : Int16} {ex ex' : ExchangeOrder} {req : ExchangeDecision} {completes : Bool}
    (h : ex.applyDecision t req = .ok (ex', completes)) : ex'.debit ≤ ex.debit := by
  obtain ⟨⟨m, n, hst⟩, hamount, -⟩ := applyDecision_eq_ok h
  have hex : ex.debit = ex.amountFrom.toNat := by simp [debit, isRejected, hst]
  rw [hex, debit, hamount]
  by_cases hr : ex'.isRejected = true
  · rw [if_pos hr]
    omega
  · rw [if_neg hr]

/-! ## Deposits -/

/-- A record does not count for less after the update of it. -/
def Transaction.KeptBy (tx : BtcTransaction) : Transaction → Prop
  | .btc old => old.isSameBtcTx tx = true → Transaction.counted (.btc old) ≤ Transaction.counted (.btc tx)
  | .eth _ => True

/-- The record is not the one that is cancelled. -/
def Transaction.OtherThan (tx : BtcTxCancel) : Transaction → Prop
  | .btc old => old.isSameBtcTxCancel tx = false
  | .eth _ => True

instance (tx : BtcTransaction) (t : Transaction) : Decidable (t.KeptBy tx) :=
  match t with
  | .btc _ => inferInstanceAs (Decidable (_ → _))
  | .eth _ => isTrue trivial

instance (tx : BtcTxCancel) (t : Transaction) : Decidable (t.OtherThan tx) :=
  match t with
  | .btc _ => inferInstanceAs (Decidable (_ = false))
  | .eth _ => isTrue trivial

namespace UserCurrencyInfo

variable {i : UserCurrencyInfo}

/-- A deposit, or an update of one that does not count it for less, makes an account worth no less. -/
theorem netBalance_updateBtcTx {tx : BtcTransaction} (h : tx.amount ≥ 0 → ∀ t ∈ i.transactions, t.KeptBy tx) :
    i.netBalance ≤ (i.updateBtcTx tx).netBalance := by
  unfold updateBtcTx
  by_cases ha : tx.amount ≥ 0
  · rw [if_pos ha]
    simp only [netBalance]
    cases hr : replaceBtcTx (·.isSameBtcTx tx) tx i.transactions with
    | none =>
      have hcounted : 0 ≤ Transaction.counted (.btc tx) := by
        unfold Transaction.counted
        by_cases hc : (Transaction.btc tx).isConflicted = true
        · rw [if_pos hc]
        · rw [if_neg hc]
          exact Int64.le_iff_toInt_le.mp ha
      simp only [Option.getD_none, List.map_append, List.sum_append, List.map_cons, List.map_nil, List.sum_singleton]
      omega
    | some l' =>
      obtain ⟨pre, old, post, hl, hp, rfl⟩ := replaceBtcTx_eq_some hr
      have hle := h ha (.btc old) (by rw [hl]; simp) hp
      rw [hl]
      simp only [Option.getD_some, List.map_append, List.sum_append, List.map_cons, List.sum_cons]
      omega
  · rw [if_neg ha]

/-- A cancellation of another transaction leaves an account as it is. -/
theorem cancelBtcTx_of_otherThan {tx : BtcTxCancel} (h : ∀ t ∈ i.transactions, t.OtherThan tx) : i.cancelBtcTx tx = i := by
  unfold cancelBtcTx
  cases hr : removeBtcTx (·.isSameBtcTxCancel tx) i.transactions with
  | none => rfl
  | some l' =>
    obtain ⟨pre, old, post, hl, hp, -⟩ := removeBtcTx_eq_some hr
    have hn := h (.btc old) (by rw [hl]; simp)
    rw [show old.isSameBtcTxCancel tx = false from hn] at hp
    cases hp

/-! ## Exchanges -/

/-- A decision on an order, which credits an amount only once, makes an account worth no less. -/
theorem netBalance_afterExchange {c : Currency} {req : ExchangeDecision} {ex ex' : ExchangeOrder} {completes : Bool}
    (hfrom : c = req.currencyFrom → i.exchangeRequests.get? req.id = some ex) (hd : ex'.debit ≤ ex.debit)
    (hto : completes = true → c = req.currencyTo → i.incomingExchangeRequests.get? req.id = none) :
    i.netBalance ≤ (i.afterExchange c req ex' completes).netBalance := by
  -- the two steps, one after the other
  have key : ∀ i₁ : UserCurrencyInfo, i.netBalance ≤ i₁.netBalance →
      i₁.incomingExchangeRequests = i.incomingExchangeRequests →
      i.netBalance ≤ (if completes = true ∧ c = req.currencyTo then i₁.insertIncoming req.id req.amountTo else i₁).netBalance := by
    intro i₁ hle hin
    by_cases h : completes = true ∧ c = req.currencyTo
    · have hnone := hto h.1 h.2
      rw [← hin] at hnone
      rw [if_pos h, netBalance_insertIncoming _ _ hnone]
      omega
    · rw [if_neg h]
      exact hle
  refine key _ ?_ ?_
  · by_cases hc : c = req.currencyFrom
    · rw [if_pos hc, netBalance_modifyExchange, hfrom hc]
      simp only [Option.map_some, Option.elim_some]
      omega
    · rw [if_neg hc]
  · by_cases hc : c = req.currencyFrom
    · rw [if_pos hc]
    · rw [if_neg hc]

end UserCurrencyInfo

end Hexstody
