import Hexstody.Handlers
import Hexstody.Library.Checked
import Hexstody.Lemmas.Balance
import Hexstody.Lemmas.Deposits
import Hexstody.Lemmas.World

/-!
# When the balances are exact

The balances are computed from four sums in 64-bit arithmetic, with casts between unsigned and signed. `checkedBalanceOf` is the
same computation with every operation checked: it stops where a sum, a difference or a cast would change a value. In every State
that the hot wallet reaches it goes through, and comes to the exact balance, exactly while the sums of the account stay below
2^63 (`Bounded`): nothing keeps them there, as a withdrawal in ether or of a token is accepted with any amount. While they do, a
new withdrawal never makes a balance larger.
-/

namespace Hexstody

open Wrapping

/-! ## The computation, checked -/

/-- What a request takes from the balance, checked. -/
def WithdrawalRequest.pending? (r : WithdrawalRequest) : Option UInt64 :=
  if r.isRejected then some 0 else u64.check ((r.amount.toNat : Int) + (r.fee.getD 0).toNat)

namespace UserCurrencyInfo

variable {i : UserCurrencyInfo} {counts : Transaction → Bool}

/-- The balance of an account whose transactions are those that `counts` says, with every operation checked. -/
def checkedBalanceOf (counts : Transaction → Bool) (i : UserCurrencyInfo) : Option UInt64 := do
  let txSum ← i64.sum (fun t => some t.amount) (i.transactions.filter counts)
  let pendingWithdrawals ← u64.sum WithdrawalRequest.pending? i.withdrawalRequests.values
  let incoming ← u64.sum some i.incomingExchangeRequests.values
  let outgoing ← u64.sum (fun ex => some ex.outgoing) i.exchangeRequests.values
  let incoming ← i64.check incoming.toNat
  let pendingWithdrawals ← i64.check pendingWithdrawals.toNat
  let outgoing ← i64.check outgoing.toNat
  let left ← i64.check (incoming.toInt - pendingWithdrawals.toInt)
  let val ← i64.check (left.toInt - outgoing.toInt)
  let total ← i64.check (txSum.toInt + val.toInt)
  u64.check (max 0 total.toInt)

/-- The balance is computed without any operation changing a value, and is the exact one, clamped at zero. -/
def ExactFor (counts : Transaction → Bool) (i : UserCurrencyInfo) : Prop :=
  ∃ b, i.checkedBalanceOf counts = some b ∧ i.balanceOf counts = b ∧ (b.toNat : Int) = max 0 (i.exactBalance counts)

/-- Both balances are exact. -/
def BalancesExact (i : UserCurrencyInfo) : Prop :=
  i.ExactFor (fun t => !t.isConflicted) ∧ i.ExactFor Transaction.isFinalized

/-- The sums of an account are small enough. -/
structure BoundedFor (counts : Transaction → Bool) (i : UserCurrencyInfo) : Prop where
  received : i.received < 9223372036854775808
  withdrawn : i.withdrawn < 9223372036854775808
  ordered : i.ordered < 9223372036854775808
  owed : i.withdrawn + i.ordered ≤ i.received + 9223372036854775808
  deposited : i.deposited counts < 9223372036854775808
  total : i.exactBalance counts < 9223372036854775808

/-- The sums of an account are small enough: those of the transactions that are not conflicted bound those that are final. -/
abbrev Bounded (i : UserCurrencyInfo) : Prop := i.BoundedFor (fun t => !t.isConflicted)

instance (counts : Transaction → Bool) (i : UserCurrencyInfo) : Decidable (i.BoundedFor counts) :=
  decidable_of_iff
    (i.received < 9223372036854775808 ∧ i.withdrawn < 9223372036854775808 ∧ i.ordered < 9223372036854775808 ∧
      i.withdrawn + i.ordered ≤ i.received + 9223372036854775808 ∧ i.deposited counts < 9223372036854775808 ∧
      i.exactBalance counts < 9223372036854775808)
    ⟨fun h => ⟨h.1, h.2.1, h.2.2.1, h.2.2.2.1, h.2.2.2.2.1, h.2.2.2.2.2⟩,
      fun h => ⟨h.received, h.withdrawn, h.ordered, h.owed, h.deposited, h.total⟩⟩

/-- No transaction takes anything from the account. -/
def DepositsOnly (i : UserCurrencyInfo) : Prop := ∀ t ∈ i.transactions, 0 ≤ t.amount.toInt

/-! ## The sums -/

theorem received_nonneg (i : UserCurrencyInfo) : 0 ≤ i.received :=
  AssocMap.sumVals_nonneg _ (fun _ => Int.natCast_nonneg _)

theorem withdrawn_nonneg (i : UserCurrencyInfo) : 0 ≤ i.withdrawn :=
  AssocMap.sumVals_nonneg _ WithdrawalRequest.debit_nonneg

theorem ordered_nonneg (i : UserCurrencyInfo) : 0 ≤ i.ordered :=
  AssocMap.sumVals_nonneg _ ExchangeOrder.debit_nonneg

theorem DepositsOnly.deposited_nonneg (h : i.DepositsOnly) (counts : Transaction → Bool) : 0 ≤ i.deposited counts := by
  refine List.sum_nonneg fun n hn => ?_
  obtain ⟨t, ht, rfl⟩ := List.mem_map.mp hn
  exact h t (List.mem_filter.mp ht).1

/-- Where more transactions count, they come to more. -/
theorem DepositsOnly.deposited_mono {p q : Transaction → Bool} (h : i.DepositsOnly) (hpq : ∀ t, p t = true → q t = true) :
    i.deposited p ≤ i.deposited q := by
  have key : ∀ l : List Transaction, (∀ t ∈ l, 0 ≤ t.amount.toInt) →
      ((l.filter p).map (fun t => t.amount.toInt)).sum ≤ ((l.filter q).map (fun t => t.amount.toInt)).sum := by
    intro l
    induction l with
    | nil => exact fun _ => le_rfl
    | cons t l ih =>
      intro h0
      have ih := ih (fun t' ht' => h0 t' (List.mem_cons_of_mem _ ht'))
      have ht0 := h0 t (List.mem_cons_self ..)
      by_cases hp : p t = true
      · rw [List.filter_cons_of_pos hp, List.filter_cons_of_pos (hpq t hp)]
        simp only [List.map_cons, List.sum_cons]
        omega
      · rw [List.filter_cons_of_neg hp]
        by_cases hq : q t = true
        · rw [List.filter_cons_of_pos hq]
          simp only [List.map_cons, List.sum_cons]
          omega
        · rw [List.filter_cons_of_neg hq]
          exact ih
  exact key i.transactions h

/-- A final transaction is not conflicted. -/
theorem not_isConflicted_of_isFinalized (t : Transaction) (h : t.isFinalized = true) : (!t.isConflicted) = true := by
  cases t with
  | btc tx =>
    simp only [Transaction.isFinalized, decide_eq_true_eq] at h
    have hne : tx.confirmations ≠ 0 := fun hz => by rw [hz] at h; exact absurd h (by decide)
    simp [Transaction.isConflicted, hne]
  | eth tx =>
    simp only [Transaction.isFinalized, decide_eq_true_eq] at h
    have hnot : ¬tx.confirmations < 0 := fun hz => absurd (Int64.lt_trans h hz) (by decide)
    simp [Transaction.isConflicted, hnot]

theorem DepositsOnly.bounded_finalized (h : i.DepositsOnly) (hb : i.Bounded) : i.BoundedFor Transaction.isFinalized := by
  have hle := h.deposited_mono not_isConflicted_of_isFinalized
  have hd := hb.deposited
  have ht := hb.total
  refine ⟨hb.received, hb.withdrawn, hb.ordered, hb.owed, by omega, ?_⟩
  unfold exactBalance at ht ⊢
  omega

/-! ## The checked computation -/

theorem sum_transactions_eq_some_iff (h : i.DepositsOnly) {x : Int64} :
    i64.sum (fun t => some (Transaction.amount t)) (i.transactions.filter counts) = some x ↔ x.toInt = i.deposited counts := by
  refine i64.sum_eq_some_iff (e := fun t => t.amount.toInt) (fun t _ y => ?_) (fun t ht => h t (List.mem_filter.mp ht).1)
  constructor
  · intro hy
    obtain rfl := Option.some.inj hy
    rfl
  · intro hy
    rw [Int64.toInt_inj.mp hy]

theorem pending?_eq_some_iff {r : WithdrawalRequest} {y : UInt64} : r.pending? = some y ↔ (y.toNat : Int) = r.debit := by
  unfold WithdrawalRequest.pending? WithdrawalRequest.debit
  by_cases hr : r.isRejected = true
  · rw [if_pos hr, if_pos hr]
    rw [← u64_check_eq_some_iff]
    rfl
  · rw [if_neg hr, if_neg hr]
    exact u64.check_eq_some_iff

theorem sum_withdrawals_eq_some_iff {x : UInt64} :
    u64.sum WithdrawalRequest.pending? i.withdrawalRequests.values = some x ↔ (x.toNat : Int) = i.withdrawn :=
  u64.sum_eq_some_iff (fun _ _ _ => pending?_eq_some_iff) (fun r _ => r.debit_nonneg)

theorem sum_incoming_eq_some_iff {x : UInt64} :
    u64.sum some i.incomingExchangeRequests.values = some x ↔ (x.toNat : Int) = i.received := by
  refine u64.sum_eq_some_iff (e := fun a : UInt64 => (a.toNat : Int)) (fun a _ y => ?_) (fun a _ => Int.natCast_nonneg _)
  constructor
  · intro hy
    obtain rfl := Option.some.inj hy
    rfl
  · intro hy
    rw [UInt64.toNat_inj.mp (Int.ofNat.inj hy)]

theorem sum_orders_eq_some_iff {x : UInt64} :
    u64.sum (fun ex => some (ExchangeOrder.outgoing ex)) i.exchangeRequests.values = some x ↔ (x.toNat : Int) = i.ordered := by
  refine u64.sum_eq_some_iff (e := ExchangeOrder.debit) (fun ex _ y => ?_) (fun ex _ => ex.debit_nonneg)
  have hout : (ex.outgoing.toNat : Int) = ex.debit := by
    unfold ExchangeOrder.outgoing ExchangeOrder.debit
    split <;> rfl
  constructor
  · intro hy
    obtain rfl := Option.some.inj hy
    exact hout
  · intro hy
    rw [← hout] at hy
    rw [UInt64.toNat_inj.mp (Int.ofNat.inj hy)]

/-- The checked computation goes through just where the sums are small enough, and comes to the exact balance. -/
theorem checkedBalanceOf_eq_some_iff (h : i.DepositsOnly) {b : UInt64} :
    i.checkedBalanceOf counts = some b ↔ i.BoundedFor counts ∧ (b.toNat : Int) = max 0 (i.exactBalance counts) := by
  have hr0 := i.received_nonneg
  have hw0 := i.withdrawn_nonneg
  have ho0 := i.ordered_nonneg
  have hd0 := h.deposited_nonneg counts
  simp only [checkedBalanceOf, Option.bind_eq_bind, Option.bind_eq_some_iff, sum_transactions_eq_some_iff h,
    sum_withdrawals_eq_some_iff, sum_incoming_eq_some_iff, sum_orders_eq_some_iff, i64_check_eq_some_iff, u64_check_eq_some_iff]
  constructor
  · rintro ⟨txSum, htx, w, hw, r, hr, o, ho, r', hr', w', hw', o', ho', left, hleft, val, hval, total, htotal, hb⟩
    have htotal' := fits_toInt total
    have hr'' := fits_toInt r'
    have hw'' := fits_toInt w'
    have ho'' := fits_toInt o'
    have hval' := fits_toInt val
    have htx' := fits_toInt txSum
    unfold Fits at htotal' hr'' hw'' ho'' hval' htx'
    have heq : i.exactBalance counts = i.deposited counts + i.received - i.withdrawn - i.ordered := rfl
    exact ⟨⟨by omega, by omega, by omega, by omega, by omega, by omega⟩, by omega⟩
  · rintro ⟨⟨hr, hw, ho, howed, hd, ht⟩, hb⟩
    have heq : i.exactBalance counts = i.deposited counts + i.received - i.withdrawn - i.ordered := rfl
    obtain ⟨txSum, htx⟩ := exists_toInt_eq (n := i.deposited counts) ⟨by omega, by omega⟩
    obtain ⟨w, hw'⟩ := exists_toNat_eq hw0 (by omega)
    obtain ⟨r, hr'⟩ := exists_toNat_eq hr0 (by omega)
    obtain ⟨o, ho'⟩ := exists_toNat_eq ho0 (by omega)
    obtain ⟨r', hr''⟩ := exists_toInt_eq (n := r.toNat) ⟨by omega, by omega⟩
    obtain ⟨w', hw''⟩ := exists_toInt_eq (n := w.toNat) ⟨by omega, by omega⟩
    obtain ⟨o', ho''⟩ := exists_toInt_eq (n := o.toNat) ⟨by omega, by omega⟩
    obtain ⟨left, hleft⟩ := exists_toInt_eq (n := r'.toInt - w'.toInt) ⟨by omega, by omega⟩
    obtain ⟨val, hval⟩ := exists_toInt_eq (n := left.toInt - o'.toInt) ⟨by omega, by omega⟩
    obtain ⟨total, htotal⟩ := exists_toInt_eq (n := txSum.toInt + val.toInt) ⟨by omega, by omega⟩
    exact ⟨txSum, htx, w, hw', r, hr', o, ho', r', hr'', w', hw'', o', ho'', left, hleft, val, hval, total, htotal, by omega⟩

/-- A computation that no operation stops comes to what the code computes. -/
theorem exactFor_iff (h : i.DepositsOnly) : i.ExactFor counts ↔ i.BoundedFor counts := by
  constructor
  · rintro ⟨b, hb, -, -⟩
    exact ((checkedBalanceOf_eq_some_iff h).mp hb).1
  · intro hbound
    obtain ⟨x, hx, hbal⟩ := wrapped_balanceOf counts i
    have hlo : -9223372036854775808 ≤ i.exactBalance counts := by
      have hd0 := h.deposited_nonneg counts
      have howed := hbound.owed
      have heq : i.exactBalance counts = i.deposited counts + i.received - i.withdrawn - i.ordered := rfl
      omega
    have hfit : x.toInt = i.exactBalance counts := hx.eq_iff.mpr ⟨hlo, hbound.total⟩
    rw [hfit] at hbal
    exact ⟨i.balanceOf counts, (checkedBalanceOf_eq_some_iff h).mpr ⟨hbound, hbal⟩, rfl, hbal⟩

theorem DepositsOnly.balancesExact_iff (h : i.DepositsOnly) : i.BalancesExact ↔ i.Bounded := by
  unfold BalancesExact
  rw [exactFor_iff h, exactFor_iff h]
  exact ⟨And.left, fun hb => ⟨hb, h.bounded_finalized hb⟩⟩

end UserCurrencyInfo

/-! ## Runs -/

/-- (step) No update puts a transaction in an account that takes something from it. -/
theorem depositsOnly_of_change {s : State} {up : StateUpdate} {u : UserId} {c : Currency} {before after : Option UserCurrencyInfo}
    (h : AccountChange s up u c before after) (h0 : ∀ i, before = some i → i.DepositsOnly) :
    ∀ i, after = some i → i.DepositsOnly := by
  intro i' hi'
  cases h with
  | same => exact h0 i' hi'
  | opened =>
    obtain rfl := Option.some.inj hi'
    exact fun t ht => by cases ht
  | closed => cases hi'
  | requested i | voted i | completed i | nodeRejected i | addressed i | limited i | ordered i =>
    obtain rfl := Option.some.inj hi'
    exact h0 i rfl
  | deposited i tx _ _ =>
    obtain rfl := Option.some.inj hi'
    by_cases hpos : tx.amount ≥ 0
    · intro t ht
      rw [updateBtcTx_transactions hpos] at ht
      rcases mem_of_mem_recorded ht with rfl | ht
      · exact Int64.le_iff_toInt_le.mp hpos
      · exact h0 i rfl t ht
    · rw [UserCurrencyInfo.updateBtcTx, if_neg hpos]
      exact h0 i rfl
  | canceled i tx owner rid _ _ _ =>
    obtain rfl := Option.some.inj hi'
    have hkeep : (i.afterCancel tx owner rid).transactions = (if owner then i.cancelBtcTx tx else i).transactions := by
      cases rid <;> rfl
    intro t ht
    rw [hkeep] at ht
    cases owner with
    | false => exact h0 i rfl t ht
    | true => exact h0 i rfl t (mem_of_mem_unrecorded ht)
  | cleared i span _ =>
    obtain rfl := Option.some.inj hi'
    rw [UserCurrencyInfo.clearLimit_eq]
    exact h0 i rfl
  | exchanged i k req ex ex' completes _ _ _ _ _ =>
    obtain rfl := Option.some.inj hi'
    rw [UserCurrencyInfo.afterExchange_eq]
    exact h0 i rfl

/-- (run) -/
theorem Journal.depositsOnly_of_reachable {j : Journal} (h : machine.Reachable Fresh j) {u : UserId} {c : Currency}
    {i : UserCurrencyInfo} (hi : j.state.currency? u c = some i) : i.DepositsOnly := by
  have hinv : ∀ u c i, j.state.currency? u c = some i → i.DepositsOnly := by
    refine h.invariant (I := fun j => ∀ u c i, j.state.currency? u c = some i → i.DepositsOnly) ?_ ?_
    · rintro _ ⟨now, genesisHash, rfl⟩ u c i hi
      cases hi
    · intro j a j' _ hj hp hs u c i hi
      have hch := applyUpdate_account (store_answer hs) hp.1 u c
      exact depositsOnly_of_change hch (hj u c) i hi
  exact hinv u c i hi

/-- A new request in an account, under a new id, takes its amount from what the account is worth. -/
theorem UserCurrencyInfo.exactBalance_insertRequest {i : UserCurrencyInfo} {id : WithdrawalRequestId}
    (counts : Transaction → Bool) (r : WithdrawalRequest) (hnew : i.withdrawalRequests.get? id = none) :
    (i.insertRequest id r).exactBalance counts = i.exactBalance counts - r.debit := by
  have h := AssocMap.sumVals_insert_add i.withdrawalRequests WithdrawalRequest.debit id r
  rw [hnew, Option.elim_none] at h
  simp only [exactBalance, deposited, received, withdrawn, ordered, insertRequest]
  omega

/-- A new withdrawal changes the one account that it is in. -/
theorem State.account_of_createWithdrawalRequest {s s' : State} {o : Oracle} {up : StateUpdate} {res : Option UpdateResult}
    {info : WithdrawalRequestInfo} (hb : up.body = .createWithdrawalRequest info) (h : s.applyUpdate o up = (s', .ok res))
    (u : UserId) (c : Currency) :
    s'.currency? u c = s.currency? u c ∨ ∃ i, s.currency? u c = some i ∧ info.user = u ∧ info.address.currency = c ∧
      s'.currency? u c = some (i.insertRequest info.id (.ofInfo up.created info)) := by
  unfold applyUpdate at h
  rw [hb] at h
  obtain ⟨s₁, a, hout, rfl, -⟩ := stamped_eq_ok h
  obtain ⟨i, hi, rfl, -⟩ := withNewWithdrawalRequest_eq_ok hout
  have hcur := currency?_modifyCurrency s u info.user c info.address.currency (·.insertRequest info.id (.ofInfo up.created info))
  by_cases huc : u = info.user ∧ c = info.address.currency
  · obtain ⟨rfl, rfl⟩ := huc
    rw [if_pos ⟨rfl, rfl⟩, hi] at hcur
    exact Or.inr ⟨i, hi, rfl, rfl, hcur⟩
  · rw [if_neg huc] at hcur
    exact Or.inl hcur

namespace World

variable {ι : Type} {C : Client ι} {k : Clock} {w : World}

/-- In every State that the hot wallet reaches, over any handlers, the balances of an account are exact just when its sums are
small enough, and a new withdrawal does not make the balance of an account larger whose sums are and stay so. -/
theorem balances_exact_iff (h : (machine C k).Reachable Machine.anyStep w) :
    (∀ u c i, w.journal.state.currency? u c = some i → (i.BalancesExact ↔ i.Bounded)) ∧
      ∀ o w' up info, (machine C k).step w (.apply o true) = some w' → w.updates.head? = some up →
        up.body = .createWithdrawalRequest info → ∀ u c i i', w.journal.state.currency? u c = some i →
          w'.journal.state.currency? u c = some i' → i.Bounded → i'.Bounded → i'.balance ≤ i.balance := by
  have hj : Journal.machine.Reachable Journal.Fresh w.journal :=
    (journal_reachable (Q := fun _ _ => True) h (fun _ _ _ _ _ _ _ _ _ => trivial)).mono (fun _ _ hp => hp.1)
  refine ⟨fun u c i hi => (Journal.depositsOnly_of_reachable hj hi).balancesExact_iff, ?_⟩
  intro o w' up info hs hup hb u c i i' hi hi' hbound hbound'
  cases step_eq_some hs with
  | dropped =>
    obtain rfl := Option.some.inj (hi.symm.trans hi')
    exact UInt64.le_refl _
  | applied _ u₀ us j' hu hst =>
    obtain rfl : u₀ = up := by
      rw [hu] at hup
      exact Option.some.inj hup
    have hfresh := (issued_of_reachable h).fresh (o := o) hu
    have hj' : Journal.machine.Reachable Journal.Fresh j' := .step hj hfresh hst
    rcases State.account_of_createWithdrawalRequest hb (Journal.store_answer hst) u c with hsame | ⟨i₀, hi₀, -, -, hnew⟩
    · obtain rfl := Option.some.inj (hi'.symm.trans (hsame.trans hi))
      exact UInt64.le_refl _
    · obtain rfl := Option.some.inj (hi₀.symm.trans hi)
      have hnone : i₀.withdrawalRequests.get? info.id = none := by
        by_contra hne
        obtain ⟨r, hr⟩ := Option.ne_none_iff_exists'.mp hne
        have hmem := (filed_of_reachable h).mem ((State.request?_of_currency? hi info.id).trans hr)
        exact hfresh.2.1 (.ofInfo u₀.created info) (by simp [StateUpdate.request?, hb]) hmem
      obtain ⟨b, -, hbal, hexact⟩ := ((Journal.depositsOnly_of_reachable hj hi).balancesExact_iff.mpr hbound).1
      obtain ⟨b', -, hbal', hexact'⟩ := ((Journal.depositsOnly_of_reachable hj' hi').balancesExact_iff.mpr hbound').1
      obtain rfl := Option.some.inj (hnew.symm.trans hi')
      rw [UserCurrencyInfo.exactBalance_insertRequest _ _ hnone] at hexact'
      have hdebit := (WithdrawalRequest.ofInfo u₀.created info).debit_nonneg
      refine UInt64.le_iff_toNat_le.mpr ?_
      rw [UserCurrencyInfo.balance, UserCurrencyInfo.balance, hbal, hbal']
      omega

/-- Alice's withdrawal of part of her deposit is applied, and her balance is exact before it and no larger after it. -/
theorem balances_exact_iff_withdrawn : ∃ (w w' : World) (i i' : UserCurrencyInfo),
    w.journal.state.currency? Sample.alice .btc = some i ∧ w'.journal.state.currency? Sample.alice .btc = some i' ∧
      i.BalancesExact ∧ i'.balance ≤ i.balance ∧ i'.balance = 400000 := by
  obtain ⟨w, hw, hq⟩ := Machine.exists_reachable (P := Machine.anyStep)
    (Sample.opening 1000000 ++ [.request (Sample.withdraw 7 600000) ⟨8⟩, .deliver 0])
    (q := fun w => w.updates.head?.any (fun up => up.request?.isSome) &&
      (w.journal.state.currency? Sample.alice .btc).any (fun i => decide i.Bounded) &&
      ((machine (hotWallet Sample.ctx) Sample.clock).step w (.apply Sample.oracle true)).any (fun w' =>
        (w'.journal.state.currency? Sample.alice .btc).any (fun i => decide i.Bounded && i.balance == 400000)))
    Sample.world_init (by decide +kernel)
  simp only [Bool.and_eq_true, Option.any_eq_true, decide_eq_true_eq, beq_iff_eq] at hq
  obtain ⟨⟨⟨up, hup, hreq⟩, i, hi, hbound⟩, w', hs, i', hi', hbound', hbal⟩ := hq
  have hbody : ∃ info, up.body = .createWithdrawalRequest info := by
    unfold StateUpdate.request? at hreq
    cases hb : up.body <;> simp [hb] at hreq ⊢
  obtain ⟨info, hb⟩ := hbody
  obtain ⟨hexact, hmono⟩ := balances_exact_iff hw
  exact ⟨w, w', i, i', hi, hi', (hexact _ _ i hi).mpr hbound, hmono _ w' up info hs hup hb _ _ i i' hi hi' hbound hbound', hbal⟩

/-- A withdrawal in ether of a little more than 2^63 makes the balance almost as large. -/
theorem withdrawal_makes_credit : ¬∀ (Γ : Ctx) (k : Clock) (w : World),
    (machine (hotWallet Γ) k).Reachable Machine.anyStep w →
    ∀ u c i, w.journal.state.currency? u c = some i → i.BalancesExact := by
  intro h
  obtain ⟨w, hw, hq⟩ := Machine.exists_reachable (P := Machine.anyStep)
    (Sample.opening 0 ++ Sample.done 8 (.postWithdraw Sample.alice
      { address := .eth { account := "out" }, amount := 9223372036854775809 } none (Sample.uuid 7)))
    (q := fun w => (w.journal.state.currency? Sample.alice .eth).any (fun (i : UserCurrencyInfo) =>
      i.balance == 9223372036854775807 && decide (i.exactBalance (fun t => !t.isConflicted) = -9223372036854775809)))
    Sample.world_init (by decide +kernel)
  obtain ⟨i, hi, hbal⟩ := (Option.any_eq_true _ _).mp hq
  obtain ⟨⟨b, -, rfl, hexact⟩, -⟩ := h Sample.ctx Sample.clock w hw Sample.alice .eth i hi
  simp only [Bool.and_eq_true, beq_iff_eq, decide_eq_true_eq] at hbal
  have hnum : (i.balance.toNat : Int) = 9223372036854775807 := by rw [hbal.1]; rfl
  rw [hbal.2] at hexact
  have hzero : (i.balance.toNat : Int) = max 0 (-9223372036854775809) := hexact
  omega

end World

end Hexstody
