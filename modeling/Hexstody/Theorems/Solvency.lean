import Hexstody.Handlers
import Hexstody.Lemmas.Reserve
import Hexstody.Lemmas.World
import Hexstody.Theorems.Admission
import Hexstody.Theorems.Exactness
import Hexstody.Theorems.Settlement

/-!
# Whether the BTC accounts stay solvent

An exchange order is checked against the balance of the account when its update is applied, and the balance that is computed is
never more than what the account is worth, so an order never makes an account insolvent. A withdrawal is checked only by its
handler, against a copy of the account that may be out of date, for its amount and a fee that is not recorded; the fee is taken when
the withdrawal is completed. In every run in which deposits stand, that check is enough for the accounts to stay solvent as long as
each withdrawal is alone: nothing else is taken from the account from the moment it is read until the withdrawal is settled, and
the fee that is recorded then is within the one that was checked (`solvent_when_alone`).
-/

namespace Hexstody

/-- The BTC accounts. -/
def State.btcAccounts (s : State) : List UserCurrencyInfo := s.users.values.filterMap (·.currencies.get? .btc)

/-- No BTC account owes more than it has. -/
def State.Solvent (s : State) : Prop := ∀ u i, s.currency? u .btc = some i → 0 ≤ i.netBalance

/-- The update cancels no deposit, and makes none conflicted or worth less. -/
def State.depositsStand (s : State) : UpdateBody → Bool
  | .updateBtcTx tx => decide (tx.amount ≥ 0 → ∀ i ∈ s.btcAccounts, ∀ t ∈ i.transactions, t.KeptBy tx)
  | .cancelBtcTx tx => decide (∀ i ∈ s.btcAccounts, ∀ t ∈ i.transactions, t.OtherThan tx)
  | _ => true

/-- A withdrawal that is completed is open, and its fee is within what was reserved for it. -/
def State.settlesOpen (reserve : WithdrawalRequestId → Nat) (s : State) : UpdateBody → Bool
  | .withdrawalRequestComplete info => decide (∀ i ∈ s.btcAccounts, ∀ r ∈ i.withdrawalRequests.get? info.id,
      r.isOpen = true ∧ (info.fee.getD 0).toNat ≤ reserve r.id)
  | _ => true

namespace UpdateBody

/-- A withdrawal of bitcoins of a user. -/
def withdrawsFrom (u : UserId) : UpdateBody → Bool
  | .createWithdrawalRequest info => info.user == u && info.address.currency == .btc
  | _ => false

/-- An order of a user that is paid in bitcoins. -/
def ordersFrom (u : UserId) : UpdateBody → Bool
  | .exchangeRequest req => req.user == u && req.currencyFrom == .btc
  | _ => false

/-- Something that takes bitcoins from a user's account. -/
def spendsFrom (u : UserId) (b : UpdateBody) : Bool := b.withdrawsFrom u || b.ordersFrom u

variable {u : UserId} {b : UpdateBody}

theorem withdrawsFrom_iff : b.withdrawsFrom u = true ↔
    ∃ info, b = .createWithdrawalRequest info ∧ info.user = u ∧ info.address.currency = .btc := by
  cases b <;> simp [withdrawsFrom]

theorem ordersFrom_iff : b.ordersFrom u = true ↔ ∃ req, b = .exchangeRequest req ∧ req.user = u ∧ req.currencyFrom = .btc := by
  cases b <;> simp [ordersFrom]

theorem spendsFrom_iff : b.spendsFrom u = true ↔ b.withdrawsFrom u = true ∨ b.ordersFrom u = true := by
  rw [spendsFrom, Bool.or_eq_true]

theorem spendsFrom_eq_false_iff : b.spendsFrom u = false ↔ b.withdrawsFrom u = false ∧ b.ordersFrom u = false := by
  rw [spendsFrom, Bool.or_eq_false_iff]

end UpdateBody

theorem State.mem_btcAccounts {s : State} {u : UserId} {i : UserCurrencyInfo} (h : s.currency? u .btc = some i) :
    i ∈ s.btcAccounts := by
  obtain ⟨ui, hu, hc⟩ := Option.bind_eq_some_iff.mp h
  exact List.mem_filterMap.mpr ⟨ui, (AssocMap.mem_values_iff s.users ui).mpr ⟨u, hu⟩, hc⟩

/-! ## What an update frees -/

section

variable {reserve : WithdrawalRequestId → Nat} {j j' : Journal} {o : Oracle} {up : StateUpdate} {u : UserId}
  {i i' : UserCurrencyInfo}

/-- (step) An account in bitcoins stays. -/
theorem btcAccount_stays {s : State} {after : Option UserCurrencyInfo} (h : AccountChange s up u .btc (some i) after) :
    ∃ i', after = some i' := by
  cases h with
  | closed _ _ _ hc => cases hc
  | _ => exact ⟨_, rfl⟩

/-- (step) An update that takes nothing from the account leaves as much free, and opens no request. -/
theorem free_of_change (hch : AccountChange j.state up u .btc (some i) (some i')) (hi : j.state.currency? u .btc = some i)
    (hcr : j.CreditedOnce) (hsp : up.body.spendsFrom u = false) (hd : j.state.depositsStand up.body = true)
    (hc : j.state.settlesOpen reserve up.body = true) :
    i.free reserve ≤ i'.free reserve ∧ (i.NoneOpen → i'.NoneOpen) := by
  have hmem := State.mem_btcAccounts hi
  cases hch with
  | same => exact ⟨le_rfl, id⟩
  | requested _ info hbody hu hcur _ =>
    rw [hbody, UpdateBody.spendsFrom_iff.mpr (Or.inl (UpdateBody.withdrawsFrom_iff.mpr ⟨info, rfl, hu, hcur⟩))] at hsp
    cases hsp
  | ordered _ req hbody hu hcur _ =>
    rw [hbody, UpdateBody.spendsFrom_iff.mpr (Or.inr (UpdateBody.ordersFrom_iff.mpr ⟨req, rfl, hu, hcur⟩))] at hsp
    cases hsp
  | voted _ d r r' confirmed hbody hu hcur hr ha =>
    refine ⟨UserCurrencyInfo.free_modifyRequest (fun r₀ hr₀ => ?_), fun hnone => ?_⟩
    · obtain rfl := Option.some.inj (hr.symm.trans hr₀)
      exact add_le_add (WithdrawalRequest.applyDecision_debit ha) (WithdrawalRequest.applyDecision_held ha)
    · have hopen := UserCurrencyInfo.noneOpen_iff.mp hnone _ _ hr
      rw [WithdrawalRequest.isOpen_of_applyDecision ha] at hopen
      cases hopen
  | completed _ info hbody =>
    rw [hbody] at hc
    exact ⟨UserCurrencyInfo.free_completed i (of_decide_eq_true hc i hmem), fun hnone => hnone.setRequestStatus _ (fun _ => rfl)⟩
  | nodeRejected _ info hbody =>
    exact ⟨UserCurrencyInfo.free_nodeRejected i _ _, fun hnone => hnone.setRequestStatus _ (fun _ => rfl)⟩
  | addressed _ address hbody hcur hn => exact ⟨le_rfl, id⟩
  | limited _ lcd hbody hu hcur hcompletes => exact ⟨le_rfl, id⟩
  | cleared _ span hbody =>
    rw [UserCurrencyInfo.clearLimit_eq]
    exact ⟨le_rfl, id⟩
  | deposited _ tx hbody _ =>
    rw [hbody] at hd
    have hreq : (i.updateBtcTx tx).withdrawalRequests = i.withdrawalRequests := by rw [UserCurrencyInfo.updateBtcTx_eq]
    refine ⟨UserCurrencyInfo.free_le_of_requests_eq hreq ?_, fun hnone => ?_⟩
    · exact UserCurrencyInfo.netBalance_updateBtcTx (fun ha => of_decide_eq_true hd ha i hmem)
    · rw [UserCurrencyInfo.NoneOpen, hreq]
      exact hnone
  | canceled _ tx owner rid hbody howner hrid =>
    rw [hbody] at hd
    have hkeep : (if owner then i.cancelBtcTx tx else i) = i := by
      cases owner with
      | true => exact UserCurrencyInfo.cancelBtcTx_of_otherThan (of_decide_eq_true hd i hmem)
      | false => rfl
    unfold UserCurrencyInfo.afterCancel
    rw [hkeep]
    cases rid with
    | none => exact ⟨le_rfl, id⟩
    | some id => exact ⟨UserCurrencyInfo.free_nodeRejected i id _, fun hnone => hnone.setRequestStatus _ (fun _ => rfl)⟩
  | exchanged _ k req ex ex' completes hbody hu hk hex ha =>
    obtain ⟨⟨m, n, hprogress⟩, -, -⟩ := ExchangeOrder.applyDecision_eq_ok ha
    have hreq : (i.afterExchange .btc req ex' completes).withdrawalRequests = i.withdrawalRequests := by
      rw [UserCurrencyInfo.afterExchange_eq]
    refine ⟨UserCurrencyInfo.free_le_of_requests_eq hreq ?_, fun hnone => ?_⟩
    · refine UserCurrencyInfo.netBalance_afterExchange ?_ (ExchangeOrder.applyDecision_debit ha) ?_
      · intro hfrom
        rw [← hfrom, hi] at hk
        obtain rfl := Option.some.inj hk
        exact hex
      · -- an order in progress has brought nothing in
        intro _ _
        by_contra hne
        obtain ⟨amount, hin⟩ := Option.ne_none_iff_exists'.mp hne
        have hincoming : j.state.incoming? u .btc req.id = some amount := by
          rw [State.incoming?, hi]
          exact hin
        have hdone := (hcr u .btc req.id amount hincoming).2 u req.currencyFrom ex (by rw [State.order?, hk]; exact hex)
        rw [hprogress] at hdone
        cases hdone
    · rw [UserCurrencyInfo.NoneOpen, hreq]
      exact hnone

/-- (step) A withdrawal takes its amount, and holds back what is reserved for it. -/
theorem free_of_withdrawal {s s' : State} {res : Option UpdateResult} {info : WithdrawalRequestInfo}
    (hb : up.body = .createWithdrawalRequest info) (ha : s.applyUpdate o up = (s', .ok res)) (hi : s.currency? u .btc = some i)
    (hi' : s'.currency? u .btc = some i') (hfree : (info.amount.toNat : Int) + reserve info.id ≤ i.free reserve) :
    0 ≤ i'.free reserve := by
  rcases State.account_of_createWithdrawalRequest hb ha u .btc with hsame | ⟨i₀, hi₀, -, -, hnew⟩
  · obtain rfl := Option.some.inj (hi'.symm.trans (hsame.trans hi))
    omega
  · obtain rfl := Option.some.inj (hi.symm.trans hi₀)
    obtain rfl := Option.some.inj (hi'.symm.trans hnew)
    have hdebit : (WithdrawalRequest.ofInfo up.created info).debit = (info.amount.toNat : Int) + 0 := rfl
    have hheld : (WithdrawalRequest.ofInfo up.created info).held reserve = reserve info.id := rfl
    refine Int.le_trans ?_ (UserCurrencyInfo.free_insertRequest i info.id (.ofInfo up.created info))
    omega

/-- (step) An order takes no more than there is, where nothing is held back: the balance that it is checked against is no more. -/
theorem free_of_order {s : State} {req : ExchangeOrderUpd} (hb : up.body = .exchangeRequest req)
    (hch : AccountChange s up u .btc (some i) (some i')) (hnone : i.NoneOpen) (hfree : 0 ≤ i.free reserve) :
    0 ≤ i'.free reserve ∧ i'.NoneOpen := by
  cases hch with
  | same => exact ⟨hfree, hnone⟩
  | ordered _ req' hbody hu hcur hle =>
    rw [hnone.free_eq] at hfree
    have hbal := UserCurrencyInfo.balance_le_netBalance hfree
    have hamount : req'.amountFrom.toNat ≤ i.balance.toNat := UInt64.le_iff_toNat_le.mp hle
    have hdebit : (ExchangeOrder.ofUpd req').debit = (req'.amountFrom.toNat : Int) := rfl
    have hnone' : (i.insertExchange req'.id (.ofUpd req')).NoneOpen := hnone
    refine ⟨?_, hnone'⟩
    rw [hnone'.free_eq, UserCurrencyInfo.netBalance_insertExchange]
    cases hr : i.exchangeRequests.get? req'.id with
    | none =>
      rw [Option.elim_none]
      omega
    | some ex =>
      have hex0 := ex.debit_nonneg
      rw [Option.elim_some]
      omega
  | _ => simp_all only [reduceCtorEq]

end

/-- The finalized balance, as it is computed, is no more than what the account is worth, where the deposits come to less than
2^63. -/
theorem UserCurrencyInfo.finalizedBalance_le_netBalance {i : UserCurrencyInfo} (hd : i.DepositsOnly) (h0 : 0 ≤ i.netBalance)
    (hlt : i.deposited (fun t => !t.isConflicted) < 2 ^ 63) : (i.finalizedBalance.toNat : Int) ≤ i.netBalance := by
  obtain ⟨x, hx, hbal⟩ := wrapped_balanceOf Transaction.isFinalized i
  have hbal : (i.finalizedBalance.toNat : Int) = max 0 x.toInt := hbal
  have hmono := hd.deposited_mono not_isConflicted_of_isFinalized
  have hpos := hd.deposited_nonneg Transaction.isFinalized
  have hnet : i.netBalance = i.deposited (fun t => !t.isConflicted) + i.received - i.withdrawn - i.ordered :=
    netBalance_eq_exactBalance i
  have hfin : i.exactBalance Transaction.isFinalized =
      i.deposited Transaction.isFinalized + i.received - i.withdrawn - i.ordered := rfl
  by_cases hneg : 0 ≤ i.exactBalance Transaction.isFinalized
  · have hle := hx.le_of_nonneg hneg
    omega
  · -- a deficit of the final transactions alone is in range, so it is shown as zero
    have heq := hx.eq_iff.mpr ⟨by omega, by omega⟩
    omega

/-! ## What the handlers ask for -/

namespace HandlerCall

variable {Γ : Ctx} {s : State} {call : HandlerCall} {b : UpdateBody} {u : UserId}

/-- A withdrawal of bitcoins is asked for by its user, whose finalized balance is enough for the amount and the fee. -/
theorem withdrawal_of_update? (hw : s.WellFormed) (h : call.update? Γ s = some b) (hb : b.withdrawsFrom u = true) :
    ∃ req rate id i info, call = .postWithdraw u req (some rate) id ∧ req.address.currency = .btc ∧
      s.currency? u .btc = some i ∧ Handlers.requiredAmount req.amount rate ≤ i.finalizedBalance ∧
        b = .createWithdrawalRequest info ∧ info.id = id ∧ info.amount = req.amount := by
  obtain ⟨info, rfl, huser, hcur⟩ := UpdateBody.withdrawsFrom_iff.mp hb
  rcases handle_cases (update?_eq_some h) with ⟨user, ui, req, feeRate, id, rfl, hu, hp⟩ | ⟨_, _, _, _, _, -, -, hp⟩ |
    ⟨_, _, hp | hp⟩ | hother
  · obtain ⟨t, hinfo, -⟩ := Handlers.postWithdraw_eq_ok hp
    obtain rfl := UpdateBody.createWithdrawalRequest.inj hinfo
    obtain rfl : user = u := (hw.username hu).symm.trans huser
    cases haddr : req.address with
    | eth a =>
      rw [haddr] at hcur
      cases hcur
    | erc20 a =>
      rw [haddr] at hcur
      cases hcur
    | btc a =>
      cases hi : ui.currencies.get? .btc with
      | none => simp [Handlers.postWithdraw, haddr, hi] at hp
      | some i =>
        cases feeRate with
        | none => simp [Handlers.postWithdraw, haddr, hi] at hp
        | some rate =>
          refine ⟨req, rate, id, i, _, rfl, by rw [haddr]; rfl, ?_, ?_, rfl, rfl, rfl⟩
          · rw [State.currency?_of_get? hu, hi]
          · exact (Handlers.exists_postWithdraw_btc_iff haddr hi).mp ⟨_, hp⟩
  · obtain ⟨upd, hupd⟩ := Handlers.orderExchange_eq_ok hp
    cases hupd
  · obtain ⟨hd, -⟩ := Handlers.decideWithdrawal_eq_ok hp
    cases hd
  · obtain ⟨hd, -⟩ := Handlers.decideWithdrawal_eq_ok hp
    cases hd
  · cases hother

/-- An order that is paid in bitcoins is asked for by its user. -/
theorem order_of_update? (hw : s.WellFormed) (h : call.update? Γ s = some b) (hb : b.ordersFrom u = true) :
    ∃ req id createdAt, call = .orderExchange u req id createdAt ∧ req.currencyFrom = .btc := by
  obtain ⟨upd, rfl, huser, hcur⟩ := UpdateBody.ordersFrom_iff.mp hb
  rcases handle_cases (update?_eq_some h) with ⟨_, _, _, _, _, -, -, hp⟩ | ⟨user, ui, req, id, createdAt, rfl, hu, hp⟩ |
    ⟨_, _, hp | hp⟩ | hother
  · obtain ⟨t, hinfo, -⟩ := Handlers.postWithdraw_eq_ok hp
    cases hinfo
  · unfold Handlers.orderExchange at hp
    split at hp
    · cases hp
    · split at hp
      · cases hp
      · obtain rfl := UpdateBody.exchangeRequest.inj (Except.ok.inj hp)
        obtain rfl : user = u := (hw.username hu).symm.trans huser
        exact ⟨req, id, createdAt, rfl, hcur⟩
  · obtain ⟨hd, -⟩ := Handlers.decideWithdrawal_eq_ok hp
    cases hd
  · obtain ⟨hd, -⟩ := Handlers.decideWithdrawal_eq_ok hp
    cases hd
  · cases hother

end HandlerCall

/-! ## A withdrawal that is alone -/

/-- A user's account in bitcoins, with the updates on their way: what is held back is there; a withdrawal on its way is covered by
what is free, and nothing else on its way takes from the account; and while an order is on its way no request is open. -/
structure Secured (reserve : WithdrawalRequestId → Nat) (u : UserId) (s : State) (onWay : List StateUpdate) : Prop where
  free : ∀ i, s.currency? u .btc = some i → 0 ≤ i.free reserve
  covered : ∀ v ∈ onWay, ∀ info, v.body = .createWithdrawalRequest info → v.body.withdrawsFrom u = true →
    ∃ i, s.currency? u .btc = some i ∧ (info.amount.toNat : Int) + reserve info.id ≤ i.free reserve
  alone : ∀ v ∈ onWay, v.body.withdrawsFrom u = true → onWay.countP (fun v => v.body.spendsFrom u) ≤ 1
  noneOpen : ∀ v ∈ onWay, v.body.ordersFrom u = true → ∀ i, s.currency? u .btc = some i → i.NoneOpen

namespace Secured

variable {reserve : WithdrawalRequestId → Nat} {u : UserId} {s : State} {onWay onWay' rest : List StateUpdate} {v : StateUpdate}

/-- Updates may be dropped, or change places. -/
theorem subperm (h : Secured reserve u s onWay) (hsub : List.Subperm onWay' onWay) : Secured reserve u s onWay' where
  free := h.free
  covered v hv := h.covered v (hsub.subset hv)
  alone v hv hw := (hsub.countP_le _).trans (h.alone v (hsub.subset hv) hw)
  noneOpen v hv := h.noneOpen v (hsub.subset hv)

/-- An update may be sent: a withdrawal that is covered where nothing takes from the account, an order where no withdrawal is on
its way and no request is open, and anything else. -/
theorem append (h : Secured reserve u s onWay)
    (hw : v.body.withdrawsFrom u = true → (∀ v' ∈ onWay, v'.body.spendsFrom u = false) ∧
      ∀ info, v.body = .createWithdrawalRequest info →
        ∃ i, s.currency? u .btc = some i ∧ (info.amount.toNat : Int) + reserve info.id ≤ i.free reserve)
    (ho : v.body.ordersFrom u = true → (∀ v' ∈ onWay, v'.body.withdrawsFrom u = false) ∧
      ∀ i, s.currency? u .btc = some i → i.NoneOpen) : Secured reserve u s (onWay ++ [v]) where
  free := h.free
  covered v' hv' info hb hu := by
    rcases List.mem_append.mp hv' with hm | hm
    · exact h.covered v' hm info hb hu
    · obtain rfl := List.mem_singleton.mp hm
      exact (hw hu).2 info hb
  alone v' hv' hu := by
    rw [List.countP_append, List.countP_singleton]
    rcases List.mem_append.mp hv' with hm | hm
    · -- a withdrawal is on its way already, so this is none, and no order
      have hspend : v.body.spendsFrom u = false := by
        refine UpdateBody.spendsFrom_eq_false_iff.mpr ⟨Bool.eq_false_iff.mpr fun hwu => ?_, Bool.eq_false_iff.mpr fun hou => ?_⟩
        · obtain ⟨hnone, -⟩ := UpdateBody.spendsFrom_eq_false_iff.mp ((hw hwu).1 v' hm)
          rw [hnone] at hu
          cases hu
        · rw [(ho hou).1 v' hm] at hu
          cases hu
      rw [hspend, if_neg Bool.false_ne_true]
      exact h.alone v' hm hu
    · obtain rfl := List.mem_singleton.mp hm
      rw [List.countP_eq_zero.mpr (fun v hv => by rw [(hw hu).1 v hv]; exact Bool.false_ne_true)]
      split <;> omega
  noneOpen v' hv' hu := by
    rcases List.mem_append.mp hv' with hm | hm
    · exact h.noneOpen v' hm hu
    · obtain rfl := List.mem_singleton.mp hm
      exact (ho hu).2

/-- An update that takes nothing from the account may be sent. -/
theorem append_other (h : Secured reserve u s onWay) (hsp : v.body.spendsFrom u = false) : Secured reserve u s (onWay ++ [v]) := by
  obtain ⟨hwnone, honone⟩ := UpdateBody.spendsFrom_eq_false_iff.mp hsp
  refine h.append (fun hw => ?_) (fun ho => ?_)
  · rw [hwnone] at hw
    cases hw
  · rw [honone] at ho
    cases ho

/-- Where one update takes from the account and no other does. -/
theorem rest_of_spending (hone : (v :: rest).countP (fun v => v.body.spendsFrom u) ≤ 1) (hv : v.body.spendsFrom u = true) :
    ∀ v' ∈ rest, v'.body.spendsFrom u = false := by
  rw [List.countP_cons_of_pos (p := fun v : StateUpdate => v.body.spendsFrom u) hv] at hone
  intro v' hv'
  have hzero := List.countP_eq_zero.mp (Nat.le_zero.mp (Nat.le_of_succ_le_succ hone)) v' hv'
  simpa using hzero

variable {j j' : Journal} {o : Oracle}

/-- (step) -/
theorem store (h : Secured reserve u j.state (v :: rest)) (hcr : j.CreditedOnce) (hfresh : j.Fresh (o, v))
    (hst : j.store o v = some j') (hd : j.state.depositsStand v.body = true) (hc : j.state.settlesOpen reserve v.body = true) :
    Secured reserve u j'.state rest := by
  have ha := Journal.store_answer hst
  have hch := applyUpdate_account ha hfresh.1 u .btc
  -- an account that is opened holds nothing back
  have hopened : ∀ {i'}, j.state.currency? u .btc = none → j'.state.currency? u .btc = some i' → 0 ≤ i'.free reserve ∧ i'.NoneOpen := by
    intro i' hn hi'
    rw [hn, hi'] at hch
    cases hch with
    | opened => exact ⟨le_rfl, fun r hr => by cases hr⟩
  have hsub : Secured reserve u j.state rest := h.subperm (List.sublist_cons_self v rest).subperm
  by_cases hw : v.body.withdrawsFrom u = true
  · -- the withdrawal was the only one
    have hrest := rest_of_spending (h.alone v (List.mem_cons_self ..) hw) (UpdateBody.spendsFrom_iff.mpr (Or.inl hw))
    have hno : ∀ v' ∈ rest, v'.body.withdrawsFrom u = false ∧ v'.body.ordersFrom u = false :=
      fun v' hv' => UpdateBody.spendsFrom_eq_false_iff.mp (hrest v' hv')
    obtain ⟨info, hb, -, -⟩ := UpdateBody.withdrawsFrom_iff.mp hw
    obtain ⟨i, hi, hle⟩ := h.covered v (List.mem_cons_self ..) info hb hw
    exact
      { free := fun i' hi' => free_of_withdrawal hb ha hi hi' hle
        covered := fun v' hv' _ _ hu => absurd hu (Bool.eq_false_iff.mp (hno v' hv').1)
        alone := fun v' hv' hu => absurd hu (Bool.eq_false_iff.mp (hno v' hv').1)
        noneOpen := fun v' hv' hu => absurd hu (Bool.eq_false_iff.mp (hno v' hv').2) }
  by_cases ho : v.body.ordersFrom u = true
  · -- an order is checked as it is applied
    have hno : ∀ v' ∈ rest, ¬v'.body.withdrawsFrom u = true := by
      intro v' hv' hu
      have hone := h.alone v' (List.mem_cons_of_mem _ hv') hu
      have hnone := rest_of_spending hone (UpdateBody.spendsFrom_iff.mpr (Or.inr ho)) v' hv'
      rw [(UpdateBody.spendsFrom_eq_false_iff.mp hnone).1] at hu
      cases hu
    obtain ⟨req, hb, -, -⟩ := UpdateBody.ordersFrom_iff.mp ho
    have hafter : ∀ i', j'.state.currency? u .btc = some i' → 0 ≤ i'.free reserve ∧ i'.NoneOpen := by
      intro i' hi'
      cases hi : j.state.currency? u .btc with
      | none => exact hopened hi hi'
      | some i =>
        rw [hi, hi'] at hch
        exact free_of_order hb hch (h.noneOpen v (List.mem_cons_self ..) ho i hi) (h.free i hi)
    exact
      { free := fun i' hi' => (hafter i' hi').1
        covered := fun v' hv' _ _ hu => absurd hu (hno v' hv')
        alone := fun v' hv' hu => absurd hu (hno v' hv')
        noneOpen := fun _ _ _ i' hi' => (hafter i' hi').2 }
  · have hsp : v.body.spendsFrom u = false :=
      UpdateBody.spendsFrom_eq_false_iff.mpr ⟨Bool.eq_false_iff.mpr hw, Bool.eq_false_iff.mpr ho⟩
    have hkept : ∀ {i i'}, j.state.currency? u .btc = some i → j'.state.currency? u .btc = some i' →
        i.free reserve ≤ i'.free reserve ∧ (i.NoneOpen → i'.NoneOpen) := by
      intro i i' hi hi'
      rw [hi, hi'] at hch
      exact free_of_change hch hi hcr hsp hd hc
    refine ⟨fun i' hi' => ?_, fun v' hv' info hb hu => ?_, hsub.alone, fun v' hv' hu i' hi' => ?_⟩
    · cases hi : j.state.currency? u .btc with
      | none => exact (hopened hi hi').1
      | some i => exact (h.free i hi).trans (hkept hi hi').1
    · obtain ⟨i, hi, hle⟩ := hsub.covered v' hv' info hb hu
      rw [hi] at hch
      obtain ⟨i', hi'⟩ := btcAccount_stays hch
      exact ⟨i', hi', hle.trans (hkept hi hi').1⟩
    · cases hi : j.state.currency? u .btc with
      | none => exact (hopened hi hi').2
      | some i => exact (hkept hi hi').2 (hsub.noneOpen v' hv' hu i hi)

end Secured

namespace World

variable {Γ : Ctx} {k : Clock} {w w' : World} {reserve : WithdrawalRequestId → Nat}

/-- The updates that are on their way. -/
def onWay (w : World) : List StateUpdate := w.updates ++ w.pending

/-- Deposits stand in the step. -/
abbrev DepositsStand {ι : Type} (w : World) (a : Action ι) : Prop := OnAccepted (fun j u => j.state.depositsStand u.body = true) w a

/-- When a handler reads an account for a withdrawal of bitcoins, nothing that takes from the account is on its way, no request of
it is open, its deposits are less than 2^63, the amount and the fee that is checked are less than 2^64, and what is reserved for the
request is within that fee. When one reads it for an order, no withdrawal is on its way, and no request is open. -/
def undisturbed (reserve : WithdrawalRequestId → Nat) (w : World) : Action HandlerCall → Bool
  | .request (.postWithdraw user req feeRate id) _ => decide (req.address.currency = .btc →
      (∀ v ∈ w.onWay, v.body.spendsFrom user = false) ∧ ∀ i ∈ w.journal.state.currency? user .btc,
        i.NoneOpen ∧ i.deposited (fun t => !t.isConflicted) < 2 ^ 63 ∧ feeRate.all (fun rate =>
          decide (req.amount.toNat + rate.toNat * 1024 < 2 ^ 64 ∧ reserve id ≤ rate.toNat * 1024)) = true)
  | .request (.orderExchange user req _ _) _ => decide (req.currencyFrom = .btc →
      (∀ v ∈ w.onWay, v.body.withdrawsFrom user = false) ∧ ∀ i ∈ w.journal.state.currency? user .btc, i.NoneOpen)
  | _ => true

/-- Each withdrawal of bitcoins is alone, from the time its account is read until it is settled, and its fee is within what was
checked. -/
abbrev Alone (reserve : WithdrawalRequestId → Nat) (w : World) (a : Action HandlerCall) : Prop :=
  undisturbed reserve w a = true ∧ OnAccepted (fun j u => j.state.settlesOpen reserve u.body = true) w a

/-- The account of every user is secured. -/
def AllSecured (reserve : WithdrawalRequestId → Nat) (w : World) : Prop := ∀ u, Secured reserve u w.journal.state w.onWay

/-- (step) The handler's check covers a withdrawal that is alone. -/
theorem AllSecured.request (h : w.AllSecured reserve) (hw : w.journal.state.WellFormed)
    (hdep : ∀ u i, w.journal.state.currency? u .btc = some i → i.DepositsOnly) {call : HandlerCall} {created : NaiveDateTime}
    {b : UpdateBody} (hb : call.update? Γ w.journal.state = some b) (hP : undisturbed reserve w (.request call created) = true)
    (u : UserId) : Secured reserve u w.journal.state (w.onWay ++ [{ created := created, body := b }]) := by
  refine (h u).append (fun hwithdraws => ?_) (fun horders => ?_)
  · obtain ⟨req, rate, id, i, info, rfl, hcur, hi, hle, rfl, rfl, hamount⟩ := HandlerCall.withdrawal_of_update? hw hb hwithdraws
    obtain ⟨hway, hacc⟩ := of_decide_eq_true hP hcur
    obtain ⟨hnone, hlt, hrate⟩ := hacc i hi
    obtain ⟨hfits, hreserve⟩ := of_decide_eq_true hrate
    refine ⟨hway, fun info' hinfo' => ?_⟩
    obtain rfl := UpdateBody.createWithdrawalRequest.inj hinfo'
    have hfree := (h u).free i hi
    rw [hnone.free_eq] at hfree
    have hbal := UserCurrencyInfo.finalizedBalance_le_netBalance (hdep u i hi) hfree hlt
    have hcheck := UInt64.le_iff_toNat_le.mp hle
    rw [(Handlers.toNat_requiredAmount hfits).2] at hcheck
    refine ⟨i, hi, ?_⟩
    rw [hnone.free_eq, hamount]
    omega
  · obtain ⟨req, id, createdAt, rfl, hcur⟩ := HandlerCall.order_of_update? hw hb horders
    obtain ⟨hway, hacc⟩ := of_decide_eq_true hP hcur
    exact ⟨hway, fun i hi => hacc i hi⟩

/-- An update that settles a request is no withdrawal and no order. -/
theorem Settles.spendsFrom {v : StateUpdate} (h : Settles v) (u : UserId) : v.body.spendsFrom u = false := by
  rcases h with ⟨info, hb⟩ | ⟨info, hb⟩ <;> rw [hb] <;> rfl

/-- (step) -/
theorem AllSecured.step (h : w.AllSecured reserve) (hr : (machine (hotWallet Γ) k).Reachable Machine.anyStep w)
    {a : Action HandlerCall} (hd : DepositsStand w a) (hP : Alone reserve w a)
    (hs : Step (hotWallet Γ) k w a w') : w'.AllSecured reserve := by
  have hj : Journal.machine.Reachable Journal.Fresh w.journal :=
    (journal_reachable (Q := fun _ _ => True) hr (fun _ _ _ _ _ _ _ _ _ => trivial)).mono (fun _ _ hp => hp.1)
  intro u
  cases hs with
  | requested call created b hb _ =>
    have hwf := (Journal.built_of_reachable (fun _ _ hp => hp) hj).wellFormed
    have hsec := h.request hwf (fun _ _ hi => Journal.depositsOnly_of_reachable hj hi) hb hP.1 u
    rw [onWay, List.append_assoc] at hsec
    exact hsec
  | delivered n v hv =>
    refine (h u).subperm (List.Perm.subperm ?_)
    obtain ⟨hn, rfl⟩ := List.getElem?_eq_some_iff.mp hv
    have hperm := List.getElem_cons_eraseIdx_perm hn
    simp only [onWay, List.append_assoc]
    exact List.Perm.append_left _ hperm
  | applied o v us j hu hst =>
    have hsec := h u
    rw [onWay, hu] at hsec
    obtain ⟨-, hcr⟩ := Journal.ordersFiled_of_reachable (fun _ _ hp => hp) hj
    exact hsec.store hcr ((issued_of_reachable hr).fresh hu) hst (hd.of_store hu hst) (hP.2.of_store hu hst)
  | dropped o stored v us hu =>
    refine (h u).subperm (List.Sublist.subperm ?_)
    simp only [onWay, hu]
    exact List.Sublist.append (List.sublist_cons_self v us) (List.Sublist.refl _)
  | sent v hv =>
    have hsec := (h u).append_other (((issued_of_reachable hr).sending v hv).spendsFrom u)
    refine hsec.subperm (List.Perm.subperm ?_)
    simp only [onWay, List.append_assoc]
    exact List.Perm.append_left _ List.perm_append_comm
  | took => exact h u
  | skipped => exact h u
  | returned => exact h u
  | paidEth => exact h u

/-- The BTC accounts are solvent in every run of the hot wallet in which deposits stand, each withdrawal of bitcoins is alone from the
time its account is read until it is settled, and the fee that is recorded of it is within the one that was checked. -/
theorem solvent_when_alone (reserve : WithdrawalRequestId → Nat)
    (h : (machine (hotWallet Γ) k).Reachable (fun w a => DepositsStand w a ∧ Alone reserve w a) w) : w.journal.state.Solvent := by
  have hsecured : w.AllSecured reserve := by
    refine h.invariant (I := fun w => w.AllSecured reserve) ?_ ?_
    · rintro _ ⟨now, genesisHash, rfl⟩ u
      exact
        { free := fun i hi => by cases hi
          covered := fun v hv => by cases hv
          alone := fun v hv => by cases hv
          noneOpen := fun v hv => by cases hv }
    · intro w a w' hw hsec hP hs
      exact hsec.step (hw.mono (fun _ _ _ => trivial)) hP.1 hP.2 (step_eq_some hs)
  intro u i hi
  exact ((hsecured u).free i hi).trans i.free_le_netBalance

/-- Alice withdraws part of what she has, pays the fee, and exchanges the rest. -/
theorem solvent_when_alone_spent : ∃ w : World,
    (w.journal.state.currency? Sample.alice .btc).map (·.netBalance) = some 0 ∧ w.journal.state.Solvent := by
  obtain ⟨w, hw, hq⟩ := Machine.exists_reachable
    (P := fun (w : World) (a : Action HandlerCall) => DepositsStand w a ∧ Alone (fun _ => 5120) w a)
    (Sample.opening 1000000 ++ Sample.done 8 (Sample.withdraw 7 600000) ++
      Sample.done 9 (.confirm (Sample.signed 1) (Sample.confirmation 7 600000)) ++
      Sample.done 10 (.confirm (Sample.signed 2) (Sample.confirmation 7 600000)) ++
      [.take Sample.oracle, .answer (Sample.paid 7 200) ⟨11⟩, .send, .apply Sample.oracle true] ++
      Sample.done 12 (.orderExchange Sample.alice
        { currencyFrom := .btc, currencyTo := .eth, amountFrom := 399800, amountTo := 5 } (Sample.uuid 8) ""))
    (q := fun w => (w.journal.state.currency? Sample.alice .btc).map (·.netBalance) == some 0)
    Sample.world_init (by decide +kernel)
  exact ⟨w, by simpa using hq, solvent_when_alone _ hw⟩

/-- Two withdrawals of alice's are each checked against the whole of her deposit, as neither has been applied yet. -/
theorem withdrawn_twice : ¬∀ (Γ : Ctx) (k : Clock) (w : World),
    (machine (hotWallet Γ) k).Reachable DepositsStand w → w.journal.state.Solvent := by
  intro h
  obtain ⟨w, hw, hq⟩ := Machine.exists_reachable (P := DepositsStand)
    (Sample.opening 1000000 ++
      [.request (Sample.withdraw 7 600000) ⟨8⟩, .request (Sample.withdraw 8 600000) ⟨9⟩, .deliver 0, .deliver 0,
        .apply Sample.oracle true, .apply Sample.oracle true])
    (q := fun w => (w.journal.state.currency? Sample.alice .btc).any
      (fun (i : UserCurrencyInfo) => decide (i.netBalance < 0)))
    Sample.world_init (by decide +kernel)
  obtain ⟨i, hi, hneg⟩ := (Option.any_eq_true _ _).mp hq
  have hnonneg := h Sample.ctx Sample.clock w hw Sample.alice i hi
  have hlt := of_decide_eq_true hneg
  omega

end World

end Hexstody
