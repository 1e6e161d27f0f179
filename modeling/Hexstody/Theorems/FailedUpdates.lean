import Hexstody.Theorems.Settlement
import Hexstody.Theorems.ExchangeAccount

/-!
# Updates that fail

An update that fails should leave the State as it was. Each method looks before it writes, so a method that fails has written
nothing (`Outcome.Clean`); but a decision on an exchange order runs two methods, and when the second fails the first is not undone:
the order is completed, the exchange account has settled it, and the user is not paid. `failed_update_changes_nothing_iff` says
that this is the only way in which an update that fails changes the State, and just when it happens (`State.PaysNowhere`).
-/

namespace Hexstody

/-- If the call fails, the State after it is the one before it. -/
def Outcome.Clean {α : Type} (s : State) (out : Outcome α) : Prop := ∀ e, out.2 = .error e → out.1 = s

namespace Outcome

variable {α β : Type} {s s' : State}

theorem clean_error (s : State) (e : StateUpdateErr) : Clean (α := α) s (s, .error e) := fun _ _ => rfl

theorem clean_ok (s s' : State) (a : α) : Clean s (s', .ok a) := by
  intro e h
  cases h

end Outcome

/-- The decision confirms an order and is the last confirmation that the order needs at a given threshold. -/
def ExchangeOrder.isLastConfirm (threshold : Int16) (ex : ExchangeOrder) (req : ExchangeDecision) : Bool :=
  match ex.status with
  | .inProgress confirmations rejections =>
    req.decision == .confirm && !ex.hasConfirmed req.publicKey && decide (confirmations + 1 - rejections ≥ threshold)
  | _ => false

/-- The update is the last confirmation of an order, and the user has no account in the currency that it names for what is paid
out. -/
def State.PaysNowhere (s : State) : UpdateBody → Prop
  | .exchangeDecision req => s.currency? req.user req.currencyTo = none ∧
      ∃ ex ∈ s.order? req.user req.currencyFrom req.id, ex.isLastConfirm EXCHANGE_NUMBER_OF_CONFIRMATIONS req = true
  | _ => False

namespace State

open Outcome

variable {s s' : State} {o : Oracle} {up : StateUpdate}

/-! ## Each method looks before it writes -/

theorem clean_stamped_iff {α : Type} {created : NaiveDateTime} {out : Outcome α} {f : α → Option UpdateResult} :
    (stamped created out f).Clean s ↔ out.Clean s := by
  obtain ⟨s', r⟩ := out
  cases r with
  | ok a => exact iff_of_true (clean_ok _ _ _) (clean_ok _ _ _)
  | error e => exact ⟨fun h _ _ => h e rfl, fun h _ _ => h e rfl⟩

theorem clean_updateUser (s : State) (user : UserId) (f : UserInfo → UserInfo) : (s.updateUser user f).Clean s := by
  unfold updateUser
  split
  · exact clean_ok _ _ _
  · exact clean_error _ _

theorem clean_withSignup (s : State) (t : NaiveDateTime) (info : SignupInfo) : (s.withSignup t info).Clean s := by
  unfold withSignup
  split
  · exact clean_error _ _
  · split
    · exact clean_error _ _
    · exact clean_ok _ _ _

theorem clean_genInvite (s : State) (req : InviteRec) : (s.genInvite req).Clean s := by
  unfold genInvite
  split
  · exact clean_error _ _
  · exact clean_ok _ _ _

theorem clean_withNewWithdrawalRequest (s : State) (t : NaiveDateTime) (info : WithdrawalRequestInfo) :
    (s.withNewWithdrawalRequest t info).Clean s := by
  unfold withNewWithdrawalRequest
  simp only
  split
  · exact clean_error _ _
  · split
    · exact clean_error _ _
    · split
      · split
        · exact clean_error _ _
        · exact clean_ok _ _ _
      · exact clean_ok _ _ _

theorem clean_withWithdrawalRequestDecision (s : State) (d : WithdrawalRequestDecisionInfo) :
    (s.withWithdrawalRequestDecision d).Clean s := by
  unfold withWithdrawalRequestDecision
  split
  · exact clean_error _ _
  · split
    · exact clean_error _ _
    · exact clean_ok _ _ _

theorem clean_withDepositAddress (s : State) (dep : DepositAddress) : (s.withDepositAddress dep).Clean s := by
  unfold withDepositAddress
  simp only
  split
  · exact clean_error _ _
  · split
    · exact clean_error _ _
    · split
      · exact clean_error _ _
      · exact clean_ok _ _ _

theorem clean_withDepositOwner (s : State) (o : Oracle) (a : CurrencyAddress) (f : UserCurrencyInfo → UserCurrencyInfo) :
    (s.withDepositOwner o a f).Clean s := by
  unfold withDepositOwner
  split
  · exact clean_ok _ _ _
  · split
    · exact clean_error _ _
    · split
      · exact clean_error _ _
      · exact clean_ok _ _ _

theorem clean_withBtcTxUpdate (s : State) (o : Oracle) (tx : BtcTransaction) : (s.withBtcTxUpdate o tx).Clean s := by
  unfold withBtcTxUpdate
  simp only
  split
  · exact clean_ok _ _ _
  · exact clean_withDepositOwner _ _ _ _

/-- A cancellation never fails: of its two parts the second does not, and it fails only if both do. -/
theorem clean_withBtcTxCancel (s : State) (o : Oracle) (tx : BtcTxCancel) : (s.withBtcTxCancel o tx).Clean s := by
  unfold withBtcTxCancel
  simp only
  split
  · exact clean_ok _ _ _
  · simp only [setWithdrawalRequestNodeRejected]
    split
    · rename_i hsecond
      split at hsecond <;> cases hsecond
    · exact clean_ok _ _ _

theorem clean_updateTokens (s : State) (req : TokenUpdate) : (s.updateTokens req).Clean s := by
  unfold updateTokens
  simp only
  split
  · exact clean_error _ _
  · split
    · split
      · exact clean_error _ _
      · exact clean_ok _ _ _
    · split
      · exact clean_error _ _
      · split
        · exact clean_error _ _
        · exact clean_ok _ _ _

theorem clean_insertLimitsReq (s : State) (o : Oracle) (req : LimitChangeUpd) : (s.insertLimitsReq o req).Clean s := by
  unfold insertLimitsReq
  split
  · exact clean_error _ _
  · split
    · exact clean_error _ _
    · exact clean_ok _ _ _

theorem clean_withLimitChangeDecision (s : State) (lcd : LimitChangeDecision) : (s.withLimitChangeDecision lcd).Clean s := by
  unfold withLimitChangeDecision
  split
  · exact clean_error _ _
  · split
    · exact clean_error _ _
    · split
      · exact clean_error _ _
      · split <;> exact clean_ok _ _ _

theorem clean_addExchangeRequest (s : State) (req : ExchangeOrderUpd) : (s.addExchangeRequest req).Clean s := by
  unfold addExchangeRequest
  split
  · exact clean_error _ _
  · split
    · exact clean_error _ _
    · split
      · exact clean_error _ _
      · exact clean_ok _ _ _

theorem clean_applyExchangeDecision (s : State) (req : ExchangeDecision) : (s.applyExchangeDecision req).Clean s := by
  unfold applyExchangeDecision
  split
  · exact clean_error _ _
  · split
    · exact clean_error _ _
    · split
      · exact clean_error _ _
      · split
        · exact clean_error _ _
        · split <;> exact clean_ok _ _ _

theorem clean_addIncomingExchange (s : State) (req : ExchangeDecision) : (s.addIncomingExchange req).Clean s := by
  unfold addIncomingExchange
  split
  · exact clean_error _ _
  · split
    · exact clean_error _ _
    · exact clean_ok _ _ _

/-! ## The decision on an exchange order -/

/-- A vote completes an order just when it is the last confirmation. -/
theorem exists_completes_iff {t : Int16} {ex : ExchangeOrder} {req : ExchangeDecision} :
    (∃ ex', ex.applyDecision t req = .ok (ex', true)) ↔ ex.isLastConfirm t req = true := by
  unfold ExchangeOrder.applyDecision ExchangeOrder.isLastConfirm
  cases ex.status with
  | completed => simp
  | rejected => simp
  | inProgress m n =>
    cases req.decision with
    | confirm =>
      by_cases hk : ex.hasConfirmed req.publicKey = true
      · simp [hk]
      · by_cases ht : m + 1 - n ≥ t <;> simp [hk, ht]
    | reject =>
      by_cases hk : ex.hasRejected req.publicKey = true
      · simp [hk]
      · by_cases ht : n + 1 - m ≥ t <;> simp [hk, ht]

/-- The first of the two methods, where the decision is the last confirmation: the order is changed. -/
theorem applyExchangeDecision_lastConfirm {req : ExchangeDecision} {ex : ExchangeOrder}
    (hex : s.order? req.user req.currencyFrom req.id = some ex)
    (hlast : ex.isLastConfirm EXCHANGE_NUMBER_OF_CONFIRMATIONS req = true) :
    ∃ s₁, s.applyExchangeDecision req = (s₁, .ok true) ∧ s₁ ≠ s := by
  obtain ⟨ex', ha⟩ := exists_completes_iff.mpr hlast
  obtain ⟨j, hj, he⟩ := Option.bind_eq_some_iff.mp hex
  obtain ⟨ui, hu, hc⟩ := Option.bind_eq_some_iff.mp hj
  unfold applyExchangeDecision
  simp only [hu, hc, he, ha, if_true]
  refine ⟨_, rfl, fun heq => applyDecision_ne ha ?_⟩
  have hafter := congrArg (fun s : State => s.order? req.user req.currencyFrom req.id) heq
  change (modifyCurrency s req.user req.currencyFrom _).order? req.user req.currencyFrom req.id = _ at hafter
  rw [hex, order?, currency?_modifyCurrency, if_pos ⟨rfl, rfl⟩, hj, Option.map_some, Option.bind_some,
    AssocMap.get?_modify_self, he] at hafter
  exact Option.some.inj hafter

/-- A decision on an order leaves nothing behind when it fails, unless it is the last confirmation of an order that cannot be paid
out. -/
theorem clean_withExchangeDecision_iff {req : ExchangeDecision} :
    (s.withExchangeDecision req).Clean s ↔ ¬s.PaysNowhere (.exchangeDecision req) := by
  constructor
  · rintro hclean ⟨hnone, ex, hex, hlast⟩
    obtain ⟨s₁, hfirst, hne⟩ := applyExchangeDecision_lastConfirm hex hlast
    have hrefused : ¬∃ s', s.withExchangeDecision req = (s', .ok ()) := by
      rw [exists_withExchangeDecision_iff, takes, Option.mem_def.mp hex]
      obtain ⟨ex', ha⟩ := exists_completes_iff.mpr hlast
      simp [ha, hnone]
    have hsecond : s.withExchangeDecision req = s₁.addIncomingExchange req := by
      rw [withExchangeDecision, hfirst]
    generalize hout : s.withExchangeDecision req = out at hclean hrefused hsecond
    obtain ⟨s', r⟩ := out
    cases r with
    | ok a => exact hrefused ⟨s', rfl⟩
    | error e =>
      obtain rfl : s' = s := hclean e rfl
      have hkept := clean_addIncomingExchange s₁ req e (by rw [← hsecond])
      rw [← hsecond] at hkept
      exact hne hkept.symm
  · intro hpays
    unfold withExchangeDecision
    generalize hfirst : s.applyExchangeDecision req = out
    obtain ⟨s₁, r⟩ := out
    cases r with
    | error e =>
      have hclean := clean_applyExchangeDecision s req
      rw [hfirst] at hclean
      exact fun e' _ => hclean e rfl
    | ok completes =>
      cases completes with
      | false => exact clean_ok _ _ _
      | true =>
        obtain ⟨j, ex, ex', hj, he, ha, -⟩ := applyExchangeDecision_eq_ok hfirst
        have hex : s.order? req.user req.currencyFrom req.id = some ex := by
          rw [order?, hj]
          exact he
        obtain ⟨k, hk⟩ := Option.ne_none_iff_exists'.mp
          (fun hnone => hpays ⟨hnone, ex, hex, exists_completes_iff.mp ⟨ex', ha⟩⟩)
        obtain ⟨s', hs'⟩ := exists_withExchangeDecision_iff.mpr
          (show s.takes req = true by simp [takes, hex, ha, hk])
        rw [withExchangeDecision, hfirst] at hs'
        exact hs' ▸ clean_ok _ _ _

/-! ## Every kind of update -/

/-- An update that fails leaves the State as it was, just when it is not the last confirmation of an exchange order whose user has
no account in the currency that is paid out. -/
theorem failed_update_changes_nothing_iff (s : State) (o : Oracle) (up : StateUpdate) :
    (∀ e, (s.applyUpdate o up).2 = .error e → (s.applyUpdate o up).1 = s) ↔ ¬s.PaysNowhere up.body := by
  change (s.applyUpdate o up).Clean s ↔ _
  unfold applyUpdate
  cases up.body with
  | exchangeDecision req => exact clean_stamped_iff.trans clean_withExchangeDecision_iff
  | signup info => exact iff_of_true (clean_stamped_iff.mpr (clean_withSignup _ _ _)) id
  | snapshot s₀ => exact iff_of_true (clean_stamped_iff.mpr (clean_ok _ _ _)) id
  | createWithdrawalRequest info => exact iff_of_true (clean_stamped_iff.mpr (clean_withNewWithdrawalRequest _ _ _)) id
  | withdrawalRequestDecision d => exact iff_of_true (clean_stamped_iff.mpr (clean_withWithdrawalRequestDecision _ _)) id
  | withdrawalRequestComplete info => exact iff_of_true (clean_stamped_iff.mpr (clean_ok _ _ _)) id
  | withdrawalRequestNodeRejected info => exact iff_of_true (clean_stamped_iff.mpr (clean_ok _ _ _)) id
  | depositAddress dep => exact iff_of_true (clean_stamped_iff.mpr (clean_withDepositAddress _ _)) id
  | bestBtcBlock btc => exact iff_of_true (clean_stamped_iff.mpr (clean_ok _ _ _)) id
  | updateBtcTx tx => exact iff_of_true (clean_stamped_iff.mpr (clean_withBtcTxUpdate _ _ _)) id
  | cancelBtcTx tx => exact iff_of_true (clean_stamped_iff.mpr (clean_withBtcTxCancel _ _ _)) id
  | updateTokens req => exact iff_of_true (clean_stamped_iff.mpr (clean_updateTokens _ _)) id
  | genInvite req => exact iff_of_true (clean_stamped_iff.mpr (clean_genInvite _ _)) id
  | limitsChangeRequest req => exact iff_of_true (clean_stamped_iff.mpr (clean_insertLimitsReq _ _ _)) id
  | cancelLimitChange req => exact iff_of_true (clean_stamped_iff.mpr (clean_updateUser _ _ _)) id
  | limitChangeDecision lcd => exact iff_of_true (clean_stamped_iff.mpr (clean_withLimitChangeDecision _ _)) id
  | clearLimits span => exact iff_of_true (clean_stamped_iff.mpr (clean_ok _ _ _)) id
  | setLanguage req => exact iff_of_true (clean_stamped_iff.mpr (clean_updateUser _ _ _)) id
  | configUpdate req => exact iff_of_true (clean_stamped_iff.mpr (clean_updateUser _ _ _)) id
  | passwordChange req => exact iff_of_true (clean_stamped_iff.mpr (clean_updateUser _ _ _)) id
  | setPublicKey req => exact iff_of_true (clean_stamped_iff.mpr (clean_updateUser _ _ _)) id
  | exchangeRequest req => exact iff_of_true (clean_stamped_iff.mpr (clean_addExchangeRequest _ _)) id
  | exchangeAddress req => exact iff_of_true (clean_stamped_iff.mpr (clean_ok _ _ _)) id

end State

namespace Sample

/-- Alice signs up and gets a deposit. -/
def funded : List (Oracle × StateUpdate) :=
  signup ++ [upd 3 (.depositAddress { userId := alice, address := .btc { addr := "addr" } }),
    upd 4 (.updateBtcTx (deposit 1000))]

/-- Alice's order for a token, paid in bitcoins. -/
def orderFor (token : Erc20Token) : ExchangeOrderUpd where
  id := uuid 8
  user := alice
  currencyFrom := .btc
  currencyTo := .erc20 token
  amountFrom := 400
  amountTo := 5
  createdAt := ""

/-- The last confirmation of the order, as an update. -/
def confirmOrder (token : Erc20Token) : StateUpdate := (upd 6 (.exchangeDecision (exchangeDecision (.erc20 token) 400 5))).2

end Sample

/-- Alice orders a token that she has not enabled. The confirmation of the order fails, and the order is completed by it. -/
theorem State.failed_update_completes_order :
    (∃ j, Journal.machine.Reachable Journal.Fresh j ∧
      (j.state.order? Sample.alice .btc (Sample.uuid 8)).map (·.status) = some (.inProgress 0 0) ∧
      (j.state.applyUpdate Sample.oracle (Sample.confirmOrder Sample.otherToken)).2 =
        .error (.userMissingCurrency Sample.alice (.erc20 Sample.otherToken)) ∧
      ((j.state.applyUpdate Sample.oracle (Sample.confirmOrder Sample.otherToken)).1.order? Sample.alice .btc
        (Sample.uuid 8)).map (·.status) = some .completed) ∧
    ¬∀ (s : State) (o : Oracle) (up : StateUpdate) (e : StateUpdateErr), (s.applyUpdate o up).2 = .error e →
      (s.applyUpdate o up).1 = s := by
  obtain ⟨j, hj, hq⟩ := Machine.exists_reachable (P := Journal.Fresh)
    (Sample.funded ++ [Sample.upd 5 (.exchangeRequest (Sample.orderFor Sample.otherToken))])
    (q := fun j => decide (
      (j.state.order? Sample.alice .btc (Sample.uuid 8)).map (·.status) = some (.inProgress 0 0) ∧
      (j.state.applyUpdate Sample.oracle (Sample.confirmOrder Sample.otherToken)).2 =
        .error (.userMissingCurrency Sample.alice (.erc20 Sample.otherToken)) ∧
      ((j.state.applyUpdate Sample.oracle (Sample.confirmOrder Sample.otherToken)).1.order? Sample.alice .btc
        (Sample.uuid 8)).map (·.status) = some .completed)) Sample.start_init (by decide)
  obtain ⟨hbefore, herr, hafter⟩ := of_decide_eq_true hq
  refine ⟨⟨j, hj, hbefore, herr, hafter⟩, fun h => ?_⟩
  rw [h _ _ _ _ herr, hbefore] at hafter
  cases hafter

end Hexstody
