import Hexstody.Handlers
import Hexstody.Lemmas.Balance
import Hexstody.Lemmas.World

/-!
# What is lost when a token is disabled

To disable a token is to remove the account in it, with all that it holds. The only check is that the balance, as it is computed
and clamped, is zero. So an account goes that owes something, and with it a request that waits for the operators or for its
payment. Where no request or order is open, the account is not overdrawn, and what is left in it is within the range in which it is
computed (`UserCurrencyInfo.Settled`), the check is enough: nothing is left in it. And otherwise something is lost.
-/

namespace Hexstody

/-- The order is in progress. -/
def ExchangeOrder.isOpen (ex : ExchangeOrder) : Bool :=
  match ex.status with
  | .inProgress _ _ => true
  | _ => false

namespace UserCurrencyInfo

variable {i : UserCurrencyInfo}

/-- Nothing is lost with the account: no request or order is open, and it is worth nothing and owes nothing. -/
structure Discardable (i : UserCurrencyInfo) : Prop where
  requests : ∀ r ∈ i.withdrawalRequests.values, r.isOpen = false
  orders : ∀ ex ∈ i.exchangeRequests.values, ex.isOpen = false
  balance : i.exactBalance (fun t => !t.isConflicted) = 0

/-- No request or order is open, no more was taken out than came in, and what is left of that is less than 2^63. -/
structure Settled (i : UserCurrencyInfo) : Prop where
  requests : ∀ r ∈ i.withdrawalRequests.values, r.isOpen = false
  orders : ∀ ex ∈ i.exchangeRequests.values, ex.isOpen = false
  covered : i.withdrawn + i.ordered ≤ i.received
  inRange : i.received < i.withdrawn + i.ordered + 2 ^ 63

instance (i : UserCurrencyInfo) : Decidable i.Settled :=
  decidable_of_iff
    ((∀ r ∈ i.withdrawalRequests.values, r.isOpen = false) ∧ (∀ ex ∈ i.exchangeRequests.values, ex.isOpen = false) ∧
      i.withdrawn + i.ordered ≤ i.received ∧ i.received < i.withdrawn + i.ordered + 2 ^ 63)
    ⟨fun h => ⟨h.1, h.2.1, h.2.2.1, h.2.2.2⟩, fun h => ⟨h.requests, h.orders, h.covered, h.inRange⟩⟩

theorem exactBalance_of_noTransactions (counts : Transaction → Bool) (htx : i.transactions = []) :
    i.exactBalance counts = i.received - i.withdrawn - i.ordered := by
  unfold exactBalance deposited
  rw [htx]
  simp

/-- A value that is not negative and within the range is zero where the computed balance is. -/
theorem exactBalance_eq_zero (hbal : i.balance = 0) (h0 : 0 ≤ i.exactBalance (fun t => !t.isConflicted))
    (hlt : i.exactBalance (fun t => !t.isConflicted) < 2 ^ 63) : i.exactBalance (fun t => !t.isConflicted) = 0 := by
  obtain ⟨x, hx, hmax⟩ := wrapped_balanceOf (fun t => !t.isConflicted) i
  have hzero : ((i.balanceOf (fun t => !t.isConflicted)).toNat : Int) = 0 := by
    rw [show i.balanceOf (fun t => !t.isConflicted) = 0 from hbal]
    rfl
  have heq := hx.eq_iff.mpr ⟨by omega, by omega⟩
  omega

/-- An account without transactions whose balance is zero, as it is computed, can go exactly when it is settled. -/
theorem discardable_iff_settled (htx : i.transactions = []) (hbal : i.balance = 0) : i.Discardable ↔ i.Settled := by
  have hexact := exactBalance_of_noTransactions (fun t => !t.isConflicted) htx
  constructor
  · intro h
    have hzero := h.balance
    exact ⟨h.requests, h.orders, by omega, by omega⟩
  · intro h
    have hcov := h.covered
    have hlt := h.inRange
    exact ⟨h.requests, h.orders, exactBalance_eq_zero hbal (by omega) (by omega)⟩

end UserCurrencyInfo

/-! ## Runs -/

/-- (step) Only an account in bitcoins gets transactions. -/
theorem noTransactions_of_change {s : State} {up : StateUpdate} {u : UserId} {c : Currency} {before after : Option UserCurrencyInfo}
    (h : AccountChange s up u c before after) (hc : c ≠ .btc) (h0 : ∀ i, before = some i → i.transactions = []) :
    ∀ i, after = some i → i.transactions = [] := by
  intro i' hi'
  cases h with
  | same => exact h0 i' hi'
  | opened =>
    obtain rfl := Option.some.inj hi'
    rfl
  | closed => cases hi'
  | requested i | voted i | completed i | nodeRejected i | addressed i | limited i | ordered i =>
    obtain rfl := Option.some.inj hi'
    exact h0 i rfl
  | deposited _ _ _ hbtc => exact absurd hbtc hc
  | canceled i tx owner rid _ howner _ =>
    obtain rfl := Option.some.inj hi'
    have hfalse : owner = false := by
      cases owner with
      | false => rfl
      | true => exact absurd (howner rfl) hc
    subst hfalse
    cases rid <;> exact h0 i rfl
  | cleared i span _ =>
    obtain rfl := Option.some.inj hi'
    rw [UserCurrencyInfo.clearLimit_eq]
    exact h0 i rfl
  | exchanged i k req ex ex' completes _ _ _ _ _ =>
    obtain rfl := Option.some.inj hi'
    rw [UserCurrencyInfo.afterExchange_eq]
    exact h0 i rfl

/-- (run) -/
theorem Journal.noTransactions_of_reachable {j : Journal} (h : machine.Reachable Fresh j) {u : UserId} {c : Currency}
    {i : UserCurrencyInfo} (hc : c ≠ .btc) (hi : j.state.currency? u c = some i) : i.transactions = [] := by
  have hinv : ∀ i, j.state.currency? u c = some i → i.transactions = [] := by
    refine h.invariant (I := fun j => ∀ i, j.state.currency? u c = some i → i.transactions = []) ?_ ?_
    · rintro _ ⟨now, genesisHash, rfl⟩ i hi
      cases hi
    · intro j a j' _ hj hp hs
      exact noTransactions_of_change (applyUpdate_account (store_answer hs) hp.1 u c) hc hj
  exact hinv i hi

namespace State

variable {s s' : State} {o : Oracle} {up : StateUpdate} {res : Option UpdateResult} {u : UserId} {t : Erc20Token}

/-- A token that is disabled was enabled, with nothing in the account as the balance is computed, and its account is gone. -/
theorem account_of_disable (hb : up.body = .updateTokens { user := u, token := t, action := .disable })
    (h : s.applyUpdate o up = (s', .ok res)) :
    ∃ i, s.currency? u (.erc20 t) = some i ∧ i.balance = 0 ∧ s'.currency? u (.erc20 t) = none := by
  unfold applyUpdate at h
  rw [hb] at h
  obtain ⟨s₁, a, hout, rfl, -⟩ := stamped_eq_ok h
  obtain ⟨i, hi, hbal, rfl⟩ := updateTokens_disable_eq_ok hout
  have hgone := currency?_disable (s := s) (u := u) (c := .erc20 t) u t
  rw [if_pos ⟨rfl, rfl⟩] at hgone
  exact ⟨i, hi, hbal, hgone⟩

end State

namespace World

variable {ι : Type} {C : Client ι} {k : Clock} {w : World}

/-- In every State that the hot wallet reaches, over any handlers: when a token is disabled, nothing is lost with the account
exactly if it is settled before. -/
theorem disable_loses_nothing_iff (h : (machine C k).Reachable Machine.anyStep w) {o : Oracle} {up : StateUpdate} {u : UserId}
    {t : Erc20Token} {s' : State} {res : Option UpdateResult}
    (hb : up.body = .updateTokens { user := u, token := t, action := .disable })
    (ha : w.journal.state.applyUpdate o up = (s', .ok res)) :
    ∃ i, w.journal.state.currency? u (.erc20 t) = some i ∧ s'.currency? u (.erc20 t) = none ∧ (i.Discardable ↔ i.Settled) := by
  have hj : Journal.machine.Reachable Journal.Fresh w.journal :=
    (journal_reachable (Q := fun _ _ => True) h (fun _ _ _ _ _ _ _ _ _ => trivial)).mono (fun _ _ hp => hp.1)
  obtain ⟨i, hi, hbal, hgone⟩ := State.account_of_disable hb ha
  have htx := Journal.noTransactions_of_reachable hj (fun hc => by cases hc) hi
  exact ⟨i, hi, hgone, UserCurrencyInfo.discardable_iff_settled htx hbal⟩

end World

namespace Sample

/-- An order of alice's, and the operator's decision that completes it. -/
def exchanged (t : Int) (n : Nat) (cFrom cTo : Currency) (amountFrom amountTo : UInt64) : List (Action HandlerCall) :=
  done t (.orderExchange alice
      { currencyFrom := cFrom, currencyTo := cTo, amountFrom := amountFrom, amountTo := amountTo } (uuid n) "") ++
    done (t + 1) (.other (.exchangeDecision
      { user := alice, id := uuid n, currencyFrom := cFrom, currencyTo := cTo, amountFrom := amountFrom, amountTo := amountTo,
        url := "url", signature := ⟨[1]⟩, nonce := 0, publicKey := key 1, decision := .confirm }))

/-- A token. -/
def token : Erc20Token := { ticker := "T", name := "T", contract := "0x0" }

def tokenUpd (action : TokenAction) : UpdateBody := .updateTokens { user := alice, token := token, action := action }

end Sample

namespace World

/-- Alice exchanges bitcoins for tokens, and the tokens back, and then disables the token: nothing is lost. -/
theorem disable_loses_nothing_iff_exchanged : ∃ (w : World) (i : UserCurrencyInfo),
    w.journal.state.currency? Sample.alice (.erc20 Sample.token) = some i ∧ i.received = 100 ∧ i.Discardable := by
  obtain ⟨w, hw, hq⟩ := Machine.exists_reachable (P := Machine.anyStep)
    (Sample.opening 1000000 ++ Sample.done 5 (.other (Sample.tokenUpd .enable)) ++
      Sample.exchanged 6 7 .btc (.erc20 Sample.token) 400000 100 ++ Sample.exchanged 8 9 (.erc20 Sample.token) .btc 100 400000)
    (q := fun w => (w.journal.state.currency? Sample.alice (.erc20 Sample.token)).any (fun i =>
        decide (i.received = 100) && decide i.Settled) &&
      (w.journal.state.applyUpdate Sample.oracle { created := ⟨10⟩, body := Sample.tokenUpd .disable }).2.isOk)
    Sample.world_init (by decide +kernel)
  simp only [Bool.and_eq_true, Option.any_eq_true, decide_eq_true_eq] at hq
  obtain ⟨⟨i, hi, hrec, hset⟩, hok⟩ := hq
  cases ha : w.journal.state.applyUpdate Sample.oracle { created := ⟨10⟩, body := Sample.tokenUpd .disable } with
  | mk s' r =>
    rw [ha] at hok
    cases r with
    | error e => cases hok
    | ok res =>
      obtain ⟨i', hi', -, hiff⟩ := disable_loses_nothing_iff hw rfl ha
      obtain rfl := Option.some.inj (hi.symm.trans hi')
      exact ⟨w, i, hi, hrec, hiff.mpr hset⟩

/-- Alice asks for a withdrawal of a token that she has none of, and disables the token while the request waits. -/
theorem disabled_with_request : ¬∀ (Γ : Ctx) (k : Clock) (w : World),
    (machine (hotWallet Γ) k).Reachable Machine.anyStep w → ∀ o up u t s' res,
      up.body = .updateTokens { user := u, token := t, action := .disable } →
      w.journal.state.applyUpdate o up = (s', .ok res) → ∀ i, w.journal.state.currency? u (.erc20 t) = some i → i.Discardable := by
  intro h
  obtain ⟨w, hw, hq⟩ := Machine.exists_reachable (P := Machine.anyStep)
    (Sample.opening 1000000 ++ Sample.done 5 (.other (Sample.tokenUpd .enable)) ++
      Sample.done 6 (.postWithdraw Sample.alice
        { address := .erc20 { token := Sample.token, account := { account := "out" } }, amount := 100 } none (Sample.uuid 7)))
    (q := fun w => (w.journal.state.currency? Sample.alice (.erc20 Sample.token)).any (fun i =>
        i.withdrawalRequests.values.any (·.isOpen)) &&
      (w.journal.state.applyUpdate Sample.oracle { created := ⟨10⟩, body := Sample.tokenUpd .disable }).2.isOk)
    Sample.world_init (by decide +kernel)
  simp only [Bool.and_eq_true, Option.any_eq_true, List.any_eq_true] at hq
  obtain ⟨⟨i, hi, r, hr, hopen⟩, hok⟩ := hq
  cases ha : w.journal.state.applyUpdate Sample.oracle { created := ⟨10⟩, body := Sample.tokenUpd .disable } with
  | mk s' r' =>
    rw [ha] at hok
    cases r' with
    | error e => cases hok
    | ok res =>
      have hclosed := (h Sample.ctx Sample.clock w hw _ _ _ _ s' res rfl ha i hi).requests r hr
      rw [hopen] at hclosed
      cases hclosed

end World

end Hexstody
