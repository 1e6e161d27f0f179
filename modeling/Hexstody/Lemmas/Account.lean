import Hexstody.Apply

/-!
# What an update does to an account

An accepted update, other than a snapshot, changes an account (a user's entry in a currency) in one of the ways that
`AccountChange` lists, each with what the update had to meet. `applyUpdate_account` says so once for all kinds of update; the
invariants of the State are case analyses of it.
-/

namespace Hexstody

namespace State

/-! ## Looking up accounts -/

/-- Lookups only read the users. -/
theorem currency?_congr {s s' : State} (h : s'.users = s.users) (u : UserId) (c : Currency) :
    s'.currency? u c = s.currency? u c := by
  simp only [currency?, h]

theorem currency?_of_get? {s : State} {u : UserId} {ui : UserInfo} (h : s.users.get? u = some ui) (c : Currency) :
    s.currency? u c = ui.currencies.get? c := by
  simp only [currency?, h, Option.bind_some]

/-- A change of a user changes that user's accounts as the change of the user says. -/
theorem currency?_modifyUser (s : State) (u u' : UserId) (c : Currency) (f : UserInfo → UserInfo) :
    (s.modifyUser u' f).currency? u c =
      if u = u' then (s.users.get? u).bind (fun ui => (f ui).currencies.get? c) else s.currency? u c := by
  simp only [modifyUser, currency?, AssocMap.get?_modify]
  by_cases h : u = u'
  · rw [if_pos h, if_pos h, Option.bind_map]
    rfl
  · rw [if_neg h, if_neg h]

/-- A change of a user that keeps the accounts keeps the accounts. -/
theorem currency?_modifyUser_same (s : State) (u u' : UserId) (c : Currency) (f : UserInfo → UserInfo)
    (hf : ∀ ui, (f ui).currencies = ui.currencies) : (s.modifyUser u' f).currency? u c = s.currency? u c := by
  rw [currency?_modifyUser]
  by_cases h : u = u'
  · rw [if_pos h]
    simp only [hf]
    rfl
  · rw [if_neg h]

/-- A change of an account changes that account. -/
theorem currency?_modifyCurrency (s : State) (u u' : UserId) (c c' : Currency) (f : UserCurrencyInfo → UserCurrencyInfo) :
    (s.modifyCurrency u' c' f).currency? u c =
      if u = u' ∧ c = c' then (s.currency? u c).map f else s.currency? u c := by
  rw [modifyCurrency, currency?_modifyUser]
  simp only [AssocMap.get?_modify]
  by_cases hu : u = u'
  · by_cases hc : c = c'
    · rw [if_pos hu, if_pos ⟨hu, hc⟩, currency?]
      cases s.users.get? u with
      | none => rfl
      | some ui => rw [Option.bind_some, Option.bind_some, if_pos hc]
    · rw [if_pos hu, if_neg (fun h => hc h.2), currency?]
      simp only [if_neg hc]
  · rw [if_neg hu, if_neg (fun h => hu h.1)]

/-- A change of every account changes each. -/
theorem currency?_mapCurrencies (s : State) (u : UserId) (c : Currency) (f : UserCurrencyInfo → UserCurrencyInfo) :
    (s.mapCurrencies f).currency? u c = (s.currency? u c).map f := by
  simp only [mapCurrencies, currency?, AssocMap.get?_mapVals]
  cases s.users.get? u with
  | none => rfl
  | some ui => simp

theorem request?_of_currency? {s : State} {u : UserId} {c : Currency} {i : UserCurrencyInfo}
    (h : s.currency? u c = some i) (id : WithdrawalRequestId) : s.request? u c id = i.withdrawalRequests.get? id := by
  simp only [request?, h, Option.bind_some]

/-- A request is in an account. -/
theorem request?_eq_some {s : State} {u : UserId} {c : Currency} {id : WithdrawalRequestId} {r : WithdrawalRequest}
    (h : s.request? u c id = some r) : ∃ i, s.currency? u c = some i ∧ i.withdrawalRequests.get? id = some r :=
  Option.bind_eq_some_iff.mp h

/-- The account of an entry of an entry. -/
theorem request?_of_entries {s : State} {u : UserId} {ui : UserInfo} {c : Currency} {i : UserCurrencyInfo}
    (hu : s.users.get? u = some ui) (hi : ui.currencies.get? c = some i) (id : WithdrawalRequestId) :
    s.request? u c id = i.withdrawalRequests.get? id := by
  rw [request?, currency?_of_get? hu, hi]
  rfl

/-! ## Changes that change nothing -/

/-- A change of an account that leaves the account as it is. -/
theorem modifyCurrency_eq_self {s : State} {u : UserId} {c : Currency} {f : UserCurrencyInfo → UserCurrencyInfo}
    (h : ∀ i, s.currency? u c = some i → f i = i) : s.modifyCurrency u c f = s := by
  have husers : s.users.modify u (fun ui => { ui with currencies := ui.currencies.modify c f }) = s.users := by
    apply AssocMap.modify_eq_self
    intro ui hu
    have hcur : ui.currencies.modify c f = ui.currencies := by
      apply AssocMap.modify_eq_self
      intro i hi
      exact h i (by rw [currency?_of_get? hu, hi])
    rw [hcur]
  exact congrArg (fun us => ({ s with users := us } : State)) husers

/-- An account whose request has the status already is left as it is. -/
theorem setRequestStatus_eq_self {i : UserCurrencyInfo} {id : WithdrawalRequestId} {st : WithdrawalRequestStatus}
    (h : ∀ r, i.withdrawalRequests.get? id = some r → r.status = st) : i.setRequestStatus id st = i := by
  have hself : (i.withdrawalRequests.mapVals fun k r => if k = id then { r with status := st } else r) =
      i.withdrawalRequests := by
    apply AssocMap.mapVals_eq_self
    intro k r hk
    by_cases hkid : k = id
    · rw [if_pos hkid, ← h r (hkid ▸ hk)]
    · rw [if_neg hkid]
  exact congrArg (fun rs => ({ i with withdrawalRequests := rs } : UserCurrencyInfo)) hself

/-- A user whose requests have the status already is left as it is. -/
theorem mapCurrencies_eq_self {s : State} {u : UserId} {ui : UserInfo} {id : WithdrawalRequestId}
    {st : WithdrawalRequestStatus} (hu : s.users.get? u = some ui) (h : ∀ c r, s.request? u c id = some r → r.status = st) :
    { ui with currencies := ui.currencies.mapVals fun _ i => i.setRequestStatus id st } = ui := by
  have hcur : (ui.currencies.mapVals fun _ i => i.setRequestStatus id st) = ui.currencies := by
    apply AssocMap.mapVals_eq_self
    intro c i hi
    refine setRequestStatus_eq_self fun r hr => ?_
    rw [← request?_of_entries hu hi] at hr
    exact h c r hr
  rw [hcur]

/-- A status that is set everywhere for an id changes nothing if the requests with the id have it already. -/
theorem setStatus_eq_self {s : State} {id : WithdrawalRequestId} {st : WithdrawalRequestStatus}
    (h : ∀ u c r, s.request? u c id = some r → r.status = st) : s.mapCurrencies (·.setRequestStatus id st) = s := by
  have husers : (s.users.mapVals fun _ ui =>
      { ui with currencies := ui.currencies.mapVals fun _ i => i.setRequestStatus id st }) = s.users := by
    apply AssocMap.mapVals_eq_self
    intro u ui hu
    exact mapCurrencies_eq_self hu (h u)
  exact congrArg (fun us => ({ s with users := us } : State)) husers

/-! ## Searching the State -/

/-- A user found by an address has it among the deposit addresses. -/
theorem findUserAddress_eq_some {s : State} {o : Oracle} {a : CurrencyAddress} {u : UserId}
    (h : s.findUserAddress o a = some u) : ∃ i, s.currency? u a.currency = some i ∧ a ∈ i.depositInfo := by
  obtain ⟨u', ui, hu, hf⟩ := AssocMap.findVal?_eq_some h
  by_cases ha : ui.hasAddress a = true
  · rw [if_pos ha] at hf
    obtain rfl := Option.some.inj hf
    unfold UserInfo.hasAddress at ha
    cases hc : ui.currencies.get? a.currency with
    | none => rw [hc] at ha; cases ha
    | some i =>
      rw [hc] at ha
      exact ⟨i, by rw [currency?_of_get? hu, hc], by simpa [UserCurrencyInfo.hasAddress] using ha⟩
  · rw [if_neg ha] at hf
    cases hf

/-- A request found in an account by a transaction is one that the transaction completed. -/
theorem findCompletedRequest_eq_some {i : UserCurrencyInfo} {o : IterOrder WithdrawalRequestId} {t : CurrencyTxId}
    {id : WithdrawalRequestId} (h : i.findCompletedRequest o t = some id) :
    ∃ k r ca fee ins outs, i.withdrawalRequests.get? k = some r ∧ r.status = .completed ca t fee ins outs ∧ r.id = id := by
  unfold UserCurrencyInfo.findCompletedRequest at h
  by_cases hc : t.currency = i.currency
  · rw [if_pos hc] at h
    obtain ⟨k, r, hk, hf⟩ := AssocMap.findVal?_eq_some h
    cases hst : r.status with
    | completed ca txid fee ins outs =>
      simp only [hst] at hf
      by_cases ht : t = txid
      · rw [if_pos ht] at hf
        subst ht
        exact ⟨k, r, ca, fee, ins, outs, hk, hst, Option.some.inj hf⟩
      · rw [if_neg ht] at hf
        cases hf
    | inProgress n => simp [hst] at hf
    | confirmed => simp [hst] at hf
    | opRejected => simp [hst] at hf
    | nodeRejected reason => simp [hst] at hf
  · rw [if_neg hc] at h
    cases h

/-- A request found by a transaction is one that the transaction completed. -/
theorem findWithdrawalByTxId_eq_some {s : State} {o : Oracle} {t : CurrencyTxId} {id : WithdrawalRequestId}
    (h : s.findWithdrawalByTxId o t = some id) :
    ∃ u c k r ca fee ins outs, s.request? u c k = some r ∧ r.status = .completed ca t fee ins outs ∧ r.id = id := by
  obtain ⟨u, ui, hu, hf⟩ := AssocMap.findVal?_eq_some h
  unfold UserInfo.findCompletedRequest at hf
  cases hc : ui.currencies.get? t.currency with
  | none => rw [hc] at hf; cases hf
  | some i =>
    rw [hc] at hf
    obtain ⟨k, r, ca, fee, ins, outs, hk, hst, hid⟩ := findCompletedRequest_eq_some hf
    refine ⟨u, t.currency, k, r, ca, fee, ins, outs, ?_, hst, hid⟩
    rw [request?_of_currency? (i := i) (by rw [currency?_of_get? hu, hc]), hk]

/-- A request found by its id is a request with that id. -/
theorem getWithdrawalRequest_eq_some {s : State} {o : Oracle} {id : WithdrawalRequestId} {r : WithdrawalRequest}
    (h : s.getWithdrawalRequest o id = some r) : ∃ u c, s.request? u c id = some r := by
  obtain ⟨u, ui, hu, hf⟩ := AssocMap.findVal?_eq_some h
  obtain ⟨c, i, hc, hf⟩ := AssocMap.findVal?_eq_some hf
  obtain ⟨k, r', hk, hf⟩ := AssocMap.findVal?_eq_some hf
  by_cases hid : k = id
  · rw [if_pos hid] at hf
    obtain rfl := Option.some.inj hf
    subst hid
    exact ⟨u, c, by rw [request?_of_currency? (i := i) (by rw [currency?_of_get? hu, hc]), hk]⟩
  · rw [if_neg hid] at hf
    cases hf

/-- A search by an id finds a request that is under it. -/
theorem getWithdrawalRequest_ne_none {s : State} {o : Oracle} {u : UserId} {c : Currency} {i : WithdrawalRequestId}
    {r : WithdrawalRequest} (h : s.request? u c i = some r) : s.getWithdrawalRequest o i ≠ none := by
  obtain ⟨info, hinfo, hr⟩ := request?_eq_some h
  obtain ⟨user, hu, hc⟩ := Option.bind_eq_some_iff.mp hinfo
  intro hnone
  have h1 := AssocMap.findVal?_eq_none_iff.mp hnone u user hu
  have h2 := AssocMap.findVal?_eq_none_iff.mp h1 c info hc
  have h3 := AssocMap.findVal?_eq_none_iff.mp h2 i r hr
  rw [if_pos rfl] at h3
  cases h3

end State

/-! ## The change of an account -/

/-- The account in `c` after a decision on an order that is paid from one currency and, if the decision completes it, into
another. -/
def UserCurrencyInfo.afterExchange (i : UserCurrencyInfo) (c : Currency) (req : ExchangeDecision) (ex' : ExchangeOrder)
    (completes : Bool) : UserCurrencyInfo :=
  let i₁ := if c = req.currencyFrom then
      { i with exchangeRequests := i.exchangeRequests.modify req.id (fun _ => ex') }
    else i
  if completes = true ∧ c = req.currencyTo then i₁.insertIncoming req.id req.amountTo else i₁

/-- A transaction changes the transactions of an account, and nothing else. -/
theorem UserCurrencyInfo.updateBtcTx_eq (i : UserCurrencyInfo) (tx : BtcTransaction) :
    i.updateBtcTx tx = { i with transactions := (i.updateBtcTx tx).transactions } := by
  unfold updateBtcTx
  split <;> rfl

/-- A period that ends changes what is spent of the limit of an account, and nothing else. -/
theorem UserCurrencyInfo.clearLimit_eq (i : UserCurrencyInfo) (span : LimitSpan) :
    i.clearLimit span = { i with limitInfo := { i.limitInfo with spent := (i.clearLimit span).limitInfo.spent } } := by
  unfold clearLimit
  split <;> rfl

/-- A decision on an order changes the orders and the incoming amounts of an account, and nothing else. -/
theorem UserCurrencyInfo.afterExchange_eq (i : UserCurrencyInfo) (c : Currency) (req : ExchangeDecision) (ex' : ExchangeOrder)
    (completes : Bool) : i.afterExchange c req ex' completes =
      { i with
        exchangeRequests :=
          if c = req.currencyFrom then i.exchangeRequests.modify req.id (fun _ => ex') else i.exchangeRequests
        incomingExchangeRequests :=
          if completes = true ∧ c = req.currencyTo then i.incomingExchangeRequests.insert req.id req.amountTo
          else i.incomingExchangeRequests } := by
  unfold afterExchange
  by_cases h1 : completes = true ∧ c = req.currencyTo
  · by_cases h2 : c = req.currencyFrom
    · simp only [if_pos h1, if_pos h2]
      rfl
    · simp only [if_pos h1, if_neg h2]
      rfl
  · by_cases h2 : c = req.currencyFrom
    · simp only [if_neg h1, if_pos h2]
    · simp only [if_neg h1, if_neg h2]

/-- The account after a cancellation: the deposit removed from the owner of the address, and the withdrawal that the
transaction completed, if one is found, rejected. -/
def UserCurrencyInfo.afterCancel (i : UserCurrencyInfo) (tx : BtcTxCancel) (owner : Bool)
    (rid : Option WithdrawalRequestId) : UserCurrencyInfo :=
  let i₁ := if owner then i.cancelBtcTx tx else i
  rid.elim i₁ (fun id => i₁.setRequestStatus id (.nodeRejected "Tx canceled"))

/-- A cancellation changes the transactions and the requests of an account, and nothing else. -/
theorem UserCurrencyInfo.afterCancel_eq (i : UserCurrencyInfo) (tx : BtcTxCancel) (owner : Bool)
    (rid : Option WithdrawalRequestId) : i.afterCancel tx owner rid =
      { i with
        transactions := (i.afterCancel tx owner rid).transactions
        withdrawalRequests := (i.afterCancel tx owner rid).withdrawalRequests } := by
  cases owner <;> cases rid <;> rfl

/-- The pending change of a limit. -/
def State.limitChange? (s : State) (u : UserId) (c : Currency) : Option LimitChangeData :=
  (s.users.get? u).bind (·.limitChangeRequests.get? c)

/-- The decision completes the change that is pending. -/
def State.completesLimit (s : State) (lcd : LimitChangeDecision) : Bool :=
  match s.limitChange? lcd.user lcd.currency with
  | none => false
  | some req =>
    match req.applyDecision lcd with
    | .ok req' => req'.status == .completed
    | .error _ => false

/-- How an accepted update changes the account of `u` in `c`, with what the update had to meet. -/
inductive AccountChange (s : State) (up : StateUpdate) (u : UserId) (c : Currency) :
    Option UserCurrencyInfo → Option UserCurrencyInfo → Prop where
  | same (a : Option UserCurrencyInfo) : AccountChange s up u c a a
  | opened : (s.users.get? u = none ∨ ∃ token, up.body = .updateTokens { user := u, token := token, action := .enable } ∧
        c = .erc20 token) →
      AccountChange s up u c none (some (UserCurrencyInfo.new c))
  | closed (i : UserCurrencyInfo) (token : Erc20Token) :
      up.body = .updateTokens { user := u, token := token, action := .disable } → c = .erc20 token → i.balance = 0 →
      AccountChange s up u c (some i) none
  | requested (i : UserCurrencyInfo) (info : WithdrawalRequestInfo) :
      up.body = .createWithdrawalRequest info → info.user = u → info.address.currency = c →
      (info.requestType = .underLimit → i.limitInfo.spent + info.amount ≤ i.limitInfo.limit.amount) →
      AccountChange s up u c (some i) (some (i.insertRequest info.id (.ofInfo up.created info)))
  | voted (i : UserCurrencyInfo) (d : WithdrawalRequestDecisionInfo) (r r' : WithdrawalRequest)
      (confirmed : Option WithdrawalRequestId) :
      up.body = .withdrawalRequestDecision d → d.userId = u → d.currency = c →
      i.withdrawalRequests.get? d.requestId = some r → r.applyDecision d = .ok (r', confirmed) →
      AccountChange s up u c (some i)
        (some { i with withdrawalRequests := i.withdrawalRequests.modify d.requestId (fun _ => r') })
  | completed (i : UserCurrencyInfo) (info : WithdrawCompleteInfo) : up.body = .withdrawalRequestComplete info →
      AccountChange s up u c (some i) (some (i.setRequestStatus info.id info.toStatus))
  | nodeRejected (i : UserCurrencyInfo) (info : WithdrawalRejectInfo) : up.body = .withdrawalRequestNodeRejected info →
      AccountChange s up u c (some i) (some (i.setRequestStatus info.id (.nodeRejected info.reason)))
  | addressed (i : UserCurrencyInfo) (address : CurrencyAddress) :
      up.body = .depositAddress { userId := u, address := address } → address.currency = c → address ∉ i.depositInfo →
      AccountChange s up u c (some i) (some { i with depositInfo := i.depositInfo ++ [address] })
  | deposited (i : UserCurrencyInfo) (tx : BtcTransaction) : up.body = .updateBtcTx tx → c = .btc →
      AccountChange s up u c (some i) (some (i.updateBtcTx tx))
  | canceled (i : UserCurrencyInfo) (tx : BtcTxCancel) (owner : Bool) (rid : Option WithdrawalRequestId) :
      up.body = .cancelBtcTx tx → (owner = true → c = .btc) →
      (∀ id, rid = some id → ∃ u' c' k r ca fee ins outs, s.request? u' c' k = some r ∧
        r.status = .completed ca (.btc { txid := tx.txid.hex }) fee ins outs ∧ r.id = id) →
      AccountChange s up u c (some i) (some (i.afterCancel tx owner rid))
  | limited (i : UserCurrencyInfo) (lcd : LimitChangeDecision) :
      up.body = .limitChangeDecision lcd → lcd.user = u → lcd.currency = c → s.completesLimit lcd = true →
      AccountChange s up u c (some i) (some { i with limitInfo := { limit := lcd.requestedLimit, spent := 0 } })
  | cleared (i : UserCurrencyInfo) (span : LimitSpan) : up.body = .clearLimits span →
      AccountChange s up u c (some i) (some (i.clearLimit span))
  | ordered (i : UserCurrencyInfo) (req : ExchangeOrderUpd) :
      up.body = .exchangeRequest req → req.user = u → req.currencyFrom = c → req.amountFrom ≤ i.balance →
      AccountChange s up u c (some i) (some (i.insertExchange req.id (.ofUpd req)))
  | exchanged (i j : UserCurrencyInfo) (req : ExchangeDecision) (ex ex' : ExchangeOrder) (completes : Bool) :
      up.body = .exchangeDecision req → req.user = u → s.currency? u req.currencyFrom = some j →
      j.exchangeRequests.get? req.id = some ex →
      ex.applyDecision EXCHANGE_NUMBER_OF_CONFIRMATIONS req = .ok (ex', completes) →
      AccountChange s up u c (some i) (some (i.afterExchange c req ex' completes))

/-! ## One lemma for each method -/

namespace State

variable {s s' : State} {o : Oracle} {u : UserId} {c : Currency}

/-- An update that succeeds is a method that succeeds, and the time set. -/
theorem stamped_eq_ok {α : Type} {created : NaiveDateTime} {out : Outcome α} {f : α → Option UpdateResult}
    {res : Option UpdateResult} (h : stamped created out f = (s', .ok res)) :
    ∃ s₁ a, out = (s₁, .ok a) ∧ s' = { s₁ with lastChanged := created } ∧ res = f a := by
  obtain ⟨s₁, r⟩ := out
  cases r with
  | ok a =>
    simp only [stamped, Prod.mk.injEq, Except.ok.injEq] at h
    exact ⟨s₁, a, rfl, h.1.symm, h.2.symm⟩
  | error e => simp [stamped] at h

/-- What a method does to the accounts, the update does. -/
theorem account_of_stamped {α : Type} {created : NaiveDateTime} {out : Outcome α} {f : α → Option UpdateResult}
    {res : Option UpdateResult} {up : StateUpdate} (h : stamped created out f = (s', .ok res))
    (hm : ∀ s₁ a, out = (s₁, .ok a) → AccountChange s up u c (s.currency? u c) (s₁.currency? u c)) :
    AccountChange s up u c (s.currency? u c) (s'.currency? u c) := by
  obtain ⟨s₁, a, hout, rfl, -⟩ := stamped_eq_ok h
  exact hm s₁ a hout

/-- A method that leaves the users alone leaves the accounts alone. -/
theorem account_of_users {up : StateUpdate} (h : s'.users = s.users) :
    AccountChange s up u c (s.currency? u c) (s'.currency? u c) := by
  rw [currency?_congr h]
  exact .same _

/-- A change of a user that has to be there leaves the accounts alone if the change does. -/
theorem updateUser_account {up : StateUpdate} {user : UserId} {f : UserInfo → UserInfo}
    (h : s.updateUser user f = (s', .ok ())) (hf : ∀ ui, (f ui).currencies = ui.currencies) :
    AccountChange s up u c (s.currency? u c) (s'.currency? u c) := by
  unfold updateUser at h
  cases hu : s.users.get? user with
  | none => simp [hu] at h
  | some ui =>
    simp only [hu, Prod.mk.injEq, and_true] at h
    rw [← h, currency?_modifyUser_same s u user c f hf]
    exact .same _

/-- A change of every account. -/
theorem mapCurrencies_account {up : StateUpdate} {f : UserCurrencyInfo → UserCurrencyInfo}
    (hf : ∀ i, AccountChange s up u c (some i) (some (f i))) :
    AccountChange s up u c (s.currency? u c) ((s.mapCurrencies f).currency? u c) := by
  rw [currency?_mapCurrencies]
  cases s.currency? u c with
  | none => exact .same _
  | some i => exact hf i

/-- The accounts of a new user: one for each default currency, with nothing in it. -/
theorem get?_new_currencies (username : UserId) (invite : Invite) (auth : SignupAuth) (t : NaiveDateTime) (c : Currency) :
    (UserInfo.new username invite auth t).currencies.get? c = none ∨
      (UserInfo.new username invite auth t).currencies.get? c = some (UserCurrencyInfo.new c) := by
  have key : ∀ (l : List Currency) (m : AssocMap Currency UserCurrencyInfo),
      (m.get? c = none ∨ m.get? c = some (UserCurrencyInfo.new c)) →
      let m' := (l.map (fun c => (c, UserCurrencyInfo.new c))).foldl (fun m e => m.insert e.1 e.2) m
      m'.get? c = none ∨ m'.get? c = some (UserCurrencyInfo.new c) := by
    intro l
    induction l with
    | nil => intro m h; exact h
    | cons c' l ih =>
      intro m h
      refine ih _ ?_
      rw [AssocMap.get?_insert]
      by_cases hc : c = c'
      · subst hc; rw [if_pos rfl]; exact Or.inr rfl
      · rw [if_neg hc]; exact h
  exact key Currency.defaultCurrencies AssocMap.empty (Or.inl rfl)

theorem withSignup_eq_ok {t : NaiveDateTime} {info : SignupInfo} (h : s.withSignup t info = (s', .ok ())) :
    s.users.get? info.username = none ∧ (∃ r, s.invites.get? info.invite = some r) ∧
      s' = { s with
        users := s.users.insert info.username (UserInfo.new info.username info.invite info.auth t)
        invites := s.invites.erase info.invite } := by
  unfold withSignup at h
  by_cases h1 : s.users.contains info.username = true
  · simp [h1] at h
  by_cases h2 : (!s.invites.contains info.invite) = true
  · simp [h1, h2] at h
  rw [if_neg h1, if_neg h2] at h
  refine ⟨by simpa [AssocMap.contains] using h1, ?_, (Prod.mk.inj h).1.symm⟩
  exact Option.ne_none_iff_exists'.mp (by simpa [AssocMap.contains] using h2)

/-- An accepted sign-up makes the user, and takes the invite. -/
theorem applyUpdate_signup {up : StateUpdate} {info : SignupInfo} {res : Option UpdateResult}
    (h : s.applyUpdate o up = (s', .ok res)) (hb : up.body = .signup info) :
    s.users.get? info.username = none ∧ (∃ r, s.invites.get? info.invite = some r) ∧
      s' = { s with
        users := s.users.insert info.username (UserInfo.new info.username info.invite info.auth up.created)
        invites := s.invites.erase info.invite
        lastChanged := up.created } := by
  unfold applyUpdate at h
  rw [hb] at h
  obtain ⟨s₁, a, hout, rfl, -⟩ := stamped_eq_ok h
  obtain ⟨hnone, hinvite, rfl⟩ := withSignup_eq_ok hout
  exact ⟨hnone, hinvite, rfl⟩

theorem withSignup_account {up : StateUpdate} {t : NaiveDateTime} {info : SignupInfo}
    (h : s.withSignup t info = (s', .ok ())) : AccountChange s up u c (s.currency? u c) (s'.currency? u c) := by
  obtain ⟨hnone, -, rfl⟩ := withSignup_eq_ok h
  by_cases hu : u = info.username
  · subst hu
    have h0 : s.currency? info.username c = none := by simp [currency?, hnone]
    rw [h0]
    simp only [currency?, AssocMap.get?_insert_self, Option.bind_some]
    rcases get?_new_currencies info.username info.invite info.auth t c with hn | hn
    · rw [hn]; exact .same _
    · rw [hn]; exact .opened (Or.inl hnone)
  · simp only [currency?, AssocMap.get?_insert, if_neg hu]
    exact .same _

/-- A new request that is accepted is put in the account; only the limit is checked, and only for one type of request. -/
theorem withNewWithdrawalRequest_eq_ok {t : NaiveDateTime} {info : WithdrawalRequestInfo} {res : Option UpdateResult}
    (h : s.withNewWithdrawalRequest t info = (s', .ok res)) :
    ∃ i, s.currency? info.user info.address.currency = some i ∧
      s' = s.modifyCurrency info.user info.address.currency (·.insertRequest info.id (.ofInfo t info)) ∧
      (info.requestType = .underLimit → i.limitInfo.spent + info.amount ≤ i.limitInfo.limit.amount) := by
  unfold withNewWithdrawalRequest at h
  simp only [WithdrawalRequest.ofInfo] at h
  cases hu : s.users.get? info.user with
  | none => simp [hu] at h
  | some ui =>
    simp only [hu] at h
    cases hc : ui.currencies.get? info.address.currency with
    | none => simp [hc] at h
    | some i =>
      simp only [hc] at h
      refine ⟨i, by rw [currency?_of_get? hu, hc], ?_⟩
      cases ht : info.requestType with
      | underLimit =>
        simp only [ht] at h
        by_cases hl : i.limitInfo.limit.amount < i.limitInfo.spent + info.amount
        · simp [hl] at h
        · rw [if_neg hl] at h
          simp only [Prod.mk.injEq] at h
          exact ⟨h.1.symm.trans (by rw [WithdrawalRequest.ofInfo, ht]), fun _ => UInt64.not_lt.mp hl⟩
      | overLimit =>
        simp only [ht, Prod.mk.injEq] at h
        exact ⟨h.1.symm.trans (by rw [WithdrawalRequest.ofInfo, ht]), fun hc => by cases hc⟩

theorem withNewWithdrawalRequest_account {up : StateUpdate} {info : WithdrawalRequestInfo} {res : Option UpdateResult}
    (hb : up.body = .createWithdrawalRequest info)
    (h : s.withNewWithdrawalRequest up.created info = (s', .ok res)) :
    AccountChange s up u c (s.currency? u c) (s'.currency? u c) := by
  obtain ⟨i, hi, rfl, hlimit⟩ := withNewWithdrawalRequest_eq_ok h
  rw [currency?_modifyCurrency]
  by_cases huc : u = info.user ∧ c = info.address.currency
  · obtain ⟨rfl, rfl⟩ := huc
    rw [if_pos ⟨rfl, rfl⟩, hi]
    exact .requested i info hb rfl rfl hlimit
  · rw [if_neg huc]
    exact .same _

/-- The request a decision is about is in the account that the decision names. -/
theorem getWithdrawalRequestByDecisionInfo_eq_ok {d : WithdrawalRequestDecisionInfo} {r : WithdrawalRequest}
    (h : s.getWithdrawalRequestByDecisionInfo d = .ok r) :
    ∃ i, s.currency? d.userId d.currency = some i ∧ i.withdrawalRequests.get? d.requestId = some r := by
  unfold getWithdrawalRequestByDecisionInfo at h
  cases hu : s.users.get? d.userId with
  | none => simp [hu] at h
  | some ui =>
    simp only [hu] at h
    cases hc : ui.currencies.get? d.currency with
    | none => simp [hc] at h
    | some i =>
      simp only [hc] at h
      cases hr : i.withdrawalRequests.get? d.requestId with
      | none => simp [hr] at h
      | some r' =>
        simp only [hr, Except.ok.injEq] at h
        subst h
        exact ⟨i, by rw [currency?_of_get? hu, hc], hr⟩

/-- A decision that is accepted is a vote on the request it is about. -/
theorem withWithdrawalRequestDecision_eq_ok {d : WithdrawalRequestDecisionInfo} {res : Option WithdrawalRequestId}
    (h : s.withWithdrawalRequestDecision d = (s', .ok res)) :
    ∃ i r r', s.currency? d.userId d.currency = some i ∧ i.withdrawalRequests.get? d.requestId = some r ∧
      r.applyDecision d = .ok (r', res) ∧
      s' = s.modifyCurrency d.userId d.currency (fun i =>
        { i with withdrawalRequests := i.withdrawalRequests.modify d.requestId (fun _ => r') }) := by
  unfold withWithdrawalRequestDecision at h
  cases hg : s.getWithdrawalRequestByDecisionInfo d with
  | error e => simp [hg] at h
  | ok r =>
    simp only [hg] at h
    cases ha : r.applyDecision d with
    | error e => simp [ha] at h
    | ok p =>
      simp only [ha, Prod.mk.injEq, Except.ok.injEq] at h
      obtain ⟨i, hi, hr⟩ := getWithdrawalRequestByDecisionInfo_eq_ok hg
      exact ⟨i, r, p.1, hi, hr, by rw [ha, ← h.2], h.1.symm⟩

theorem withWithdrawalRequestDecision_account {up : StateUpdate} {d : WithdrawalRequestDecisionInfo}
    {res : Option WithdrawalRequestId} (hb : up.body = .withdrawalRequestDecision d)
    (h : s.withWithdrawalRequestDecision d = (s', .ok res)) :
    AccountChange s up u c (s.currency? u c) (s'.currency? u c) := by
  obtain ⟨i, r, r', hi, hr, ha, rfl⟩ := withWithdrawalRequestDecision_eq_ok h
  rw [currency?_modifyCurrency]
  by_cases huc : u = d.userId ∧ c = d.currency
  · obtain ⟨rfl, rfl⟩ := huc
    rw [if_pos ⟨rfl, rfl⟩, hi]
    exact .voted i d r r' res hb rfl rfl hr ha
  · rw [if_neg huc]
    exact .same _

theorem withDepositAddress_account {up : StateUpdate} {dep : DepositAddress} (hb : up.body = .depositAddress dep)
    (h : s.withDepositAddress dep = (s', .ok ())) : AccountChange s up u c (s.currency? u c) (s'.currency? u c) := by
  unfold withDepositAddress at h
  cases hu : s.users.get? dep.userId with
  | none => simp [hu] at h
  | some ui =>
    simp only [hu] at h
    cases hc : ui.currencies.get? dep.address.currency with
    | none => simp [hc] at h
    | some i =>
      simp only [hc] at h
      by_cases ha : i.depositInfo.contains dep.address = true
      · rw [if_pos ha] at h
        cases h
      · rw [if_neg ha] at h
        simp only [Prod.mk.injEq, and_true] at h
        rw [← h, currency?_modifyCurrency]
        by_cases huc : u = dep.userId ∧ c = dep.address.currency
        · obtain ⟨rfl, rfl⟩ := huc
          rw [if_pos ⟨rfl, rfl⟩, currency?_of_get? hu, hc]
          exact .addressed i dep.address hb rfl (by simpa using ha)
        · rw [if_neg huc]
          exact .same _

/-- A change of the owner of a deposit address is a change of one account in bitcoins, or no change. -/
theorem withDepositOwner_eq {a : CurrencyAddress} {f : UserCurrencyInfo → UserCurrencyInfo}
    {res : Except StateUpdateErr Unit} (h : s.withDepositOwner o a f = (s', res)) :
    s' = s ∨ ∃ owner, s.findUserAddress o a = some owner ∧ s' = s.modifyCurrency owner .btc f := by
  unfold withDepositOwner at h
  cases hf : s.findUserAddress o a with
  | none => simp only [hf, Prod.mk.injEq] at h; exact Or.inl h.1.symm
  | some owner =>
    simp only [hf] at h
    cases hu : s.users.get? owner with
    | none => simp only [hu, Prod.mk.injEq] at h; exact Or.inl h.1.symm
    | some ui =>
      simp only [hu] at h
      cases hc : ui.currencies.get? Currency.btc with
      | none => simp only [hc, Prod.mk.injEq] at h; exact Or.inl h.1.symm
      | some i => simp only [hc, Prod.mk.injEq] at h; exact Or.inr ⟨owner, rfl, h.1.symm⟩

theorem withBtcTxUpdate_account {up : StateUpdate} {tx : BtcTransaction} (hb : up.body = .updateBtcTx tx)
    (h : s.withBtcTxUpdate o tx = (s', .ok ())) : AccountChange s up u c (s.currency? u c) (s'.currency? u c) := by
  unfold withBtcTxUpdate at h
  by_cases hx : s.isExchangeAddress (btcAddress tx.address) = true
  · simp only [hx, if_true, Prod.mk.injEq, and_true] at h
    exact account_of_users (by rw [← h])
  · simp only [hx] at h
    rcases withDepositOwner_eq h with rfl | ⟨owner, -, rfl⟩
    · exact .same _
    · rw [currency?_modifyCurrency]
      by_cases huc : u = owner ∧ c = .btc
      · rw [if_pos huc]
        cases s.currency? u c with
        | none => exact .same _
        | some i => exact .deposited i tx hb huc.2
      · rw [if_neg huc]
        exact .same _

/-- A cancellation changes the exchange account, or it removes the deposit from its owner, if it has one, and then rejects the
withdrawal that the transaction completed, if it did. -/
theorem withBtcTxCancel_eq {tx : BtcTxCancel} {res : Except StateUpdateErr Unit}
    (h : s.withBtcTxCancel o tx = (s', res)) :
    s'.users = s.users ∨
      ∃ s₁ rid, (s₁ = s ∨ ∃ owner, s.findUserAddress o (btcAddress tx.address) = some owner ∧
          s₁ = s.modifyCurrency owner .btc (·.cancelBtcTx tx)) ∧
        s₁.findWithdrawalByTxId o (.btc { txid := tx.txid.hex }) = rid ∧
        s' = rid.elim s₁ (fun id => s₁.mapCurrencies (·.setRequestStatus id (.nodeRejected "Tx canceled"))) := by
  unfold withBtcTxCancel at h
  by_cases hx : s.isExchangeAddress (btcAddress tx.address) = true
  · simp only [hx, if_true, Prod.mk.injEq] at h
    exact Or.inl (by rw [← h.1])
  · simp only [hx] at h
    generalize hd : s.withDepositOwner o (btcAddress tx.address) (·.cancelBtcTx tx) = out at h
    obtain ⟨s₁, res1⟩ := out
    refine Or.inr ⟨s₁, s₁.findWithdrawalByTxId o (.btc { txid := tx.txid.hex }), withDepositOwner_eq hd, rfl, ?_⟩
    cases hf : s₁.findWithdrawalByTxId o (.btc { txid := tx.txid.hex }) with
    | none => cases res1 <;> simp [hf] at h <;> exact h.1.symm
    | some rid =>
      cases res1 <;> simp [hf, setWithdrawalRequestNodeRejected] at h <;> exact h.1.symm

/-- The removal of a deposit leaves the requests as they are. -/
theorem request?_modifyCurrency_same (s : State) (u u' : UserId) (c c' : Currency) (id : WithdrawalRequestId)
    (f : UserCurrencyInfo → UserCurrencyInfo) (hf : ∀ i, (f i).withdrawalRequests = i.withdrawalRequests) :
    (s.modifyCurrency u' c' f).request? u c id = s.request? u c id := by
  rw [request?, currency?_modifyCurrency]
  by_cases huc : u = u' ∧ c = c'
  · rw [if_pos huc, Option.bind_map, request?]
    exact Option.bind_congr (fun i _ => by simp only [Function.comp, hf])
  · rw [if_neg huc]
    rfl

theorem withBtcTxCancel_account {up : StateUpdate} {tx : BtcTxCancel} (hb : up.body = .cancelBtcTx tx)
    (h : s.withBtcTxCancel o tx = (s', .ok ())) : AccountChange s up u c (s.currency? u c) (s'.currency? u c) := by
  rcases withBtcTxCancel_eq h with hx | ⟨s₁, rid, h1, hf, rfl⟩
  · exact account_of_users hx
  -- what the deposit's removal does to the account
  have hacc : ∃ owner : Bool, (owner = true → c = .btc) ∧
      s₁.currency? u c = (s.currency? u c).map (fun i => if owner then i.cancelBtcTx tx else i) := by
    rcases h1 with rfl | ⟨ow, -, rfl⟩
    · exact ⟨false, (fun h => by cases h), by simp⟩
    · rw [currency?_modifyCurrency]
      by_cases huc : u = ow ∧ c = .btc
      · exact ⟨true, (fun _ => huc.2), by rw [if_pos huc]; simp⟩
      · exact ⟨false, (fun h => by cases h), by rw [if_neg huc]; simp⟩
  -- the request that is found is one of the State before
  have hreq : ∀ id, rid = some id → ∃ u' c' k r ca fee ins outs, s.request? u' c' k = some r ∧
      r.status = .completed ca (.btc { txid := tx.txid.hex }) fee ins outs ∧ r.id = id := by
    intro id hid
    obtain ⟨u', c', k, r, ca, fee, ins, outs, hr, hst, hrid⟩ := findWithdrawalByTxId_eq_some (hf.trans hid)
    refine ⟨u', c', k, r, ca, fee, ins, outs, ?_, hst, hrid⟩
    rcases h1 with rfl | ⟨ow, -, rfl⟩
    · exact hr
    · have hsame := request?_modifyCurrency_same s u' ow c' .btc k (·.cancelBtcTx tx) (fun _ => rfl)
      rw [← hsame]
      exact hr
  obtain ⟨owner, howner, hacc⟩ := hacc
  have hafter : (rid.elim s₁ (fun id => s₁.mapCurrencies (·.setRequestStatus id (.nodeRejected "Tx canceled")))).currency? u c
      = (s.currency? u c).map (fun i => i.afterCancel tx owner rid) := by
    cases rid with
    | none =>
      rw [Option.elim_none, hacc]
      rfl
    | some id =>
      rw [Option.elim_some, currency?_mapCurrencies, hacc, Option.map_map]
      rfl
  rw [hafter]
  cases s.currency? u c with
  | none => exact .same _
  | some i => exact .canceled i tx owner rid hb howner hreq

/-- A token that is disabled was enabled, with a balance of zero, and its account goes. -/
theorem updateTokens_disable_eq_ok {user : UserId} {token : Erc20Token}
    (h : s.updateTokens { user := user, token := token, action := .disable } = (s', .ok ())) :
    ∃ i, s.currency? user (.erc20 token) = some i ∧ i.balance = 0 ∧
      s' = s.modifyUser user (fun u =>
        { u with
          currencies := u.currencies.erase (.erc20 token)
          limitChangeRequests := u.limitChangeRequests.erase (.erc20 token) }) := by
  unfold updateTokens at h
  simp only at h
  cases hu : s.users.get? user with
  | none => simp [hu] at h
  | some ui =>
    simp only [hu] at h
    cases hc : ui.currencies.get? (.erc20 token) with
    | none => simp [hc] at h
    | some i =>
      simp only [hc] at h
      by_cases hbal : i.balance > 0
      · rw [if_pos hbal] at h
        cases h
      · rw [if_neg hbal] at h
        simp only [Prod.mk.injEq, and_true] at h
        have hzero : i.balance.toNat = 0 := Nat.le_zero.mp (UInt64.le_iff_toNat_le.mp (UInt64.not_lt.mp hbal))
        exact ⟨i, by rw [currency?_of_get? hu, hc], UInt64.toNat_inj.mp hzero, h.symm⟩

/-- The accounts after a token is disabled. -/
theorem currency?_disable (user : UserId) (token : Erc20Token) :
    (s.modifyUser user (fun ui =>
      { ui with
        currencies := ui.currencies.erase (.erc20 token)
        limitChangeRequests := ui.limitChangeRequests.erase (.erc20 token) })).currency? u c =
      if u = user ∧ c = .erc20 token then none else s.currency? u c := by
  rw [currency?_modifyUser]
  by_cases huu : u = user
  · subst huu
    rw [if_pos rfl, currency?]
    cases s.users.get? u with
    | none => simp
    | some ui =>
      simp only [Option.bind_some, AssocMap.get?_erase, true_and]
  · rw [if_neg huu, if_neg (fun h => huu h.1)]

/-- A token that is enabled was not, and its account is new. -/
theorem updateTokens_enable_eq_ok {user : UserId} {token : Erc20Token}
    (h : s.updateTokens { user := user, token := token, action := .enable } = (s', .ok ())) :
    ∃ ui, s.users.get? user = some ui ∧ s.currency? user (.erc20 token) = none ∧
      s' = s.modifyUser user (fun u =>
        { u with currencies := u.currencies.insert (.erc20 token) (UserCurrencyInfo.new (.erc20 token)) }) := by
  unfold updateTokens at h
  simp only at h
  cases hu : s.users.get? user with
  | none => simp [hu] at h
  | some ui =>
    simp only [hu] at h
    by_cases hc : ui.currencies.contains (.erc20 token) = true
    · simp [hc] at h
    · rw [if_neg hc] at h
      simp only [Prod.mk.injEq, and_true] at h
      have hnone : ui.currencies.get? (.erc20 token) = none := by simpa [AssocMap.contains] using hc
      exact ⟨ui, rfl, by rw [currency?_of_get? hu, hnone], h.symm⟩

/-- The accounts after a token is enabled. -/
theorem currency?_enable {user : UserId} {token : Erc20Token} {ui : UserInfo} (hu : s.users.get? user = some ui) :
    (s.modifyUser user (fun ui =>
      { ui with currencies := ui.currencies.insert (.erc20 token) (UserCurrencyInfo.new (.erc20 token)) })).currency? u c =
      if u = user ∧ c = .erc20 token then some (UserCurrencyInfo.new (.erc20 token)) else s.currency? u c := by
  rw [currency?_modifyUser]
  by_cases huu : u = user
  · subst huu
    rw [if_pos rfl, hu, Option.bind_some, AssocMap.get?_insert, currency?_of_get? hu]
    simp only [true_and]
  · rw [if_neg huu, if_neg (fun h => huu h.1)]

theorem updateTokens_account {up : StateUpdate} {req : TokenUpdate} (hb : up.body = .updateTokens req)
    (h : s.updateTokens req = (s', .ok ())) : AccountChange s up u c (s.currency? u c) (s'.currency? u c) := by
  obtain ⟨user, token, action⟩ := req
  cases action with
  | enable =>
    obtain ⟨ui, hu, hnone, rfl⟩ := updateTokens_enable_eq_ok h
    rw [currency?_enable hu]
    by_cases huc : u = user ∧ c = .erc20 token
    · obtain ⟨rfl, rfl⟩ := huc
      rw [if_pos ⟨rfl, rfl⟩, hnone]
      exact .opened (Or.inr ⟨token, hb, rfl⟩)
    · rw [if_neg huc]
      exact .same _
  | disable =>
    obtain ⟨i, hi, hbal, rfl⟩ := updateTokens_disable_eq_ok h
    rw [currency?_disable]
    by_cases huc : u = user ∧ c = .erc20 token
    · obtain ⟨rfl, rfl⟩ := huc
      rw [if_pos ⟨rfl, rfl⟩, hi]
      exact .closed i token hb rfl hbal
    · rw [if_neg huc]
      exact .same _

theorem genInvite_account {up : StateUpdate} {req : InviteRec} (h : s.genInvite req = (s', .ok ())) :
    AccountChange s up u c (s.currency? u c) (s'.currency? u c) := by
  unfold genInvite at h
  cases hi : s.invites.get? req.invite with
  | some r => simp [hi] at h
  | none =>
    simp only [hi, Prod.mk.injEq, and_true] at h
    exact account_of_users (by rw [← h])

theorem insertLimitsReq_account {up : StateUpdate} {req : LimitChangeUpd}
    (h : s.insertLimitsReq o req = (s', .ok ())) : AccountChange s up u c (s.currency? u c) (s'.currency? u c) := by
  unfold insertLimitsReq at h
  cases hu : s.users.get? req.user with
  | none => simp [hu] at h
  | some ui =>
    simp only [hu] at h
    cases hc : ui.currencies.get? req.currency with
    | none => simp [hc] at h
    | some i =>
      simp only [hc, Prod.mk.injEq, and_true] at h
      have hsame : s'.currency? u c = s.currency? u c := by
        rw [← h]
        exact currency?_modifyUser_same s u req.user c _ (fun _ => rfl)
      rw [hsame]
      exact .same _

theorem withLimitChangeDecision_account {up : StateUpdate} {lcd : LimitChangeDecision}
    (hb : up.body = .limitChangeDecision lcd) (h : s.withLimitChangeDecision lcd = (s', .ok ())) :
    AccountChange s up u c (s.currency? u c) (s'.currency? u c) := by
  unfold withLimitChangeDecision at h
  cases hu : s.users.get? lcd.user with
  | none => simp [hu] at h
  | some ui =>
    simp only [hu] at h
    cases hl : ui.limitChangeRequests.get? lcd.currency with
    | none => simp [hl] at h
    | some req =>
      simp only [hl] at h
      cases ha : req.applyDecision lcd with
      | error e => simp [ha] at h
      | ok req' =>
        simp only [ha] at h
        cases hst : req'.status with
        | completed =>
          simp only [hst, Prod.mk.injEq, and_true] at h
          rw [← h, currency?_modifyUser]
          by_cases huu : u = lcd.user
          · subst huu
            simp only [if_true, hu, Option.bind_some, AssocMap.get?_modify, currency?_of_get? hu]
            by_cases hcc : c = lcd.currency
            · subst hcc
              rw [if_pos rfl]
              cases ui.currencies.get? lcd.currency with
              | none => exact .same _
              | some i =>
                have hcompletes : s.completesLimit lcd = true := by
                  simp [completesLimit, limitChange?, hu, hl, ha, hst]
                exact .limited i lcd hb rfl rfl hcompletes
            · rw [if_neg hcc]
              exact .same _
          · rw [if_neg huu]
            exact .same _
        | rejected =>
          simp only [hst, Prod.mk.injEq, and_true] at h
          have hsame : s'.currency? u c = s.currency? u c := by
            rw [← h]
            exact currency?_modifyUser_same s u lcd.user c _ (fun _ => rfl)
          rw [hsame]
          exact .same _
        | inProgress cs rs =>
          simp only [hst, Prod.mk.injEq, and_true] at h
          have hsame : s'.currency? u c = s.currency? u c := by
            rw [← h]
            exact currency?_modifyUser_same s u lcd.user c _ (fun _ => rfl)
          rw [hsame]
          exact .same _

theorem addExchangeRequest_account {up : StateUpdate} {req : ExchangeOrderUpd} (hb : up.body = .exchangeRequest req)
    (h : s.addExchangeRequest req = (s', .ok ())) : AccountChange s up u c (s.currency? u c) (s'.currency? u c) := by
  unfold addExchangeRequest at h
  cases hu : s.users.get? req.user with
  | none => simp [hu] at h
  | some ui =>
    simp only [hu] at h
    cases hc : ui.currencies.get? req.currencyFrom with
    | none => simp [hc] at h
    | some i =>
      simp only [hc] at h
      by_cases hbal : i.balance < req.amountFrom
      · simp [hbal] at h
      · rw [if_neg hbal] at h
        simp only [Prod.mk.injEq, and_true] at h
        rw [← h, currency?_modifyCurrency]
        by_cases huc : u = req.user ∧ c = req.currencyFrom
        · obtain ⟨rfl, rfl⟩ := huc
          rw [if_pos ⟨rfl, rfl⟩, currency?_of_get? hu, hc]
          exact .ordered i req hb rfl rfl (UInt64.not_lt.mp hbal)
        · rw [if_neg huc]
          exact .same _

/-- A decision on an order that is accepted, and what it does to every account. -/
theorem applyExchangeDecision_eq_ok {req : ExchangeDecision} {completes : Bool}
    (h : s.applyExchangeDecision req = (s', .ok completes)) :
    ∃ j ex ex', s.currency? req.user req.currencyFrom = some j ∧ j.exchangeRequests.get? req.id = some ex ∧
      ex.applyDecision EXCHANGE_NUMBER_OF_CONFIRMATIONS req = .ok (ex', completes) ∧
      s'.users = (s.modifyCurrency req.user req.currencyFrom (fun i =>
        { i with exchangeRequests := i.exchangeRequests.modify req.id (fun _ => ex') })).users := by
  unfold applyExchangeDecision at h
  cases hu : s.users.get? req.user with
  | none => simp [hu] at h
  | some ui =>
    simp only [hu] at h
    cases hc : ui.currencies.get? req.currencyFrom with
    | none => simp [hc] at h
    | some j =>
      simp only [hc] at h
      cases he : j.exchangeRequests.get? req.id with
      | none => simp [he] at h
      | some ex =>
        simp only [he] at h
        cases ha : ex.applyDecision EXCHANGE_NUMBER_OF_CONFIRMATIONS req with
        | error e => simp [ha] at h
        | ok p =>
          obtain ⟨ex', b⟩ := p
          simp only [ha] at h
          refine ⟨j, ex, ex', by rw [currency?_of_get? hu, hc], he, ?_⟩
          cases b with
          | true =>
            simp only [if_true, Prod.mk.injEq, Except.ok.injEq] at h
            exact ⟨by rw [ha, ← h.2], by rw [← h.1]⟩
          | false =>
            simp only [Bool.false_eq_true, if_false, Prod.mk.injEq, Except.ok.injEq] at h
            exact ⟨by rw [ha, ← h.2], by rw [← h.1]⟩

/-- A decision that is accepted is a vote on the order it is about, and changes the accounts of that order's user. -/
theorem withExchangeDecision_eq_ok {req : ExchangeDecision} (h : s.withExchangeDecision req = (s', .ok ())) :
    ∃ j ex ex' completes, s.currency? req.user req.currencyFrom = some j ∧ j.exchangeRequests.get? req.id = some ex ∧
      ex.applyDecision EXCHANGE_NUMBER_OF_CONFIRMATIONS req = .ok (ex', completes) ∧
      ∀ u c, s'.currency? u c = if u = req.user then
        (s.currency? u c).map (fun i => i.afterExchange c req ex' completes) else s.currency? u c := by
  unfold withExchangeDecision at h
  generalize hd : s.applyExchangeDecision req = out at h
  obtain ⟨s₁, r⟩ := out
  cases r with
  | error e => simp at h
  | ok completes =>
    obtain ⟨j, ex, ex', hj, hex, ha, hs₁⟩ := applyExchangeDecision_eq_ok hd
    refine ⟨j, ex, ex', completes, hj, hex, ha, fun u c => ?_⟩
    have h1 : s₁.currency? u c = if u = req.user ∧ c = req.currencyFrom then
        (s.currency? u c).map (fun i => { i with exchangeRequests := i.exchangeRequests.modify req.id (fun _ => ex') })
        else s.currency? u c := by
      rw [currency?_congr hs₁, currency?_modifyCurrency]
    cases completes with
    | false =>
      simp only [Prod.mk.injEq, and_true] at h
      rw [← h, h1]
      by_cases hu : u = req.user
      · by_cases hc : c = req.currencyFrom
        · rw [if_pos ⟨hu, hc⟩, if_pos hu]
          simp [UserCurrencyInfo.afterExchange, hc]
        · rw [if_neg (fun h => hc h.2), if_pos hu]
          simp [UserCurrencyInfo.afterExchange, hc]
      · rw [if_neg (fun h => hu h.1), if_neg hu]
    | true =>
      simp only at h
      have h2 : s' = s₁.modifyCurrency req.user req.currencyTo (·.insertIncoming req.id req.amountTo) := by
        unfold addIncomingExchange at h
        split at h
        · cases h
        · split at h
          · cases h
          · simp only [Prod.mk.injEq, and_true] at h
            exact h.symm
      rw [h2, currency?_modifyCurrency, h1]
      by_cases hu : u = req.user
      · by_cases hc : c = req.currencyFrom
        · by_cases hct : c = req.currencyTo
          · simp [UserCurrencyInfo.afterExchange, hu, ← hc, ← hct, Option.map_map, Function.comp_def]
          · simp [UserCurrencyInfo.afterExchange, hu, ← hc, hct]
        · by_cases hct : c = req.currencyTo
          · simp [UserCurrencyInfo.afterExchange, hu, hc, ← hct]
          · simp [UserCurrencyInfo.afterExchange, hu, hc, hct]
      · simp [hu]

theorem withExchangeDecision_account {up : StateUpdate} {req : ExchangeDecision} (hb : up.body = .exchangeDecision req)
    (h : s.withExchangeDecision req = (s', .ok ())) : AccountChange s up u c (s.currency? u c) (s'.currency? u c) := by
  obtain ⟨j, ex, ex', completes, hj, hex, ha, hafter⟩ := withExchangeDecision_eq_ok h
  rw [hafter]
  by_cases hu : u = req.user
  · rw [if_pos hu]
    cases s.currency? u c with
    | none => exact .same _
    | some i => exact .exchanged i j req ex ex' completes hb hu.symm (hu ▸ hj) hex ha
  · rw [if_neg hu]
    exact .same _

end State

/-! ## The inversion -/

/-- What an accepted update, other than a snapshot, does to an account. -/
theorem applyUpdate_account {s s' : State} {o : Oracle} {up : StateUpdate} {res : Option UpdateResult}
    (h : s.applyUpdate o up = (s', .ok res)) (hs : ¬up.body.IsSnapshot) (u : UserId) (c : Currency) :
    AccountChange s up u c (s.currency? u c) (s'.currency? u c) := by
  unfold State.applyUpdate at h
  cases hb : up.body with
  | snapshot s₀ => exact absurd (by rw [hb]; trivial) hs
  | signup info => rw [hb] at h; exact State.account_of_stamped h (fun _ _ hm => State.withSignup_account hm)
  | createWithdrawalRequest info =>
    rw [hb] at h
    exact State.account_of_stamped h (fun _ _ hm => State.withNewWithdrawalRequest_account hb hm)
  | withdrawalRequestDecision d =>
    rw [hb] at h
    exact State.account_of_stamped h (fun _ _ hm => State.withWithdrawalRequestDecision_account hb hm)
  | withdrawalRequestComplete info =>
    rw [hb] at h
    refine State.account_of_stamped h (fun _ _ hm => ?_)
    rw [← (Prod.mk.inj hm).1]
    exact State.mapCurrencies_account (fun i => .completed i info hb)
  | withdrawalRequestNodeRejected info =>
    rw [hb] at h
    refine State.account_of_stamped h (fun _ _ hm => ?_)
    rw [← (Prod.mk.inj hm).1]
    exact State.mapCurrencies_account (fun i => .nodeRejected i info hb)
  | depositAddress dep =>
    rw [hb] at h
    exact State.account_of_stamped h (fun _ _ hm => State.withDepositAddress_account hb hm)
  | bestBtcBlock btc =>
    rw [hb] at h
    exact State.account_of_stamped h (fun _ _ hm => State.account_of_users (by rw [← (Prod.mk.inj hm).1]))
  | updateBtcTx tx =>
    rw [hb] at h
    exact State.account_of_stamped h (fun _ _ hm => State.withBtcTxUpdate_account hb hm)
  | cancelBtcTx tx =>
    rw [hb] at h
    exact State.account_of_stamped h (fun _ _ hm => State.withBtcTxCancel_account hb hm)
  | updateTokens req =>
    rw [hb] at h
    exact State.account_of_stamped h (fun _ _ hm => State.updateTokens_account hb hm)
  | genInvite req => rw [hb] at h; exact State.account_of_stamped h (fun _ _ hm => State.genInvite_account hm)
  | limitsChangeRequest req =>
    rw [hb] at h
    exact State.account_of_stamped h (fun _ _ hm => State.insertLimitsReq_account hm)
  | cancelLimitChange req =>
    rw [hb] at h
    exact State.account_of_stamped h (fun _ _ hm => State.updateUser_account hm (fun _ => rfl))
  | limitChangeDecision lcd =>
    rw [hb] at h
    exact State.account_of_stamped h (fun _ _ hm => State.withLimitChangeDecision_account hb hm)
  | clearLimits span =>
    rw [hb] at h
    refine State.account_of_stamped h (fun _ _ hm => ?_)
    rw [← (Prod.mk.inj hm).1]
    exact State.mapCurrencies_account (fun i => .cleared i span hb)
  | setLanguage req =>
    rw [hb] at h
    exact State.account_of_stamped h (fun _ _ hm => State.updateUser_account hm (fun _ => rfl))
  | configUpdate req =>
    rw [hb] at h
    exact State.account_of_stamped h (fun _ _ hm => State.updateUser_account hm (fun _ => rfl))
  | passwordChange req =>
    rw [hb] at h
    exact State.account_of_stamped h (fun _ _ hm => State.updateUser_account hm (fun _ => rfl))
  | setPublicKey req =>
    rw [hb] at h
    exact State.account_of_stamped h (fun _ _ hm => State.updateUser_account hm (fun _ => rfl))
  | exchangeRequest req =>
    rw [hb] at h
    exact State.account_of_stamped h (fun _ _ hm => State.addExchangeRequest_account hb hm)
  | exchangeDecision req =>
    rw [hb] at h
    exact State.account_of_stamped h (fun _ _ hm => State.withExchangeDecision_account hb hm)
  | exchangeAddress req =>
    rw [hb] at h
    exact State.account_of_stamped h (fun _ _ hm => State.account_of_users (by rw [← (Prod.mk.inj hm).1]))

end Hexstody
