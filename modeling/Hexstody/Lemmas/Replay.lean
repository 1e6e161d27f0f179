import Hexstody.Lemmas.Account
import Hexstody.Queries

/-!
# What the application of an update depends on

No method reads the time of the last change (`atTime`); only a sign-up and a new withdrawal keep the time the update is stamped
with (`UpdateBody.keepsStamp`); and an iteration order shows only in the searches for the owner of an address and for the
withdrawal that a transaction completed, where these have more than one thing to find (`State.unambiguous`). Apart from these
an update does the same to equal States (`applyUpdate_same`).
-/

namespace Hexstody

/-- The State, changed last at another time. -/
def State.atTime (s : State) (t : NaiveDateTime) : State := { s with lastChanged := t }

/-- The outcome, with the State changed last at another time. -/
def Outcome.atTime {α : Type} (t : NaiveDateTime) (out : Outcome α) : Outcome α := (out.1.atTime t, out.2)

/-- The same outcome, but for the time of the last change. -/
def Outcome.Alike {α : Type} (out out' : Outcome α) : Prop := out.1.Same out'.1 ∧ out'.2 = out.2

theorem State.Same.refl (s : State) : s.Same s := ⟨rfl, rfl, rfl, rfl⟩

theorem State.Same.eq_atTime {s s' : State} (h : s.Same s') : s' = s.atTime s'.lastChanged := by
  obtain ⟨users, t, btcState, invites, exchangeState⟩ := s'
  obtain ⟨rfl, rfl, rfl, rfl⟩ := h
  rfl

namespace State

variable {s : State} {t : NaiveDateTime}

@[simp] theorem users_atTime : (s.atTime t).users = s.users := rfl

@[simp] theorem invites_atTime : (s.atTime t).invites = s.invites := rfl

@[simp] theorem exchangeState_atTime : (s.atTime t).exchangeState = s.exchangeState := rfl

/-! ## One lemma for each method -/

theorem updateUser_atTime (u : UserId) (f : UserInfo → UserInfo) :
    (s.atTime t).updateUser u f = Outcome.atTime t (s.updateUser u f) := by
  unfold updateUser
  rw [users_atTime]
  cases s.users.get? u <;> rfl

theorem withSignup_atTime (created : NaiveDateTime) (info : SignupInfo) :
    (s.atTime t).withSignup created info = Outcome.atTime t (s.withSignup created info) := by
  unfold withSignup
  rw [users_atTime, invites_atTime]
  by_cases h1 : s.users.contains info.username = true
  · rw [if_pos h1, if_pos h1]
    rfl
  · rw [if_neg h1, if_neg h1]
    by_cases h2 : (!s.invites.contains info.invite) = true
    · rw [if_pos h2, if_pos h2]
      rfl
    · rw [if_neg h2, if_neg h2]
      rfl

theorem genInvite_atTime (req : InviteRec) : (s.atTime t).genInvite req = Outcome.atTime t (s.genInvite req) := by
  unfold genInvite
  rw [invites_atTime]
  cases s.invites.get? req.invite <;> rfl

theorem withNewWithdrawalRequest_atTime (created : NaiveDateTime) (info : WithdrawalRequestInfo) :
    (s.atTime t).withNewWithdrawalRequest created info = Outcome.atTime t (s.withNewWithdrawalRequest created info) := by
  unfold withNewWithdrawalRequest
  simp only [users_atTime]
  cases s.users.get? (WithdrawalRequest.ofInfo created info).user with
  | none => rfl
  | some user =>
    simp only
    cases user.currencies.get? (WithdrawalRequest.ofInfo created info).address.currency with
    | none => rfl
    | some i =>
      simp only
      cases (WithdrawalRequest.ofInfo created info).requestType with
      | overLimit => rfl
      | underLimit =>
        simp only
        split <;> rfl

theorem withWithdrawalRequestDecision_atTime (d : WithdrawalRequestDecisionInfo) :
    (s.atTime t).withWithdrawalRequestDecision d = Outcome.atTime t (s.withWithdrawalRequestDecision d) := by
  unfold withWithdrawalRequestDecision
  have hget : (s.atTime t).getWithdrawalRequestByDecisionInfo d = s.getWithdrawalRequestByDecisionInfo d := rfl
  rw [hget]
  cases s.getWithdrawalRequestByDecisionInfo d with
  | error e => rfl
  | ok r =>
    simp only
    cases r.applyDecision d <;> rfl

theorem withDepositAddress_atTime (dep : DepositAddress) :
    (s.atTime t).withDepositAddress dep = Outcome.atTime t (s.withDepositAddress dep) := by
  unfold withDepositAddress
  simp only [users_atTime]
  cases s.users.get? dep.userId with
  | none => rfl
  | some user =>
    simp only
    cases user.currencies.get? dep.address.currency with
    | none => rfl
    | some i =>
      simp only
      split <;> rfl

theorem withDepositOwner_atTime (o : Oracle) (a : CurrencyAddress) (f : UserCurrencyInfo → UserCurrencyInfo) :
    (s.atTime t).withDepositOwner o a f = Outcome.atTime t (s.withDepositOwner o a f) := by
  unfold withDepositOwner
  have hfind : (s.atTime t).findUserAddress o a = s.findUserAddress o a := rfl
  rw [hfind, users_atTime]
  cases s.findUserAddress o a with
  | none => rfl
  | some u =>
    simp only
    cases s.users.get? u with
    | none => rfl
    | some user =>
      simp only
      cases user.currencies.get? .btc <;> rfl

theorem withBtcTxUpdate_atTime (o : Oracle) (tx : BtcTransaction) :
    (s.atTime t).withBtcTxUpdate o tx = Outcome.atTime t (s.withBtcTxUpdate o tx) := by
  unfold withBtcTxUpdate
  have hex : (s.atTime t).isExchangeAddress (btcAddress tx.address) = s.isExchangeAddress (btcAddress tx.address) := rfl
  simp only [hex, withDepositOwner_atTime]
  by_cases h : s.isExchangeAddress (btcAddress tx.address) = true
  · rw [if_pos h, if_pos h]
    rfl
  · rw [if_neg h, if_neg h]

theorem withBtcTxCancel_atTime (o : Oracle) (tx : BtcTxCancel) :
    (s.atTime t).withBtcTxCancel o tx = Outcome.atTime t (s.withBtcTxCancel o tx) := by
  unfold withBtcTxCancel
  have hex : (s.atTime t).isExchangeAddress (btcAddress tx.address) = s.isExchangeAddress (btcAddress tx.address) := rfl
  simp only [hex, withDepositOwner_atTime]
  by_cases h : s.isExchangeAddress (btcAddress tx.address) = true
  · rw [if_pos h, if_pos h]
    rfl
  · rw [if_neg h, if_neg h]
    generalize s.withDepositOwner o (btcAddress tx.address) (·.cancelBtcTx tx) = out
    obtain ⟨s₁, res⟩ := out
    have hfind : (s₁.atTime t).findWithdrawalByTxId o (.btc { txid := tx.txid.hex }) =
        s₁.findWithdrawalByTxId o (.btc { txid := tx.txid.hex }) := rfl
    simp only [Outcome.atTime, hfind]
    cases s₁.findWithdrawalByTxId o (.btc { txid := tx.txid.hex }) <;> cases res <;> rfl

theorem updateTokens_atTime (req : TokenUpdate) :
    (s.atTime t).updateTokens req = Outcome.atTime t (s.updateTokens req) := by
  unfold updateTokens
  simp only [users_atTime]
  cases s.users.get? req.user with
  | none => rfl
  | some user =>
    simp only
    cases req.action with
    | enable =>
      simp only
      split <;> rfl
    | disable =>
      simp only
      cases user.currencies.get? (.erc20 req.token) with
      | none => rfl
      | some i =>
        simp only
        split <;> rfl

theorem insertLimitsReq_atTime (o : Oracle) (req : LimitChangeUpd) :
    (s.atTime t).insertLimitsReq o req = Outcome.atTime t (s.insertLimitsReq o req) := by
  unfold insertLimitsReq
  rw [users_atTime]
  cases s.users.get? req.user with
  | none => rfl
  | some user =>
    simp only
    cases user.currencies.get? req.currency <;> rfl

theorem withLimitChangeDecision_atTime (lcd : LimitChangeDecision) :
    (s.atTime t).withLimitChangeDecision lcd = Outcome.atTime t (s.withLimitChangeDecision lcd) := by
  unfold withLimitChangeDecision
  rw [users_atTime]
  cases s.users.get? lcd.user with
  | none => rfl
  | some user =>
    simp only
    cases user.limitChangeRequests.get? lcd.currency with
    | none => rfl
    | some req =>
      simp only
      cases req.applyDecision lcd with
      | error e => rfl
      | ok req' =>
        simp only
        cases req'.status <;> rfl

theorem addExchangeRequest_atTime (req : ExchangeOrderUpd) :
    (s.atTime t).addExchangeRequest req = Outcome.atTime t (s.addExchangeRequest req) := by
  unfold addExchangeRequest
  rw [users_atTime]
  cases s.users.get? req.user with
  | none => rfl
  | some user =>
    simp only
    cases user.currencies.get? req.currencyFrom with
    | none => rfl
    | some i =>
      simp only
      split <;> rfl

theorem applyExchangeDecision_atTime (req : ExchangeDecision) :
    (s.atTime t).applyExchangeDecision req = Outcome.atTime t (s.applyExchangeDecision req) := by
  unfold applyExchangeDecision
  rw [users_atTime]
  cases s.users.get? req.user with
  | none => rfl
  | some user =>
    simp only
    cases user.currencies.get? req.currencyFrom with
    | none => rfl
    | some i =>
      simp only
      cases i.exchangeRequests.get? req.id with
      | none => rfl
      | some ex =>
        simp only
        cases ex.applyDecision EXCHANGE_NUMBER_OF_CONFIRMATIONS req with
        | error e => rfl
        | ok p =>
          obtain ⟨ex', completes⟩ := p
          cases completes <;> rfl

theorem addIncomingExchange_atTime (req : ExchangeDecision) :
    (s.atTime t).addIncomingExchange req = Outcome.atTime t (s.addIncomingExchange req) := by
  unfold addIncomingExchange
  rw [users_atTime]
  cases s.users.get? req.user with
  | none => rfl
  | some user =>
    simp only
    cases user.currencies.get? req.currencyTo <;> rfl

theorem withExchangeDecision_atTime (req : ExchangeDecision) :
    (s.atTime t).withExchangeDecision req = Outcome.atTime t (s.withExchangeDecision req) := by
  unfold withExchangeDecision
  rw [applyExchangeDecision_atTime]
  obtain ⟨s₁, res⟩ := s.applyExchangeDecision req
  cases res with
  | error e => rfl
  | ok completes =>
    cases completes with
    | false => rfl
    | true => exact addIncomingExchange_atTime req

/-! ## Searches -/

/-- The requests of all accounts in a currency. -/
def requestsIn (s : State) (c : Currency) : List WithdrawalRequest :=
  s.users.values.flatMap (fun ui => ((ui.currencies.get? c).map (·.withdrawalRequests.values)).getD [])

/-- An address belongs to no two users. -/
def OneOwner (s : State) (a : CurrencyAddress) : Prop :=
  ∀ e ∈ s.users.entries, ∀ e' ∈ s.users.entries, e.2.hasAddress a = true → e'.2.hasAddress a = true → e.1 = e'.1

end State

/-- The request was completed by a transaction. -/
def WithdrawalRequest.isCompletedBy (r : WithdrawalRequest) (txid : CurrencyTxId) : Bool :=
  match r.status with
  | .completed _ txid' _ _ _ => decide (txid = txid')
  | _ => false

/-- What is found at a request is its id, if the transaction completed it. -/
theorem WithdrawalRequest.isCompletedBy_of_found {r : WithdrawalRequest} {txid : CurrencyTxId} {id : WithdrawalRequestId}
    (h : (match r.status with
      | .completed _ txid' _ _ _ => if txid = txid' then some r.id else none
      | _ => none) = some id) : r.isCompletedBy txid = true ∧ r.id = id := by
  unfold isCompletedBy
  cases hst : r.status with
  | completed ca txid' fee ins outs =>
    simp only [hst] at h
    by_cases ht : txid = txid'
    · rw [if_pos ht] at h
      exact ⟨decide_eq_true ht, Option.some.inj h⟩
    · rw [if_neg ht] at h
      cases h
  | inProgress n => simp [hst] at h
  | confirmed => simp [hst] at h
  | opRejected => simp [hst] at h
  | nodeRejected reason => simp [hst] at h

/-- The request of an account that a transaction completed, if it is one, is found in any order. -/
theorem UserCurrencyInfo.findCompletedRequest_eq {i : UserCurrencyInfo} {txid : CurrencyTxId}
    (h : ∀ k r k' r', i.withdrawalRequests.get? k = some r → i.withdrawalRequests.get? k' = some r' →
      r.isCompletedBy txid = true → r'.isCompletedBy txid = true → r.id = r'.id) (o o' : IterOrder WithdrawalRequestId) :
    i.findCompletedRequest o txid = i.findCompletedRequest o' txid := by
  unfold findCompletedRequest
  by_cases hc : txid.currency = i.currency
  · rw [if_pos hc, if_pos hc]
    refine AssocMap.findVal?_eq_of_unique _ _ ?_
    intro k r k' r' x x' hk hx hk' hx'
    obtain ⟨h1, rfl⟩ := WithdrawalRequest.isCompletedBy_of_found hx
    obtain ⟨h2, rfl⟩ := WithdrawalRequest.isCompletedBy_of_found hx'
    exact h k r k' r' hk hk' h1 h2
  · rw [if_neg hc, if_neg hc]

namespace State

variable {s : State} {t : NaiveDateTime}

instance (s : State) (a : CurrencyAddress) : Decidable (s.OneOwner a) := by
  unfold OneOwner
  exact inferInstance

/-- A transaction completed no two withdrawals. -/
def OneCompleted (s : State) (txid : CurrencyTxId) : Prop :=
  ∀ r ∈ s.requestsIn txid.currency, ∀ r' ∈ s.requestsIn txid.currency,
    r.isCompletedBy txid = true → r'.isCompletedBy txid = true → r.id = r'.id

instance (s : State) (txid : CurrencyTxId) : Decidable (s.OneCompleted txid) := by
  unfold OneCompleted
  exact inferInstance

/-- What the application of an update searches for is one thing, if it is there. -/
def unambiguous (s : State) : UpdateBody → Bool
  | .updateBtcTx tx => s.isExchangeAddress (btcAddress tx.address) || decide (s.OneOwner (btcAddress tx.address))
  | .cancelBtcTx tx => s.isExchangeAddress (btcAddress tx.address) ||
      decide (s.OneOwner (btcAddress tx.address) ∧ s.OneCompleted (.btc { txid := tx.txid.hex }))
  | _ => true

theorem mem_requestsIn {c : Currency} {r : WithdrawalRequest} :
    r ∈ s.requestsIn c ↔ ∃ u k, s.request? u c k = some r := by
  simp only [requestsIn, List.mem_flatMap]
  constructor
  · rintro ⟨ui, hui, hr⟩
    obtain ⟨u, hu⟩ := (AssocMap.mem_values_iff s.users ui).mp hui
    cases hc : ui.currencies.get? c with
    | none => simp [hc] at hr
    | some i =>
      rw [hc] at hr
      obtain ⟨k, hk⟩ := (AssocMap.mem_values_iff i.withdrawalRequests r).mp hr
      exact ⟨u, k, by rw [request?_of_currency? (i := i) (by rw [currency?_of_get? hu, hc]), hk]⟩
  · rintro ⟨u, k, hr⟩
    obtain ⟨i, hi, hk⟩ := request?_eq_some hr
    obtain ⟨ui, hu, hc⟩ := Option.bind_eq_some_iff.mp hi
    refine ⟨ui, (AssocMap.mem_values_iff s.users ui).mpr ⟨u, hu⟩, ?_⟩
    rw [hc]
    exact (AssocMap.mem_values_iff i.withdrawalRequests r).mpr ⟨k, hk⟩

/-- The owner of an address, if it has one owner, is found in any order. -/
theorem findUserAddress_eq {a : CurrencyAddress} (h : s.OneOwner a) (o o' : Oracle) :
    s.findUserAddress o a = s.findUserAddress o' a := by
  refine AssocMap.findVal?_eq_of_unique _ _ ?_
  intro u ui u' ui' x x' hu hx hu' hx'
  by_cases ha : ui.hasAddress a = true
  · by_cases ha' : ui'.hasAddress a = true
    · rw [if_pos ha] at hx
      rw [if_pos ha'] at hx'
      have heq := h ⟨u, ui⟩ ((AssocMap.mem_entries_iff _ _ _).mpr hu) ⟨u', ui'⟩ ((AssocMap.mem_entries_iff _ _ _).mpr hu')
        ha ha'
      rw [← Option.some.inj hx, ← Option.some.inj hx']
      exact heq
    · rw [if_neg ha'] at hx'
      cases hx'
  · rw [if_neg ha] at hx
    cases hx

/-- A request of one of the users' accounts in the currency of a transaction. -/
theorem mem_requestsIn_of_get? {u : UserId} {ui : UserInfo} {c : Currency} {i : UserCurrencyInfo} {k : WithdrawalRequestId}
    {r : WithdrawalRequest} (hu : s.users.get? u = some ui) (hc : ui.currencies.get? c = some i)
    (hk : i.withdrawalRequests.get? k = some r) : r ∈ s.requestsIn c := by
  refine mem_requestsIn.mpr ⟨u, k, ?_⟩
  rw [request?_of_currency? (i := i) (by rw [currency?_of_get? hu, hc]), hk]

/-- The withdrawal that a transaction completed, if it is one, is found in any order. -/
theorem findWithdrawalByTxId_eq {txid : CurrencyTxId} (h : s.OneCompleted txid) (o o' : Oracle) :
    s.findWithdrawalByTxId o txid = s.findWithdrawalByTxId o' txid := by
  -- in the accounts of one user
  have hinner : ∀ u ui, s.users.get? u = some ui →
      ui.findCompletedRequest o.requests txid = ui.findCompletedRequest o'.requests txid := by
    intro u ui hu
    unfold UserInfo.findCompletedRequest
    cases hc : ui.currencies.get? txid.currency with
    | none => rfl
    | some i =>
      refine UserCurrencyInfo.findCompletedRequest_eq ?_ _ _
      intro k r k' r' hk hk' h1 h2
      exact h r (mem_requestsIn_of_get? hu hc hk) r' (mem_requestsIn_of_get? hu hc hk') h1 h2
  -- over the users
  have hfound : ∀ {u ui id}, s.users.get? u = some ui → ui.findCompletedRequest o'.requests txid = some id →
      ∃ r ∈ s.requestsIn txid.currency, r.isCompletedBy txid = true ∧ r.id = id := by
    intro u ui id hu hf
    unfold UserInfo.findCompletedRequest at hf
    cases hc : ui.currencies.get? txid.currency with
    | none => rw [hc] at hf; cases hf
    | some i =>
      rw [hc] at hf
      obtain ⟨k, r, ca, fee, ins, outs, hk, hst, hid⟩ := findCompletedRequest_eq_some hf
      exact ⟨r, mem_requestsIn_of_get? hu hc hk, by simp [WithdrawalRequest.isCompletedBy, hst], hid⟩
  unfold findWithdrawalByTxId
  rw [AssocMap.findVal?_congr (g := fun _ user => user.findCompletedRequest o'.requests txid) hinner]
  refine AssocMap.findVal?_eq_of_unique _ _ ?_
  intro u ui u' ui' x x' hu hx hu' hx'
  obtain ⟨r, hr, h1, rfl⟩ := hfound hu hx
  obtain ⟨r', hr', h2, rfl⟩ := hfound hu' hx'
  exact h r hr r' hr' h1 h2

/-- A change of accounts that keeps the requests keeps what a transaction completed. -/
theorem oneCompleted_congr {s' : State} {txid : CurrencyTxId} (h : ∀ u c k, s'.request? u c k = s.request? u c k)
    (h1 : s.OneCompleted txid) : s'.OneCompleted txid := by
  have hmem : ∀ r, r ∈ s'.requestsIn txid.currency → r ∈ s.requestsIn txid.currency := by
    intro r hr
    obtain ⟨u, k, hk⟩ := mem_requestsIn.mp hr
    exact mem_requestsIn.mpr ⟨u, k, by rw [← h, hk]⟩
  intro r hr r' hr' hby hby'
  exact h1 r (hmem r hr) r' (hmem r' hr') hby hby'

/-! ## The methods that search -/

theorem withDepositOwner_eq_of_oneOwner {a : CurrencyAddress} (h : s.OneOwner a) (o o' : Oracle)
    (f : UserCurrencyInfo → UserCurrencyInfo) : s.withDepositOwner o a f = s.withDepositOwner o' a f := by
  unfold withDepositOwner
  rw [findUserAddress_eq h o o']

theorem withBtcTxUpdate_eq {tx : BtcTransaction} (h : s.unambiguous (.updateBtcTx tx) = true) (o o' : Oracle) :
    s.withBtcTxUpdate o tx = s.withBtcTxUpdate o' tx := by
  unfold withBtcTxUpdate
  by_cases hx : s.isExchangeAddress (btcAddress tx.address) = true
  · simp only [if_pos hx]
  · simp only [if_neg hx]
    have howner : s.OneOwner (btcAddress tx.address) := by simpa [unambiguous, hx] using h
    exact withDepositOwner_eq_of_oneOwner howner o o' _

theorem withBtcTxCancel_eq_of_unambiguous {tx : BtcTxCancel} (h : s.unambiguous (.cancelBtcTx tx) = true) (o o' : Oracle) :
    s.withBtcTxCancel o tx = s.withBtcTxCancel o' tx := by
  unfold withBtcTxCancel
  by_cases hx : s.isExchangeAddress (btcAddress tx.address) = true
  · simp only [if_pos hx]
  · obtain ⟨howner, hcompleted⟩ : s.OneOwner (btcAddress tx.address) ∧ s.OneCompleted (.btc { txid := tx.txid.hex }) := by
      simpa [unambiguous, hx] using h
    simp only [if_neg hx, withDepositOwner_eq_of_oneOwner howner o o']
    generalize hd : s.withDepositOwner o' (btcAddress tx.address) (·.cancelBtcTx tx) = out
    obtain ⟨s₁, res⟩ := out
    have hsame : ∀ u c k, s₁.request? u c k = s.request? u c k := by
      intro u c k
      rcases withDepositOwner_eq hd with rfl | ⟨owner, -, rfl⟩
      · rfl
      · exact request?_modifyCurrency_same s u owner c .btc k (·.cancelBtcTx tx) (fun _ => rfl)
    simp only [findWithdrawalByTxId_eq (oneCompleted_congr hsame hcompleted) o o']

theorem insertLimitsReq_eq {o o' : Oracle} (hid : o'.newId = o.newId) (hnow : o'.now = o.now) (req : LimitChangeUpd) :
    s.insertLimitsReq o' req = s.insertLimitsReq o req := by
  unfold insertLimitsReq
  rw [hid, hnow]

/-! ## The dispatch -/

/-- An update does the same in a State changed last at another time, whatever it is stamped with. -/
theorem stamped_atTime {α : Type} (created created' t : NaiveDateTime) (out : Outcome α) (f : α → Option UpdateResult) :
    Outcome.Alike (stamped created out f) (stamped created' (Outcome.atTime t out) f) := by
  obtain ⟨s, r⟩ := out
  cases r <;> exact ⟨⟨rfl, rfl, rfl, rfl⟩, rfl⟩

/-- Two applications of an update differ only where a limit change is requested or a transaction searched for. -/
theorem applyUpdate_congr_oracle {o o' : Oracle} {u : StateUpdate}
    (hlimit : ∀ req, u.body = .limitsChangeRequest req → s.insertLimitsReq o req = s.insertLimitsReq o' req)
    (hupdate : ∀ tx, u.body = .updateBtcTx tx → s.withBtcTxUpdate o tx = s.withBtcTxUpdate o' tx)
    (hcancel : ∀ tx, u.body = .cancelBtcTx tx → s.withBtcTxCancel o tx = s.withBtcTxCancel o' tx) :
    s.applyUpdate o u = s.applyUpdate o' u := by
  unfold applyUpdate
  cases hbody : u.body with
  | limitsChangeRequest req => simp only [hlimit req hbody]
  | updateBtcTx tx => simp only [hupdate tx hbody]
  | cancelBtcTx tx => simp only [hcancel tx hbody]
  | _ => rfl

end State

/-- The update keeps the time it is stamped with in what it creates. -/
def UpdateBody.keepsStamp : UpdateBody → Bool
  | .signup _ => true
  | .createWithdrawalRequest _ => true
  | _ => false

/-- No update depends on the time of the last change, and few on the time they are stamped with. -/
theorem applyUpdate_atTime (s : State) (t : NaiveDateTime) (o : Oracle) {u u' : StateUpdate} (hb : u'.body = u.body)
    (hc : u.body.keepsStamp = true → u'.created = u.created) :
    Outcome.Alike (s.applyUpdate o u) ((s.atTime t).applyUpdate o u') := by
  unfold State.applyUpdate
  rw [hb]
  cases hbody : u.body with
  | signup info =>
    rw [hbody] at hc
    simp only [hc rfl, State.withSignup_atTime]
    exact State.stamped_atTime _ _ t _ _
  | snapshot s₀ => exact ⟨⟨rfl, rfl, rfl, rfl⟩, rfl⟩
  | createWithdrawalRequest info =>
    rw [hbody] at hc
    simp only [hc rfl, State.withNewWithdrawalRequest_atTime]
    exact State.stamped_atTime _ _ t _ _
  | withdrawalRequestDecision d =>
    simp only [State.withWithdrawalRequestDecision_atTime]
    exact State.stamped_atTime _ _ t _ _
  | depositAddress dep =>
    simp only [State.withDepositAddress_atTime]
    exact State.stamped_atTime _ _ t _ _
  | updateBtcTx tx =>
    simp only [State.withBtcTxUpdate_atTime]
    exact State.stamped_atTime _ _ t _ _
  | cancelBtcTx tx =>
    simp only [State.withBtcTxCancel_atTime]
    exact State.stamped_atTime _ _ t _ _
  | updateTokens req =>
    simp only [State.updateTokens_atTime]
    exact State.stamped_atTime _ _ t _ _
  | genInvite req =>
    simp only [State.genInvite_atTime]
    exact State.stamped_atTime _ _ t _ _
  | limitsChangeRequest req =>
    simp only [State.insertLimitsReq_atTime]
    exact State.stamped_atTime _ _ t _ _
  | cancelLimitChange req =>
    simp only [State.cancelLimitChange, State.updateUser_atTime]
    exact State.stamped_atTime _ _ t _ _
  | limitChangeDecision lcd =>
    simp only [State.withLimitChangeDecision_atTime]
    exact State.stamped_atTime _ _ t _ _
  | setLanguage req =>
    simp only [State.setLanguage, State.updateUser_atTime]
    exact State.stamped_atTime _ _ t _ _
  | configUpdate req =>
    simp only [State.updateUserConfig, State.updateUser_atTime]
    exact State.stamped_atTime _ _ t _ _
  | passwordChange req =>
    simp only [State.changePassword, State.updateUser_atTime]
    exact State.stamped_atTime _ _ t _ _
  | setPublicKey req =>
    simp only [State.setUserPublicKey, State.updateUser_atTime]
    exact State.stamped_atTime _ _ t _ _
  | exchangeRequest req =>
    simp only [State.addExchangeRequest_atTime]
    exact State.stamped_atTime _ _ t _ _
  | exchangeDecision req =>
    simp only [State.withExchangeDecision_atTime]
    exact State.stamped_atTime _ _ t _ _
  | withdrawalRequestComplete info => exact State.stamped_atTime _ _ t (s.setWithdrawalRequestCompleted info) _
  | withdrawalRequestNodeRejected info => exact State.stamped_atTime _ _ t (s.setWithdrawalRequestNodeRejected info) _
  | bestBtcBlock btc =>
    exact State.stamped_atTime _ _ t
      ({ s with btcState := { height := btc.height, blockHash := btc.blockHash } }, .ok ()) _
  | clearLimits span => exact State.stamped_atTime _ _ t (s.clearLimits span) _
  | exchangeAddress req => exact State.stamped_atTime _ _ t (s.setExchangeAddress req) _

/-- An update that is accepted in a State is accepted in one that is the same, does the same, and answers the same. -/
theorem applyUpdate_same {s s' s₁ : State} {o o' : Oracle} {u u' : StateUpdate} {res : Option UpdateResult} (hs : s.Same s')
    (hb : u'.body = u.body) (hc : u.body.keepsStamp = true → u'.created = u.created) (hid : o'.newId = o.newId)
    (hnow : o'.now = o.now) (hun : s.unambiguous u.body = true) (h : s.applyUpdate o u = (s₁, .ok res)) :
    ∃ s₁', s'.applyUpdate o' u' = (s₁', .ok res) ∧ s₁.Same s₁' := by
  have horacle : s.applyUpdate o u = s.applyUpdate o' u := by
    refine State.applyUpdate_congr_oracle (fun req _ => ?_) (fun tx htx => ?_) (fun tx htx => ?_)
    · exact State.insertLimitsReq_eq hid.symm hnow.symm req
    · exact State.withBtcTxUpdate_eq (htx ▸ hun) o o'
    · exact State.withBtcTxCancel_eq_of_unambiguous (htx ▸ hun) o o'
  have halike := applyUpdate_atTime s s'.lastChanged o' hb hc
  rw [← hs.eq_atTime, ← horacle, h] at halike
  exact ⟨_, Prod.ext rfl halike.2, halike.1⟩

end Hexstody
