import Hexstody.State

/-!
# Applying an update

`State::apply_update` and the method it calls for each kind of update. A method changes the State in place and may fail, and a
method that fails has not always left the State as it was: so each returns the State after it together with its outcome.
-/

namespace Hexstody

/-- The threshold of the votes on an exchange order. -/
def EXCHANGE_NUMBER_OF_CONFIRMATIONS : Int16 := 1

/-- The State after a call and the call's outcome. -/
abbrev Outcome (α : Type) : Type := State × Except StateUpdateErr α

namespace State

/-- Change a user that has to be there. -/
def updateUser (s : State) (user : UserId) (f : UserInfo → UserInfo) : Outcome Unit :=
  match s.users.get? user with
  | some _ => (s.modifyUser user f, .ok ())
  | none => (s, .error (.userNotFound user))

/-! ## Users, invites, settings -/

/-- Apply signup state update. -/
def withSignup (s : State) (timestamp : NaiveDateTime) (signup : SignupInfo) : Outcome Unit :=
  if s.users.contains signup.username then (s, .error (.userAlreadyExists signup.username))
  else if !s.invites.contains signup.invite then (s, .error .inviteNotFound)
  else
    ({ s with
        users := s.users.insert signup.username (UserInfo.new signup.username signup.invite signup.auth timestamp)
        invites := s.invites.erase signup.invite }, .ok ())

def genInvite (s : State) (req : InviteRec) : Outcome Unit :=
  match s.invites.get? req.invite with
  | some _ => (s, .error .inviteAlreadyExist)
  | none => ({ s with invites := s.invites.insert req.invite req }, .ok ())

def setLanguage (s : State) (req : SetLanguage) : Outcome Unit :=
  s.updateUser req.user (fun u => { u with config := { u.config with language := req.language } })

/-- The contacts after a change of them. -/
def updatedConfig (req : ConfigUpdateData) (c : UserConfig) : UserConfig :=
  { c with
    email := req.email.elim c.email Except.toOption
    phone := req.phone.elim c.phone Except.toOption
    tgName := req.tgName.elim c.tgName Except.toOption }

def updateUserConfig (s : State) (req : ConfigUpdateData) : Outcome Unit :=
  s.updateUser req.user (fun u => { u with config := updatedConfig req u.config })

def changePassword (s : State) (req : PasswordChangeUpd) : Outcome Unit :=
  s.updateUser req.user (fun u => { u with auth := .password req.newPassword })

def setUserPublicKey (s : State) (req : SetPublicKey) : Outcome Unit :=
  s.updateUser req.user (fun u => { u with publicKey := req.publicKey })

/-! ## Withdrawals -/

/-- Apply new withdrawal request update. -/
def withNewWithdrawalRequest (s : State) (timestamp : NaiveDateTime) (info : WithdrawalRequestInfo) :
    Outcome (Option UpdateResult) :=
  let req := WithdrawalRequest.ofInfo timestamp info
  let currency := req.address.currency
  match s.users.get? req.user with
  | none => (s, .error (.userNotFound req.user))
  | some user =>
    match user.currencies.get? currency with
    | none => (s, .error (.userMissingCurrency req.user currency))
    | some curInfo =>
      match req.requestType with
      | .underLimit =>
        if curInfo.limitInfo.limit.amount < curInfo.limitInfo.spent + req.amount then (s, .error .limitOverflow)
        else (s.modifyCurrency req.user currency (·.insertRequest info.id req), .ok (some (.withdrawalUnderlimit req)))
      | .overLimit => (s.modifyCurrency req.user currency (·.insertRequest info.id req), .ok none)

/-- The request a decision is about. -/
def getWithdrawalRequestByDecisionInfo (s : State) (d : WithdrawalRequestDecisionInfo) :
    Except StateUpdateErr WithdrawalRequest :=
  match s.users.get? d.userId with
  | none => .error (.userNotFound d.userId)
  | some user =>
    match user.currencies.get? d.currency with
    | none => .error (.userMissingCurrency d.userId d.currency)
    | some info =>
      match info.withdrawalRequests.get? d.requestId with
      | none => .error (.withdrawalRequestNotFound d.userId d.requestId)
      | some req => .ok req

/-- Apply withdrawal request decision update. It is not checked here that the public key is in the whitelist, this is done by
the web server. Returns the id if the request was just confirmed. -/
def withWithdrawalRequestDecision (s : State) (d : WithdrawalRequestDecisionInfo) : Outcome (Option WithdrawalRequestId) :=
  match s.getWithdrawalRequestByDecisionInfo d with
  | .error e => (s, .error e)
  | .ok req =>
    match req.applyDecision d with
    | .error e => (s, .error e)
    | .ok (req', confirmed) =>
      (s.modifyCurrency d.userId d.currency (fun i =>
        { i with withdrawalRequests := i.withdrawalRequests.modify d.requestId (fun _ => req') }), .ok confirmed)

def setWithdrawalRequestCompleted (s : State) (info : WithdrawCompleteInfo) : Outcome Unit :=
  (s.mapCurrencies (·.setRequestStatus info.id info.toStatus), .ok ())

def setWithdrawalRequestNodeRejected (s : State) (info : WithdrawalRejectInfo) : Outcome Unit :=
  (s.mapCurrencies (·.setRequestStatus info.id (.nodeRejected info.reason)), .ok ())

/-! ## Deposits -/

/-- Register a deposit address. -/
def withDepositAddress (s : State) (dep : DepositAddress) : Outcome Unit :=
  let currency := dep.address.currency
  match s.users.get? dep.userId with
  | none => (s, .error (.userNotFound dep.userId))
  | some user =>
    match user.currencies.get? currency with
    | none => (s, .error (.userMissingCurrency dep.userId currency))
    | some info =>
      if info.depositInfo.contains dep.address then
        (s, .error (.depositAddressAlreadyAllocated dep.userId dep.address))
      else
        (s.modifyCurrency dep.userId currency (fun i => { i with depositInfo := i.depositInfo ++ [dep.address] }), .ok ())

/-- The address of a transaction, as deposit addresses are kept. -/
def btcAddress (a : Address) : CurrencyAddress := .btc { addr := a.display }

/-- Change the BTC account that a deposit address belongs to, if it is anyone's. -/
def withDepositOwner (s : State) (o : Oracle) (address : CurrencyAddress) (f : UserCurrencyInfo → UserCurrencyInfo) :
    Outcome Unit :=
  match s.findUserAddress o address with
  | none => (s, .ok ())
  | some userId =>
    match s.users.get? userId with
    | none => (s, .error (.userNotFound userId))
    | some user =>
      match user.currencies.get? .btc with
      | none => (s, .error (.userMissingCurrency userId .btc))
      | some _ => (s.modifyCurrency userId .btc f, .ok ())

/-- Apply update of BTC transaction. -/
def withBtcTxUpdate (s : State) (o : Oracle) (tx : BtcTransaction) : Outcome Unit :=
  let address := btcAddress tx.address
  if s.isExchangeAddress address then ({ s with exchangeState := s.exchangeState.processIncomingBtcTx tx }, .ok ())
  else s.withDepositOwner o address (·.updateBtcTx tx)

/-- Apply cancel of BTC transaction: the deposit is removed, and a withdrawal that the transaction completed is rejected. -/
def withBtcTxCancel (s : State) (o : Oracle) (tx : BtcTxCancel) : Outcome Unit :=
  let address := btcAddress tx.address
  if s.isExchangeAddress address then ({ s with exchangeState := s.exchangeState.cancelBtcTx tx }, .ok ())
  else
    let (s₁, res1) := s.withDepositOwner o address (·.cancelBtcTx tx)
    let (s₂, res2) : Outcome Unit :=
      match s₁.findWithdrawalByTxId o (.btc { txid := tx.txid.hex }) with
      | some rid => s₁.setWithdrawalRequestNodeRejected { id := rid, reason := "Tx canceled" }
      | none => (s₁, .ok ())
    match res1, res2 with
    | .error e, .error _ => (s₂, .error e)
    | _, _ => (s₂, .ok ())

/-! ## Tokens -/

def updateTokens (s : State) (req : TokenUpdate) : Outcome Unit :=
  let cur := Currency.erc20 req.token
  match s.users.get? req.user with
  | none => (s, .error (.userNotFound req.user))
  | some userInfo =>
    match req.action with
    | .enable =>
      if userInfo.currencies.contains cur then (s, .error (.tokenAlreadyEnabled req.token))
      else
        (s.modifyUser req.user (fun u => { u with currencies := u.currencies.insert cur (UserCurrencyInfo.new cur) }), .ok ())
    | .disable =>
      match userInfo.currencies.get? cur with
      | none => (s, .error (.tokenAlreadyDisabled req.token))
      | some info =>
        if info.balance > 0 then (s, .error (.tokenNonZeroBalance req.token))
        else
          (s.modifyUser req.user (fun u =>
            { u with
              currencies := u.currencies.erase cur
              limitChangeRequests := u.limitChangeRequests.erase cur }), .ok ())

/-! ## Limits -/

def insertLimitsReq (s : State) (o : Oracle) (req : LimitChangeUpd) : Outcome Unit :=
  match s.users.get? req.user with
  | none => (s, .error (.userNotFound req.user))
  | some usr =>
    match usr.currencies.get? req.currency with
    | none => (s, .error (.userMissingCurrency req.user req.currency))
    | some _ =>
      let data : LimitChangeData :=
        { id := o.newId, user := usr.username, createdAt := o.now, status := .inProgress 0 0, currency := req.currency,
          limit := req.limit, confirmations := [], rejections := [] }
      (s.modifyUser req.user (fun u =>
        { u with limitChangeRequests := u.limitChangeRequests.insert req.currency data }), .ok ())

def cancelLimitChange (s : State) (req : LimitCancelData) : Outcome Unit :=
  s.updateUser req.user (fun u => { u with limitChangeRequests := u.limitChangeRequests.erase req.currency })

def withLimitChangeDecision (s : State) (lcd : LimitChangeDecision) : Outcome Unit :=
  match s.users.get? lcd.user with
  | none => (s, .error (.userNotFound lcd.user))
  | some usr =>
    match usr.limitChangeRequests.get? lcd.currency with
    | none => (s, .error .limitChangeNotFound)
    | some req =>
      match req.applyDecision lcd with
      | .error e => (s, .error e)
      | .ok req' =>
        match req'.status with
        | .completed =>
          (s.modifyUser lcd.user (fun u =>
            { u with
              currencies := u.currencies.modify lcd.currency (fun i =>
                { i with limitInfo := { limit := lcd.requestedLimit, spent := 0 } })
              limitChangeRequests := u.limitChangeRequests.erase lcd.currency }), .ok ())
        | .rejected =>
          (s.modifyUser lcd.user (fun u =>
            { u with limitChangeRequests := u.limitChangeRequests.erase lcd.currency }), .ok ())
        | .inProgress _ _ =>
          (s.modifyUser lcd.user (fun u =>
            { u with limitChangeRequests := u.limitChangeRequests.modify lcd.currency (fun _ => req') }), .ok ())

def clearLimits (s : State) (span : LimitSpan) : Outcome Unit := (s.mapCurrencies (·.clearLimit span), .ok ())

/-! ## Exchanges -/

def addExchangeRequest (s : State) (req : ExchangeOrderUpd) : Outcome Unit :=
  match s.users.get? req.user with
  | none => (s, .error (.userNotFound req.user))
  | some uinfo =>
    match uinfo.currencies.get? req.currencyFrom with
    | none => (s, .error (.userMissingCurrency req.user req.currencyFrom))
    | some cinfo =>
      if cinfo.balance < req.amountFrom then (s, .error (.insufficientFunds req.user req.currencyFrom))
      else (s.modifyCurrency req.user req.currencyFrom (·.insertExchange req.id (ExchangeOrder.ofUpd req)), .ok ())

/-- Returns true if we need to update the balance for the target currency. -/
def applyExchangeDecision (s : State) (req : ExchangeDecision) : Outcome Bool :=
  match s.users.get? req.user with
  | none => (s, .error (.userNotFound req.user))
  | some uinfo =>
    match uinfo.currencies.get? req.currencyFrom with
    | none => (s, .error (.userMissingCurrency req.user req.currencyFrom))
    | some cinfo =>
      match cinfo.exchangeRequests.get? req.id with
      | none => (s, .error (.userMissingExchange req.user req.currencyFrom))
      | some exchange =>
        match exchange.applyDecision EXCHANGE_NUMBER_OF_CONFIRMATIONS req with
        | .error e => (s, .error e)
        | .ok (exchange', completes) =>
          let s₁ := s.modifyCurrency req.user req.currencyFrom (fun i =>
            { i with exchangeRequests := i.exchangeRequests.modify req.id (fun _ => exchange') })
          if completes then
            ({ s₁ with exchangeState := s₁.exchangeState.processOrder exchange'.intoExchangeUpd }, .ok true)
          else (s₁, .ok false)

def addIncomingExchange (s : State) (req : ExchangeDecision) : Outcome Unit :=
  match s.users.get? req.user with
  | none => (s, .error (.userNotFound req.user))
  | some uinfo =>
    match uinfo.currencies.get? req.currencyTo with
    | none => (s, .error (.userMissingCurrency req.user req.currencyTo))
    | some _ => (s.modifyCurrency req.user req.currencyTo (·.insertIncoming req.id req.amountTo), .ok ())

/-- The two steps of an exchange decision. The first is not undone when the second fails. -/
def withExchangeDecision (s : State) (req : ExchangeDecision) : Outcome Unit :=
  match s.applyExchangeDecision req with
  | (s', .error e) => (s', .error e)
  | (s', .ok false) => (s', .ok ())
  | (s', .ok true) => s'.addIncomingExchange req

def setExchangeAddress (s : State) (req : CurrencyAddress) : Outcome Unit :=
  ({ s with exchangeState :=
      { s.exchangeState with addresses := s.exchangeState.addresses.insert req.currency req } }, .ok ())

/-! ## The dispatch -/

/-- A method's outcome as that of an update: `last_changed` is set once the method succeeds. -/
def stamped {α : Type} (created : NaiveDateTime) (out : Outcome α) (result : α → Option UpdateResult) :
    Outcome (Option UpdateResult) :=
  match out with
  | (s, .ok a) => ({ s with lastChanged := created }, .ok (result a))
  | (s, .error e) => (s, .error e)

/-- No result. -/
def noResult (_ : Unit) : Option UpdateResult := none

/-- Apply an update event from persistent store. -/
def applyUpdate (s : State) (o : Oracle) (u : StateUpdate) : Outcome (Option UpdateResult) :=
  match u.body with
  | .signup info => stamped u.created (s.withSignup u.created info) noResult
  | .snapshot snapshot => stamped u.created (snapshot, .ok ()) noResult
  | .createWithdrawalRequest info => stamped u.created (s.withNewWithdrawalRequest u.created info) id
  | .withdrawalRequestDecision info =>
    stamped u.created (s.withWithdrawalRequestDecision info) (·.map .withdrawConfirmed)
  | .withdrawalRequestComplete info => stamped u.created (s.setWithdrawalRequestCompleted info) noResult
  | .withdrawalRequestNodeRejected info => stamped u.created (s.setWithdrawalRequestNodeRejected info) noResult
  | .depositAddress req => stamped u.created (s.withDepositAddress req) noResult
  | .bestBtcBlock btc =>
    stamped u.created ({ s with btcState := { height := btc.height, blockHash := btc.blockHash } }, .ok ()) noResult
  | .updateBtcTx tx => stamped u.created (s.withBtcTxUpdate o tx) noResult
  | .cancelBtcTx tx => stamped u.created (s.withBtcTxCancel o tx) noResult
  | .updateTokens req => stamped u.created (s.updateTokens req) noResult
  | .genInvite req => stamped u.created (s.genInvite req) noResult
  | .limitsChangeRequest req => stamped u.created (s.insertLimitsReq o req) noResult
  | .cancelLimitChange req => stamped u.created (s.cancelLimitChange req) noResult
  | .limitChangeDecision req => stamped u.created (s.withLimitChangeDecision req) noResult
  | .clearLimits span => stamped u.created (s.clearLimits span) noResult
  | .setLanguage req => stamped u.created (s.setLanguage req) noResult
  | .configUpdate req => stamped u.created (s.updateUserConfig req) noResult
  | .passwordChange req => stamped u.created (s.changePassword req) noResult
  | .setPublicKey req => stamped u.created (s.setUserPublicKey req) noResult
  | .exchangeRequest req => stamped u.created (s.addExchangeRequest req) noResult
  | .exchangeDecision req => stamped u.created (s.withExchangeDecision req) noResult
  | .exchangeAddress req => stamped u.created (s.setExchangeAddress req) noResult

/-- Take ordered chain of updates and collect the accumulated state, from the earliest to the latest. Each update comes with
what its application takes from the surroundings. -/
def collect (now : NaiveDateTime) (genesisHash : String) (updates : List (Oracle × StateUpdate)) :
    Except StateUpdateErr State :=
  updates.foldlM (fun s (o, u) =>
    match s.applyUpdate o u with
    | (s', .ok _) => .ok s'
    | (_, .error e) => .error e) (State.new now genesisHash)

end State

end Hexstody
