import Hexstody.World

/-!
# Listing requests

What the operators are shown: all withdrawal requests of the State (`State::withdrawal_requests`), as the endpoint `list` selects
and prints them, and all pending changes of limits, as `get_all_changes` answers them. Both go through the hash maps of the State
in whatever order these have. `get_all_changes` unwraps the account of each change: where there is none the handler panics, which
is `none` here. The guard of both is that of the operators' other requests.
-/

namespace Hexstody

inductive WithdrawalFilter where
  | all | pending | confirmed | completed | opRejected | nodeRejected
  deriving DecidableEq, Repr

/-- The status of a request, as it is shown (`types::WithdrawalRequestStatus`). -/
inductive WithdrawalRequestStatusApi where
  | inProgress (confirmations : Int16)
  | confirmed
  | completed (confirmedAt : NaiveDateTime) (txid : CurrencyTxId) (fee : Option UInt64)
      (inputAddresses outputAddresses : List CurrencyAddress)
  | opRejected
  | nodeRejected (reason : String)
  deriving DecidableEq, Repr

/-- Auxiliary data type to display a withdrawal request on the page (`types::WithdrawalRequest`). -/
structure WithdrawalRequestApi where
  id : Uuid
  user : UserId
  address : CurrencyAddress
  createdAt : String
  amount : UInt64
  confirmationStatus : WithdrawalRequestStatusApi
  deriving DecidableEq, Repr

structure LimitChangeOpResponse where
  id : Uuid
  user : String
  createdAt : String
  currency : Currency
  currentLimit : Limit
  requestedLimit : Limit
  status : LimitChangeStatus
  deriving DecidableEq, Repr

/-- `Into<types::WithdrawalRequestStatus>`. -/
def WithdrawalRequestStatus.toApi : WithdrawalRequestStatus → WithdrawalRequestStatusApi
  | .inProgress n => .inProgress n
  | .confirmed => .confirmed
  | .completed confirmedAt txid fee ins outs => .completed confirmedAt txid fee ins outs
  | .opRejected => .opRejected
  | .nodeRejected reason => .nodeRejected reason

/-- `Into<types::WithdrawalRequest>`. -/
def WithdrawalRequest.toApi (k : Clock) (r : WithdrawalRequest) : WithdrawalRequestApi where
  id := r.id
  user := r.user
  address := r.address
  createdAt := k.format r.createdAt
  amount := r.amount
  confirmationStatus := r.status.toApi

/-- Check if a request matches the filter. -/
def WithdrawalRequest.matchesFilter (r : WithdrawalRequest) (filter : WithdrawalFilter) : Bool :=
  filter == .all ||
    match r.status with
    | .inProgress _ => filter == .pending
    | .confirmed => filter == .confirmed
    | .completed .. => filter == .completed
    | .opRejected => filter == .opRejected
    | .nodeRejected _ => filter == .nodeRejected

/-- What an operator signs about a request that is shown: the same fields, without the status. -/
def WithdrawalRequestApi.confirmationData (r : WithdrawalRequestApi) : ConfirmationData where
  id := r.id
  user := r.user
  address := r.address
  createdAt := r.createdAt
  amount := r.amount

/-- The ticker of a currency in small letters, given how a text is put in small letters. -/
def Currency.tickerLowercase (lowercase : String → String) : Currency → String
  | .btc => "btc"
  | .eth => "eth"
  | .erc20 token => lowercase token.ticker

namespace State

/-- All requests, as the loops come to them. -/
def eachRequest (s : State) (o : Oracle) : List (WithdrawalRequestId × WithdrawalRequest) :=
  (s.users.iter o.users).flatMap fun e =>
    (e.2.currencies.iter o.currencies).flatMap fun e' => e'.2.withdrawalRequests.iter o.requests

/-- Extract all pending withdrawal requests. -/
def withdrawalRequests (s : State) (o : Oracle) : AssocMap WithdrawalRequestId WithdrawalRequest :=
  AssocMap.ofList (s.eachRequest o)

/-- (`GET /request/<currency_name>?<filter>`) -/
def list (k : Clock) (lowercase : String → String) (s : State) (o : Oracle) (currencyName : String)
    (filter : WithdrawalFilter) : List WithdrawalRequestApi :=
  ((s.withdrawalRequests o).iter o.requests).filterMap fun e =>
    if e.2.address.currency.tickerLowercase lowercase = currencyName ∧ e.2.matchesFilter filter = true then
      some (e.2.toApi k)
    else none

/-- A pending change with the limit that it is a change of; `none` where there is no account to have one. -/
def changeResponse (ui : UserInfo) (req : LimitChangeData) : Option LimitChangeOpResponse :=
  (ui.currencies.get? req.currency).map fun i =>
    { id := req.id, user := req.user, createdAt := req.createdAt, currency := req.currency,
      currentLimit := i.limitInfo.limit, requestedLimit := req.limit, status := req.status }

/-- (`GET /changes?<filter>`) All pending changes, whatever the filter; `none` when the handler panics. -/
def getAllChanges (s : State) (o : Oracle) : Option (List LimitChangeOpResponse) :=
  ((s.users.iter o.users).flatMap fun e =>
    (e.2.limitChangeRequests.iter o.currencies).map fun e' => changeResponse e.2 e'.2).mapM id

end State

end Hexstody
