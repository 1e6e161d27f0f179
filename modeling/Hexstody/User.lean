import Hexstody.Library.AssocMap
import Hexstody.Exchange
import Hexstody.Withdraw
import Mathlib.Data.UInt

/-!
# Users and their accounts

What the State keeps of a user (`state/user.rs`), of each currency of the user (`UserCurrencyInfo`, the account), and of a
pending change of a limit (`update/limit.rs`). The two balances of an account are computed as the code does, in 64-bit
arithmetic that wraps, and clamped at zero.
-/

namespace Hexstody

/-! ## Limit changes -/

structure LimitCancelData where
  id : Uuid
  user : String
  currency : Currency
  deriving DecidableEq, Repr

structure LimitChangeUpd where
  user : String
  currency : Currency
  limit : Limit
  deriving DecidableEq, Repr

structure LimitChangeData where
  id : Uuid
  user : String
  createdAt : String
  status : LimitChangeStatus
  currency : Currency
  limit : Limit
  confirmations : List SignatureData
  rejections : List SignatureData
  deriving DecidableEq, Repr

inductive LimitChangeDecisionType where
  | confirm | reject
  deriving DecidableEq, Repr

structure LimitChangeDecision where
  id : Uuid
  user : String
  currency : Currency
  createdAt : String
  requestedLimit : Limit
  url : String
  signature : Signature
  nonce : UInt64
  publicKey : PublicKey
  decisionType : LimitChangeDecisionType
  deriving DecidableEq, Repr

def LimitChangeData.hasConfirmed (d : LimitChangeData) (key : PublicKey) : Bool := hasSigned d.confirmations key

def LimitChangeData.hasRejected (d : LimitChangeData) (key : PublicKey) : Bool := hasSigned d.rejections key

/-- The vote on a limit change: the request after an operator's decision. -/
def LimitChangeData.applyDecision (req : LimitChangeData) (lcd : LimitChangeDecision) :
    Except StateUpdateErr LimitChangeData :=
  let sdata : SignatureData := { signature := lcd.signature, nonce := lcd.nonce, publicKey := lcd.publicKey }
  match req.status with
  | .completed => .error .limitAlreadyConfirmed
  | .rejected => .error .limitAlreadyRejected
  | .inProgress confirmations rejections =>
    match lcd.decisionType with
    | .confirm =>
      if req.hasConfirmed lcd.publicKey then .error .limitAlreadyConfirmed
      else
        let req' := { req with confirmations := req.confirmations ++ [sdata] }
        if confirmations + 1 - rejections ≥ 2 then .ok { req' with status := .completed }
        else .ok { req' with status := .inProgress (confirmations + 1) rejections }
    | .reject =>
      if req.hasRejected lcd.publicKey then .error .limitAlreadyConfirmed
      else
        let req' := { req with rejections := req.rejections ++ [sdata] }
        if rejections + 1 - confirmations ≥ 2 then .ok { req' with status := .rejected }
        else .ok { req' with status := .inProgress confirmations (rejections + 1) }

/-! ## Accounts -/

/-- User data for specific currency. -/
structure UserCurrencyInfo where
  currency : Currency
  depositInfo : List CurrencyAddress
  /-- Known set of transactions for the user, oldest transactions first. -/
  transactions : List Transaction
  withdrawalRequests : AssocMap WithdrawalRequestId WithdrawalRequest
  exchangeRequests : AssocMap ExchangeOrderId ExchangeOrder
  /-- Confirmed incoming exchange requests: only the amounts, for balance calculations. -/
  incomingExchangeRequests : AssocMap ExchangeOrderId UInt64
  limitInfo : LimitInfo

/-- What a request takes from the balance: its amount and recorded fee, unless it is rejected. -/
def WithdrawalRequest.pending (w : WithdrawalRequest) : UInt64 :=
  if w.isRejected then 0 else w.amount + w.fee.getD 0

/-- What an order takes from the balance of the currency it is paid in, unless it is rejected. -/
def ExchangeOrder.outgoing (o : ExchangeOrder) : UInt64 := if o.isRejected then 0 else o.amountFrom

namespace UserCurrencyInfo

def new (currency : Currency) : UserCurrencyInfo where
  currency := currency
  depositInfo := []
  transactions := []
  withdrawalRequests := AssocMap.empty
  exchangeRequests := AssocMap.empty
  incomingExchangeRequests := AssocMap.empty
  limitInfo := LimitInfo.default

/-- The balance of an account whose transactions are those that `counts` says. -/
def balanceOf (counts : Transaction → Bool) (i : UserCurrencyInfo) : UInt64 :=
  let txSum : Int64 := ((i.transactions.filter counts).map Transaction.amount).sum
  let pendingWithdrawals : UInt64 := i.withdrawalRequests.sumVals WithdrawalRequest.pending
  let incoming : UInt64 := i.incomingExchangeRequests.sumVals id
  let outgoing : UInt64 := i.exchangeRequests.sumVals ExchangeOrder.outgoing
  let val : Int64 := incoming.toInt64 - pendingWithdrawals.toInt64 - outgoing.toInt64
  (max 0 (txSum + val)).toUInt64

/-- Includes unconfirmed transactions. -/
def balance (i : UserCurrencyInfo) : UInt64 := i.balanceOf (fun t => !t.isConflicted)

/-- Include only finalized transactions. -/
def finalizedBalance (i : UserCurrencyInfo) : UInt64 := i.balanceOf Transaction.isFinalized

def hasAddress (i : UserCurrencyInfo) (address : CurrencyAddress) : Bool := i.depositInfo.contains address

/-- The request, if any, that a transaction completed. -/
def findCompletedRequest (i : UserCurrencyInfo) (o : IterOrder WithdrawalRequestId) (reqTxid : CurrencyTxId) :
    Option WithdrawalRequestId :=
  if reqTxid.currency = i.currency then
    i.withdrawalRequests.findVal? o fun _ req =>
      match req.status with
      | .completed _ txid _ _ _ => if reqTxid = txid then some req.id else none
      | _ => none
  else none

/-- Process only deposit transactions. Withdrawals are handled with withdrawal requests. -/
def updateBtcTx (i : UserCurrencyInfo) (updTx : BtcTransaction) : UserCurrencyInfo :=
  if updTx.amount ≥ 0 then
    { i with transactions := (replaceBtcTx (·.isSameBtcTx updTx) updTx i.transactions).getD (i.transactions ++ [.btc updTx]) }
  else i

def cancelBtcTx (i : UserCurrencyInfo) (updTx : BtcTxCancel) : UserCurrencyInfo :=
  { i with transactions := (removeBtcTx (·.isSameBtcTxCancel updTx) i.transactions).getD i.transactions }

/-- Put a request in the account. -/
def insertRequest (i : UserCurrencyInfo) (id : WithdrawalRequestId) (r : WithdrawalRequest) : UserCurrencyInfo :=
  { i with withdrawalRequests := i.withdrawalRequests.insert id r }

/-- Put an order in the account. -/
def insertExchange (i : UserCurrencyInfo) (id : ExchangeOrderId) (o : ExchangeOrder) : UserCurrencyInfo :=
  { i with exchangeRequests := i.exchangeRequests.insert id o }

/-- Put an incoming amount in the account. -/
def insertIncoming (i : UserCurrencyInfo) (id : ExchangeOrderId) (amount : UInt64) : UserCurrencyInfo :=
  { i with incomingExchangeRequests := i.incomingExchangeRequests.insert id amount }

/-- Set the status of the request with an id, if the account has it. -/
def setRequestStatus (i : UserCurrencyInfo) (id : WithdrawalRequestId) (st : WithdrawalRequestStatus) : UserCurrencyInfo :=
  { i with withdrawalRequests := i.withdrawalRequests.mapVals fun reqId req =>
      if reqId = id then { req with status := st } else req }

/-- Clear what is spent of a limit of a span. -/
def clearLimit (i : UserCurrencyInfo) (span : LimitSpan) : UserCurrencyInfo :=
  if i.limitInfo.limit.span = span then { i with limitInfo := { i.limitInfo with spent := 0 } } else i

end UserCurrencyInfo

/-! ## Users -/

structure UserConfig where
  language : Language
  email : Option Email
  phone : Option PhoneNumber
  tgName : Option TgName
  deriving DecidableEq, Repr

/-- `UserConfig::default`. -/
def UserConfig.default : UserConfig := { language := .english, email := none, phone := none, tgName := none }

structure UserInfo where
  username : UserId
  invite : Invite
  auth : SignupAuth
  createdAt : NaiveDateTime
  /-- Withdrawal requests that are not yet fully performed; nothing is ever put here. -/
  withdrawalRequests : AssocSet WithdrawalRequestId
  /-- Completed withdrawal requests; nothing is ever put here. -/
  completedRequests : AssocSet WithdrawalRequestId
  currencies : AssocMap Currency UserCurrencyInfo
  limitChangeRequests : AssocMap Currency LimitChangeData
  config : UserConfig
  /-- User's public key for public key authorization. -/
  publicKey : Option PublicKey

namespace UserInfo

def new (username : UserId) (invite : Invite) (auth : SignupAuth) (createdAt : NaiveDateTime) : UserInfo where
  username := username
  invite := invite
  auth := auth
  createdAt := createdAt
  withdrawalRequests := AssocSet.empty
  completedRequests := AssocSet.empty
  currencies := AssocMap.ofList (Currency.defaultCurrencies.map (fun c => (c, UserCurrencyInfo.new c)))
  limitChangeRequests := AssocMap.empty
  config := UserConfig.default
  publicKey := none

/-- Return true if the user has given address as deposit address. -/
def hasAddress (u : UserInfo) (address : CurrencyAddress) : Bool :=
  match u.currencies.get? address.currency with
  | some curInfo => curInfo.hasAddress address
  | none => false

def findCompletedRequest (u : UserInfo) (o : IterOrder WithdrawalRequestId) (txid : CurrencyTxId) :
    Option WithdrawalRequestId :=
  match u.currencies.get? txid.currency with
  | some curInfo => curInfo.findCompletedRequest o txid
  | none => none

end UserInfo

end Hexstody
