import Hexstody.EthModule
import Hexstody.Listing
import Hexstody.Library.Decimal

/-!
# The history page

What `get_history` answers (`hexstody-public`, `wallet.rs`): the deposits and withdrawals of the user's accounts, and what the ETH module
reports of the user's tokens and ether, from the latest to the earliest, a page at a time. An entry of the ETH module is made of texts, and
a deposit in ether has no mapping yet; where an item cannot be made the handler panics, and there is no answer. How a number of seconds
is made a time, and a text upper case, is left to the libraries that do it.
-/

namespace Hexstody

/-- Includes unconfirmed transactions. -/
def UserCurrencyInfo.unconfirmedTransactions (i : UserCurrencyInfo) : List Transaction := i.transactions.filter fun t => !t.isConflicted

/-- The currency of an entry that the ETH module reports (`FromStr`). -/
def Currency.fromStr (s : String) : Option Currency :=
  match s with
  | "TUSDT" => some usdtErc20
  | "TCRV" => some crvErc20
  | "TGTECH" => some gtechErc20
  | "ETH" => some .eth
  | _ => none

structure DepositHistoryItem where
  currency : Currency
  date : NaiveDateTime
  value : UInt64
  numberOfConfirmations : UInt64
  txid : CurrencyTxId
  toAddress : CurrencyAddress
  deriving DecidableEq, Repr

/-- The status is that of the request, under the same names. -/
structure WithdrawalHistoryItem where
  currency : Currency
  date : NaiveDateTime
  value : UInt64
  status : WithdrawalRequestStatus
  txid : Option CurrencyTxId
  deriving DecidableEq, Repr

inductive HistoryItem where
  | deposit (d : DepositHistoryItem)
  | withdrawal (w : WithdrawalHistoryItem)
  deriving DecidableEq, Repr

def historyItemTime : HistoryItem → NaiveDateTime
  | .deposit d => d.date
  | .withdrawal w => w.date

structure History where
  targetNumberOfConfirmations : Int16
  historyItems : List HistoryItem
  deriving DecidableEq, Repr

/-- The library functions: `NaiveDateTime::from_timestamp`, which panics at some numbers, and `str::to_uppercase`. -/
structure HistoryEnv where
  fromTimestamp : Int → Option NaiveDateTime
  toUppercase : String → String

namespace Handlers

def toDepositHistoryItem : Transaction → Option HistoryItem
  | .btc btcDeposit =>
    some (.deposit
      { currency := .btc
        date := btcDeposit.timestamp
        numberOfConfirmations := btcDeposit.confirmations
        value := btcDeposit.amount.abs.toUInt64
        toAddress := .btc { addr := btcDeposit.address.display }
        txid := .btc { txid := btcDeposit.txid.hex } })
  | .eth _ => none -- `todo!`

def toWithdrawalHistoryItem (currency : Currency) (withdrawal : WithdrawalRequest) : HistoryItem :=
  .withdrawal
    { currency := currency
      date := withdrawal.createdAt
      status := withdrawal.status
      value := withdrawal.amount
      txid := none }

def toEthHistory (env : HistoryEnv) (h : Erc20HistUnitU) : Option HistoryItem :=
  (Currency.fromStr h.tokenName).bind fun curr =>
    ((parseI64 h.timeStamp).bind env.fromTimestamp).map fun time =>
      let val := (parseU64 h.value).getD 18446744073709551615
      if env.toUppercase h.addr ≠ h.from'.toUpper then
        .deposit
          { currency := curr
            date := time
            numberOfConfirmations := 0
            value := val
            toAddress := .eth { account := h.addr }
            txid := .eth { txid := h.hash } }
      else
        .withdrawal
          { currency := curr
            date := time
            status := .inProgress 0
            value := val
            txid := some (.eth { txid := h.hash }) }

/-- The items of an account: its withdrawals, in an order of the hash map, and then its deposits. -/
def accountHistory (filter : WithdrawalFilter) (order : IterOrder WithdrawalRequestId) (e : Currency × UserCurrencyInfo) :
    List (Option HistoryItem) :=
  (((e.2.withdrawalRequests.iter order).map (·.2)).filter (·.matchesFilter filter)).map (fun w => some (toWithdrawalHistoryItem e.1 w)) ++
    e.2.unconfirmedTransactions.map toDepositHistoryItem

/-- What the ETH module reports, the tokens first. -/
def ethEntries (data : UserData) : List Erc20HistUnitU := data.historyTokens.flatMap (·.history) ++ data.historyEth

/-- (`GET /history/<skip>/<take>?<filter>`) The answer of the ETH module is `userData`; a missing one is unwrapped too. -/
def getHistory (env : HistoryEnv) (user : UserInfo) (userData : Except String UserEth) (order : IterOrder Currency)
    (reqOrder : IterOrder WithdrawalRequestId) (skip take : Nat) (filter : Option WithdrawalFilter) : Option History :=
  match userData with
  | .error _ => none
  | .ok u =>
    let items := (user.currencies.iter order).flatMap (accountHistory (filter.getD .all) reqOrder) ++
      (ethEntries u.data).map (toEthHistory env)
    (items.mapM id).map fun history =>
      let sorted := history.mergeSort fun a b => (historyItemTime b).nanos ≤ (historyItemTime a).nanos
      { targetNumberOfConfirmations := REQUIRED_NUMBER_OF_CONFIRMATIONS
        historyItems := (sorted.drop skip).take take }

end Handlers

end Hexstody
