import Hexstody.Library.AssocMap
import Hexstody.Transaction

/-!
# Exchange orders and the exchange account

An exchange order with the operators' votes on it, and the special account that orders are settled against
(`state/exchange.rs`): the completed orders, the deposit addresses, the external deposits, and a running balance for each
currency.
-/

namespace Hexstody

/-- An order as it is requested, and as a completed one is kept. -/
structure ExchangeOrderUpd where
  id : ExchangeOrderId
  user : String
  currencyFrom : Currency
  currencyTo : Currency
  amountFrom : UInt64
  amountTo : UInt64
  createdAt : String
  deriving DecidableEq, Repr

structure ExchangeOrder where
  id : ExchangeOrderId
  user : String
  currencyFrom : Currency
  currencyTo : Currency
  amountFrom : UInt64
  amountTo : UInt64
  status : ExchangeStatus
  createdAt : String
  confirmations : List SignatureData
  rejections : List SignatureData
  deriving DecidableEq, Repr

inductive ExchangeDecisionType where
  | confirm | reject
  deriving DecidableEq, Repr

structure ExchangeDecision where
  user : String
  id : Uuid
  currencyFrom : Currency
  currencyTo : Currency
  amountFrom : UInt64
  amountTo : UInt64
  url : String
  signature : Signature
  nonce : UInt64
  publicKey : PublicKey
  decision : ExchangeDecisionType
  deriving DecidableEq, Repr

namespace ExchangeOrder

/-- The order a request asks for, with no vote on it. -/
def ofUpd (req : ExchangeOrderUpd) : ExchangeOrder where
  id := req.id
  user := req.user
  currencyFrom := req.currencyFrom
  currencyTo := req.currencyTo
  amountFrom := req.amountFrom
  amountTo := req.amountTo
  status := .inProgress 0 0
  createdAt := req.createdAt
  confirmations := []
  rejections := []

def isRejected (o : ExchangeOrder) : Bool :=
  match o.status with
  | .rejected => true
  | _ => false

def hasConfirmed (o : ExchangeOrder) (key : PublicKey) : Bool := hasSigned o.confirmations key

def hasRejected (o : ExchangeOrder) (key : PublicKey) : Bool := hasSigned o.rejections key

def intoExchangeUpd (o : ExchangeOrder) : ExchangeOrderUpd where
  id := o.id
  user := o.user
  currencyFrom := o.currencyFrom
  currencyTo := o.currencyTo
  amountFrom := o.amountFrom
  amountTo := o.amountTo
  createdAt := o.createdAt

/-- The vote: the order after an operator's decision, and whether that decision completes it, at a given threshold. A decision
against the order leaves its signature among the confirmations. -/
def applyDecision (threshold : Int16) (o : ExchangeOrder) (req : ExchangeDecision) :
    Except StateUpdateErr (ExchangeOrder × Bool) :=
  let sdata : SignatureData := { signature := req.signature, nonce := req.nonce, publicKey := req.publicKey }
  match o.status with
  | .completed => .error .exchangeAlreadyConfirmed
  | .rejected => .error .exchangeAlreadyRejected
  | .inProgress confirmations rejections =>
    match req.decision with
    | .confirm =>
      if o.hasConfirmed req.publicKey then .error .exchangeAlreadyConfirmed
      else
        let o' := { o with confirmations := o.confirmations ++ [sdata] }
        if confirmations + 1 - rejections ≥ threshold then .ok ({ o' with status := .completed }, true)
        else .ok ({ o' with status := .inProgress (confirmations + 1) rejections }, false)
    | .reject =>
      if o.hasRejected req.publicKey then .error .exchangeAlreadyRejected
      else
        let o' := { o with confirmations := o.confirmations ++ [sdata] }
        if rejections + 1 - confirmations ≥ threshold then .ok ({ o' with status := .rejected }, false)
        else .ok ({ o' with status := .inProgress confirmations (rejections + 1) }, false)

end ExchangeOrder

structure ExchangeState where
  /-- Slimmed down exchange orders. We keep here only completed orders. -/
  exchanges : AssocMap ExchangeOrderId ExchangeOrderUpd
  /-- Deposit addresses for exchange account. -/
  addresses : AssocMap Currency CurrencyAddress
  /-- External deposits to exchange account. -/
  deposits : List Transaction
  /-- Running balance, as to not calculate it each time. -/
  balances : AssocMap Currency Int64

namespace ExchangeState

def new : ExchangeState where
  exchanges := AssocMap.empty
  addresses := AssocMap.empty
  deposits := []
  balances := AssocMap.ofList (Currency.supported.map (fun c => (c, 0)))

def processOrder (e : ExchangeState) (order : ExchangeOrderUpd) : ExchangeState :=
  let credited := e.balances.modifyOrInsert order.currencyFrom (· + order.amountFrom.toInt64) order.amountFrom.toInt64
  { e with
    exchanges := e.exchanges.insert order.id order
    balances := credited.modifyOrInsert order.currencyTo (· - order.amountTo.toInt64) order.amountTo.toInt64 }

def processIncomingBtcTx (e : ExchangeState) (updTx : BtcTransaction) : ExchangeState :=
  if updTx.amount ≥ 0 then
    match replaceBtcTx (·.isSameBtcTx updTx) updTx e.deposits with
    | some deposits => { e with deposits := deposits }
    | none =>
      { e with
        balances := e.balances.modifyOrInsert .btc (· + updTx.amount) updTx.amount
        deposits := e.deposits ++ [.btc updTx] }
  else e

def cancelBtcTx (e : ExchangeState) (canceledTx : BtcTxCancel) : ExchangeState :=
  match removeBtcTx (·.isSameBtcTxCancel canceledTx) e.deposits with
  | some deposits =>
    { e with
      deposits := deposits
      balances := e.balances.modifyOrInsert .btc (· - canceledTx.amount.toInt64) (-canceledTx.amount.toInt64) }
  | none => e

end ExchangeState

end Hexstody
