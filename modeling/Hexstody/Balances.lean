import Hexstody.EthModule
import Hexstody.User
import Hexstody.Library.Decimal

/-!
# The balances of a user

The two handlers of `hexstody-public` (`wallet.rs`) that answer balances: of all currencies of the user, and of one. A balance in BTC is
that of the account; the others are what the ETH module reports of the user, in decimal texts that the handlers read as numbers of 64
bits. Each handler looks its tokens up in its own way.
-/

namespace Hexstody

/-- Where a token stands in a list of balances. -/
def Erc20Token.index (t : Erc20Token) : Nat :=
  if t.ticker = "USDT" then 0 else if t.ticker = "GTECH" then 1 else if t.ticker = "CRV" then 2 else 65535

/-- The order of currencies: BTC, ETH, and the tokens by their index. -/
def Currency.le : Currency → Currency → Bool
  | .btc, _ => true
  | .eth, c => c != .btc
  | .erc20 t, .erc20 t' => t.index ≤ t'.index
  | .erc20 _, _ => false

structure BalanceItem where
  currency : Currency
  value : UInt64
  limitInfo : LimitInfo
  deriving DecidableEq, Repr

/-- The errors of the two handlers. -/
inductive BalanceError where
  | noUserCurrency (c : Currency)
  | failedEthConnection (e : String)
  deriving DecidableEq, Repr

/-- How a handler ends. -/
inductive Answer (α : Type) where
  | ok (a : α)
  | error (e : BalanceError)
  | panicked
  deriving DecidableEq, Repr

namespace Handlers

/-- The value that is listed for an account. -/
def listedValue (data : UserData) (cur : Currency) (info : UserCurrencyInfo) : Option UInt64 :=
  match cur with
  | .btc => some info.balance
  | .eth => parseU64 data.balanceEth
  | .erc20 token =>
    -- each entry of the ticker overwrites what the ones before it have given
    some (data.balanceTokens.foldl
      (fun bal tok => if tok.tokenName = token.ticker then (parseU64 tok.tokenBalance).getD 0 else bal) info.balance)

def balanceItem (data : UserData) (e : Currency × UserCurrencyInfo) : Option BalanceItem :=
  (listedValue data e.1 e.2).map fun bal => { currency := e.1, value := bal, limitInfo := e.2.limitInfo }

/-- (`GET /balance`) The answer of the ETH module is `userData`; `order` is that in which the user's currencies come. -/
def getBalance (user : UserInfo) (userData : Except String UserEth) (order : IterOrder Currency) : Answer (List BalanceItem) :=
  match userData with
  | .error e => .error (.failedEthConnection e)
  | .ok u =>
    match (user.currencies.iter order).mapM (balanceItem u.data) with
    | none => .panicked
    | some balances => .ok (balances.mergeSort fun b1 b2 => b1.currency.le b2.currency)

/-- (`POST /balance`) -/
def getBalanceByCurrency (user : UserInfo) (userData : Except String UserEth) (cur : Currency) : Answer BalanceItem :=
  match user.currencies.get? cur with
  | none => .error (.noUserCurrency cur)
  | some info =>
    let item (value : UInt64) : Answer BalanceItem := .ok { currency := cur, value := value, limitInfo := info.limitInfo }
    if cur = .btc then item info.balance
    else
      match userData with
      | .error e => .error (.failedEthConnection e)
      | .ok u =>
        match cur with
        | .btc => .error (.noUserCurrency cur)
        | .eth => (parseU64 u.data.balanceEth).elim .panicked item
        | .erc20 token =>
          match u.data.balanceTokens.find? fun tok => tok.tokenName = token.ticker with
          | some tok => (parseU64 tok.tokenBalance).elim .panicked item
          | none => .error (.noUserCurrency cur)

end Handlers

end Hexstody
