import Hexstody.EthModule
import Hexstody.Library.Decimal

/-!
# The ETH module: totals of the hot wallet

What `hexstody-eth` answers for the totals over all users (`handlers/balance.rs`): the balances of the table, which are decimal texts,
read as 64-bit numbers and added up. A text that cannot be read ends the handler; a sum that does not fit wraps.
-/

namespace Hexstody

structure EthBalanceU64 where
  balance : UInt64
  deriving DecidableEq, Repr

structure Erc20TokenBalanceU64 where
  tokenName : String
  tokenBalance : UInt64
  deriving DecidableEq, Repr

structure TotalBalanceErc20 where
  balance : List Erc20TokenBalanceU64
  deriving DecidableEq, Repr

namespace EthModule

/-- The balances of all users, in an order of the database. -/
def pgQueryTotalEth (m : EthModule) (order : IterOrder String) : List String := (m.rows.iter order).map (·.2.data.balanceEth)

def pgQueryTotalTokens (m : EthModule) (order : IterOrder String) : List (List Erc20TokenBalance) :=
  (m.rows.iter order).map (·.2.data.balanceTokens)

/-- The loop of `balance_eth_total`. -/
def addBalances (total : UInt64) : List String → Option UInt64
  | [] => some total
  | bal :: bals => (parseU64 bal).bind fun v => addBalances (total + v) bals

/-- (`GET /balance/eth/total`) -/
def balanceEthTotal (m : EthModule) (order : IterOrder String) : Option EthBalanceU64 :=
  (addBalances 0 (m.pgQueryTotalEth order)).map fun total => { balance := total }

/-- A balance of a token is added to the entry with its name, or becomes a new one. -/
def addToken (total : List Erc20TokenBalanceU64) (tkn : Erc20TokenBalance) : Option (List Erc20TokenBalanceU64) :=
  (parseU64 tkn.tokenBalance).map fun v =>
    if total.any (fun t => tkn.tokenName == t.tokenName) then
      total.map fun t => if tkn.tokenName = t.tokenName then { t with tokenBalance := t.tokenBalance + v } else t
    else total ++ [{ tokenName := tkn.tokenName, tokenBalance := v }]

/-- The two loops of `balance_erc20_total`. -/
def addTokens (total : List Erc20TokenBalanceU64) : List Erc20TokenBalance → Option (List Erc20TokenBalanceU64)
  | [] => some total
  | tkn :: tkns => (addToken total tkn).bind fun total' => addTokens total' tkns

def addAllTokens (total : List Erc20TokenBalanceU64) : List (List Erc20TokenBalance) → Option (List Erc20TokenBalanceU64)
  | [] => some total
  | bal :: bals => (addTokens total bal).bind fun total' => addAllTokens total' bals

/-- (`GET /balance/erc20/total`) -/
def balanceErc20Total (m : EthModule) (order : IterOrder String) : Option TotalBalanceErc20 :=
  (addAllTokens [] (m.pgQueryTotalTokens order)).map fun total => { balance := total }

end EthModule

end Hexstody
