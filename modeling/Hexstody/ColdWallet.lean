import Hexstody.Domain

/-!
# The worker that fills the cold wallet

`cold_wallet_worker` of `hexstody-btc`: when a transaction of the hot wallet is noticed, it asks the node for the confirmed balance,
and sends what is over the configured amount to the cold address. Amounts are satoshis in 64 bits; a sum or a difference of amounts
that does not fit ends the worker.
-/

namespace Hexstody

/-- The sum of two amounts, if it fits. -/
def addAmount (a b : UInt64) : Option UInt64 := if a.toNat + b.toNat < UInt64.size then some (a + b) else none

/-- The difference of two amounts, if it fits. -/
def subAmount (a b : UInt64) : Option UInt64 := if b.toNat ≤ a.toNat then some (a - b) else none

/-- A call of `send_to_address`. -/
structure ColdDump where
  address : Address
  amount : UInt64
  subtractFee : Bool
  deriving DecidableEq, Repr

/-- What the wallet has left of a balance after the call, with the fee that the node takes. -/
def ColdDump.leaves (dump : ColdDump) (balance : UInt64) (fee : Nat) : Int :=
  if dump.subtractFee then balance.toNat - dump.amount.toNat else balance.toNat - dump.amount.toNat - fee

/-- What a notification comes to. -/
inductive ColdStep where
  | kept
  | sent (dump : ColdDump)
  | panicked
  deriving DecidableEq, Repr

namespace ColdWallet

variable (coldAmount : UInt64) (coldAddress : Address)

/-- The amount that is sent of a balance over the configured amount. -/
def dumpAmount (bal : UInt64) : Option UInt64 :=
  match addAmount coldAmount coldAmount with
  | none => none
  | some twice => if bal > twice then subAmount bal coldAmount else some coldAmount

/-- One turn of the loop, with what the node answers to `get_balance`. -/
def onNotified (answer : Except String UInt64) : ColdStep :=
  match answer with
  | .error _ => .kept
  | .ok bal =>
    if bal > coldAmount then
      match dumpAmount coldAmount bal with
      | none => .panicked
      | some amount => .sent { address := coldAddress, amount := amount, subtractFee := true }
    else .kept

/-- The loop, over the answers to `get_balance`: one for each notification. -/
def coldWalletWorker : List (Except String UInt64) → List ColdStep
  | [] => []
  | answer :: answers =>
    match onNotified coldAmount coldAddress answer with
    | .panicked => [.panicked]
    | step => step :: coldWalletWorker answers

end ColdWallet

end Hexstody
