import Hexstody.BtcModule
import Hexstody.World

/-!
# Calling the BTC module

A paying call of the hot wallet goes over two links: by HTTP to the BTC module (`hexstody-btc-client`), and from there, call by
call, to the Bitcoin node. On each link the request or the response may be lost, or time out, and the caller sees an error either
way. `Behaviour` is what happens during one call: what the node does with what reaches it, and what becomes of each message.
-/

namespace Hexstody

/-- What becomes of a request and its response between two processes; the caller sees the error, if there is one. -/
inductive Delivery where
  | delivered
  | requestLost (e : String)
  | responseLost (e : String)
  deriving DecidableEq, Repr

namespace Delivery

/-- The other side gets the request. -/
def reached : Delivery → Bool
  | .requestLost _ => false
  | _ => true

/-- What the caller sees of what the other side answers. -/
def through {α : Type} (d : Delivery) (answer : Except String α) : Except String α :=
  match d with
  | .delivered => answer
  | .requestLost e => .error e
  | .responseLost e => .error e

end Delivery

/-- What happens during a paying call. -/
structure Behaviour where
  /-- The node, as it acts on what reaches it. -/
  node : BtcNode
  /-- The call of `send_to_address`. -/
  send : Delivery
  /-- The call of `get_transaction`. -/
  getTransaction : Delivery
  /-- The call of the BTC module. -/
  http : Delivery

namespace Behaviour

/-- The node, as the BTC module sees it. -/
def seen (b : Behaviour) : BtcNode :=
  { b.node with
    sendToAddress := fun call => b.send.through (b.node.sendToAddress call)
    getTransaction := fun txid => b.getTransaction.through (b.node.getTransaction txid) }

/-- The node accepts a payment that the BTC module asks it for. -/
def accepts (b : Behaviour) (call : SendToAddress) : Bool := b.send.reached && (b.node.sendToAddress call).toBool

end Behaviour

namespace BtcClient

/-- The handler of the BTC module for a call, where there is one. -/
def handler (Γ : BtcCtx) : PayCall → Option (Option SendToAddress × Except ErrorReply WithdrawalResponse)
  | .withdrawBtc cw => some (BtcModule.withdrawBtc Γ cw)
  | .withdrawUnderLimit cw => some (BtcModule.withdrawBtcUnderLimit Γ cw)
  | _ => none

/-- A response that is an error, as the client reports it (`error_for_status`). -/
def statusError {α : Type} : Except ErrorReply α → Except String α
  | .ok a => .ok a
  | .error e => .error (toString e.status)

/-- What the client returns for a call (`BtcClient::withdraw_btc`, `BtcClient::withdraw_under_limit`), with the BTC module
configured in a given way. -/
def reply (Γ : BtcCtx) (b : Behaviour) (call : PayCall) : Option Reply :=
  (handler { Γ with node := b.seen } call).map fun out =>
    match b.http.through (statusError out.2) with
    | .ok resp => .btc resp
    | .error e => .failed e

/-- The node accepts a `send_to_address` during the call. -/
def accepted (Γ : BtcCtx) (b : Behaviour) (call : PayCall) : Bool :=
  b.http.reached && ((handler { Γ with node := b.seen } call).bind (·.1)).any b.accepts

end BtcClient

/-! ## The hot wallet at the BTC module -/

/-- The call is one of the BTC module. -/
def PayCall.isBtc : PayCall → Bool
  | .withdrawBtc _ => true
  | .withdrawUnderLimit _ => true
  | _ => false

/-- The hot wallet, and the requests for which the node accepted a payment. -/
structure Paying where
  world : World
  accepted : List WithdrawalRequestId

/-- A step of the hot wallet other than the return of a call of the BTC module, or that. -/
inductive PayingAction (ι : Type) where
  | wallet (a : Action ι)
  | call (b : Behaviour) (now : NaiveDateTime)

namespace Paying

/-- The call of `update_results_worker` is one of the BTC module. -/
def callsBtc (p : Paying) : Bool :=
  match p.world.worker with
  | .calling _ call => call.isBtc
  | _ => false

/-- A call of the BTC module returns what the node and the links make of it. -/
def call (Γ : BtcCtx) (p : Paying) (b : Behaviour) (now : NaiveDateTime) : Option Paying :=
  match p.world.worker with
  | .calling id call =>
    (BtcClient.reply Γ b call).bind fun reply =>
      (p.world.answer reply now).map fun w =>
        { world := w, accepted := if BtcClient.accepted Γ b call then id :: p.accepted else p.accepted }
  | _ => none

def step {ι : Type} (Γ : BtcCtx) (C : Client ι) (k : Clock) (p : Paying) : PayingAction ι → Option Paying
  | .wallet (.answer reply now) =>
    if p.callsBtc then none
    else ((World.machine C k).step p.world (.answer reply now)).map fun w => { p with world := w }
  | .wallet a => ((World.machine C k).step p.world a).map fun w => { p with world := w }
  | .call b now => p.call Γ b now

/-- The hot wallet over some handlers, at a BTC module. -/
def machine {ι : Type} (Γ : BtcCtx) (C : Client ι) (k : Clock) : Machine Paying (PayingAction ι) where
  init p := (World.machine C k).init p.world ∧ p.accepted = []
  step := step Γ C k

end Paying

end Hexstody
