import Hexstody.Routes

/-!
# Lists of exchange orders

What the operators are shown of the exchange orders (`get_exchange_requests`), and a user of his own (`list_my_orders`). Both go
through the accounts and the orders in whatever order the hash maps have, and select by the status.
-/

namespace Hexstody

/-- An exchange order as it is shown (`types::ExchangeOrder`). -/
structure ExchangeOrderApi where
  user : String
  id : Uuid
  currencyFrom : Currency
  currencyTo : Currency
  amountFrom : UInt64
  amountTo : UInt64
  status : ExchangeStatus
  createdAt : String
  deriving DecidableEq, Repr

namespace ExchangeOrder

def isFinalized (eo : ExchangeOrder) : Bool :=
  match eo.status with
  | .completed => true
  | _ => false

def isPending (eo : ExchangeOrder) : Bool :=
  match eo.status with
  | .inProgress _ _ => true
  | _ => false

/-- `From<ExchangeOrder>` -/
def toApi (eo : ExchangeOrder) : ExchangeOrderApi where
  user := eo.user
  id := eo.id
  currencyFrom := eo.currencyFrom
  currencyTo := eo.currencyTo
  amountFrom := eo.amountFrom
  amountTo := eo.amountTo
  status := eo.status
  createdAt := eo.createdAt

/-- The order as it is shown, if the filter selects it. -/
def selected? (filter : ExchangeFilter) (eo : ExchangeOrder) : Option ExchangeOrderApi :=
  match filter with
  | .all => some eo.toApi
  | .completed => if eo.isFinalized then some eo.toApi else none
  | .rejected => if eo.isRejected then some eo.toApi else none
  | .pending => if eo.isPending then some eo.toApi else none

end ExchangeOrder

/-- The orders of a user, in the order of the maps. -/
def UserInfo.getExchangeRequests (ui : UserInfo) (o : Oracle) (filter : ExchangeFilter) : List ExchangeOrderApi :=
  (ui.currencies.iter o.currencies).flatMap fun c => (c.2.exchangeRequests.iter o.requests).filterMap fun eo => eo.2.selected? filter

/-- The orders of all users. -/
def State.getExchangeRequests (s : State) (o : Oracle) (filter : ExchangeFilter) : List ExchangeOrderApi :=
  (s.users.iter o.users).flatMap fun u => u.2.getExchangeRequests o filter

namespace Handlers

/-- (`GET /exchange/list?<filter>` of the operators' API) -/
def getExchangeRequests (Γ : Ctx) (E : SegmentEncoding) (s : State) (sd : SignatureData) (filter : ExchangeFilter) (o : Oracle) :
    Except HandlerError (List ExchangeOrderApi) :=
  match Route.guard Γ E (.getExchangeRequests filter) sd "" with
  | .error e => .error e
  | .ok () => .ok (s.getExchangeRequests o filter)

/-- (`GET /exchange/list?<filter>` of the public API) The list of the user who is signed in; `none` if he is not there. -/
def listMyOrders (s : State) (userId : UserId) (filter : ExchangeFilter) (o : Oracle) : Option (List ExchangeOrderApi) :=
  (s.users.get? userId).map fun user => user.getExchangeRequests o filter

end Handlers

end Hexstody
