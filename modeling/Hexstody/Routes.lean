import Hexstody.Listing
import Hexstody.Operator

/-!
# The routes of the operator API

The seventeen endpoints that `serve_api` mounts, with the parameters of their paths and queries, and the texts that operators sign
for them. How `uri!` writes a path parameter is the web framework's (`SegmentEncoding`). The guard takes the signature for the
domain and the uri, the data of the body as JSON if the route has one, and the nonce.
-/

namespace Hexstody

def WithdrawalFilter.text : WithdrawalFilter → String
  | .all => "all"
  | .pending => "pending"
  | .confirmed => "confirmed"
  | .completed => "completed"
  | .opRejected => "oprejected"
  | .nodeRejected => "noderejected"

inductive LimitChangeFilter where
  | all | pending | completed | rejected
  deriving DecidableEq, Repr

def LimitChangeFilter.text : LimitChangeFilter → String
  | .all => "all"
  | .completed => "completed"
  | .rejected => "rejected"
  | .pending => "pending"

inductive ExchangeFilter where
  | all | pending | completed | rejected
  deriving DecidableEq, Repr

def ExchangeFilter.text : ExchangeFilter → String
  | .all => "all"
  | .completed => "completed"
  | .rejected => "rejected"
  | .pending => "pending"

/-- How a path parameter is written: it can be read back, and does not end the path. -/
structure SegmentEncoding where
  encode : String → String
  injective : Function.Injective encode
  noQuery : ∀ s, '?' ∉ (encode s).toList

/-- The endpoints, in the order in which they are mounted. -/
inductive Route where
  | list (currencyName : String) (filter : WithdrawalFilter)
  | confirm
  | reject
  | getHotWalletBalance (currencyName : String)
  | getSupportedCurrencies
  | getRequiredConfrimations
  | genInvite
  | listOpsInvites
  | getAllChanges (filter : LimitChangeFilter)
  | confirmLimits
  | rejectLimits
  | confirmExchange
  | rejectExchange
  | getExchangeRequests (filter : ExchangeFilter)
  | getExchangeBalances
  | getExchangeAddress
  | getUserInfo (userId : String)
  deriving DecidableEq, Repr

namespace Route

/-- The route as `uri!` writes it. -/
def uri (E : SegmentEncoding) : Route → String
  | list currencyName filter => "/request/" ++ E.encode currencyName ++ "?filter=" ++ filter.text
  | confirm => confirmUri
  | reject => rejectUri
  | getHotWalletBalance currencyName => "/hot-wallet-balance/" ++ E.encode currencyName
  | getSupportedCurrencies => "/currencies"
  | getRequiredConfrimations => "/confirmations"
  | genInvite => genInviteUri
  | listOpsInvites => "/invite/listmy"
  | getAllChanges filter => "/changes?filter=" ++ filter.text
  | confirmLimits => confirmLimitsUri
  | rejectLimits => rejectLimitsUri
  | confirmExchange => confirmExchangeUri
  | rejectExchange => rejectExchangeUri
  | getExchangeRequests filter => "/exchange/list?filter=" ++ filter.text
  | getExchangeBalances => "/exchange/balances"
  | getExchangeAddress => getExchangeAddressUri
  | getUserInfo userId => "/user/info/" ++ E.encode userId

/-- Whether the request has a body: those that are posted do. -/
def hasBody : Route → Bool
  | confirm => true
  | reject => true
  | genInvite => true
  | confirmLimits => true
  | rejectLimits => true
  | confirmExchange => true
  | rejectExchange => true
  | getExchangeAddress => true
  | _ => false

/-- The message that is signed, if the route has a body. `body` is not what was posted: it is the JSON text that `guard_op_signature`
writes of the data it was read as, so posts that are read as the same data are the same here. -/
def message (ρ : Route) (body : String) : Option String := if ρ.hasBody then some body else none

/-- The text that an operator signs. -/
def signedText (E : SegmentEncoding) (domain : String) (ρ : Route) (body : String) (nonce : UInt64) : String :=
  joined ((domain ++ ρ.uri E) :: ((ρ.message body).toList ++ [toString nonce]))

/-- The guard that the handler of the route begins with, for the JSON text of the data that was read. -/
def guard (Γ : Ctx) (E : SegmentEncoding) (ρ : Route) (sd : SignatureData) (body : String) : Except HandlerError Unit :=
  match ρ.message body with
  | none => Handlers.guardOpSignatureNomsg Γ (ρ.uri E) sd
  | some body => Handlers.guardOpSignature Γ (ρ.uri E) sd body

/-- What the guard accepts: a signature of the text by an operator's key. -/
theorem guard_eq_ok_iff {Γ : Ctx} {E : SegmentEncoding} {ρ : Route} {sd : SignatureData} {body : String} :
    ρ.guard Γ E sd body = .ok () ↔
      sd.publicKey ∈ Γ.operatorPublicKeys ∧
        Γ.verify sd.publicKey (ρ.signedText E Γ.domain body sd.nonce) sd.signature = true := by
  unfold guard signedText
  cases ρ.message body with
  | none => exact Handlers.guardOpSignatureNomsg_eq_ok_iff
  | some body => exact Handlers.guardOpSignature_eq_ok_iff

end Route

/-- The endpoint that a request is sent to; one that only reads carries its uri. -/
def OpRequest.route? : OpRequest → Option Route
  | .query _ => none
  | .confirm _ => some .confirm
  | .reject _ => some .reject
  | .genInvite _ => some .genInvite
  | .confirmLimits _ => some .confirmLimits
  | .rejectLimits _ => some .rejectLimits
  | .confirmExchange _ => some .confirmExchange
  | .rejectExchange _ => some .rejectExchange
  | .getExchangeAddress _ => some .getExchangeAddress

/-- The request is one to an endpoint. -/
def OpRequest.SentTo (E : SegmentEncoding) (q : OpRequest) (ρ : Route) : Prop :=
  q.route? = some ρ ∨ (q = .query (ρ.uri E) ∧ ρ.hasBody = false)

/-- A request that is sent to an endpoint is guarded as the endpoint is. -/
theorem OpRequest.SentTo.guard_eq {Γ : OpCtx} {E : SegmentEncoding} {r : SignedRequest} {ρ : Route}
    (h : r.request.SentTo E ρ) :
    r.guard Γ = ρ.guard Γ.ctx E r.data ((r.request.message Γ).getD "") := by
  obtain ⟨sd, q⟩ := r
  rcases h with h | ⟨rfl, hb⟩
  · cases q with
    | query uri => cases h
    | _ =>
      obtain rfl := Option.some.inj h
      rfl
  · simp [SignedRequest.guard, Route.guard, Route.message, OpRequest.message, OpRequest.uri, hb]

end Hexstody
