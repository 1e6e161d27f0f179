import Hexstody.Handlers

/-!
# The operator API

The handlers of `hexstody-operator`. Each is guarded by a signature of its url, its body and a nonce; the guard keeps nothing of
what it accepted. `OperatorApi.machine` is the API in every run: anybody sends any request at any time, those that were recorded
before among them; what a handler makes of the State is an update that is under way to `update_worker`, and may overtake others.
-/

namespace Hexstody

structure InviteRequest where
  label : String
  deriving DecidableEq, Repr

/-- The change of a limit an operator's decision is about, as it is signed. -/
structure LimitConfirmationData where
  id : Uuid
  user : String
  createdAt : String
  currency : Currency
  requestedLimit : Limit
  deriving DecidableEq, Repr

/-- The exchange order an operator's decision is about, as it is signed. -/
structure ExchangeConfirmationData where
  user : String
  id : Uuid
  currencyFrom : Currency
  currencyTo : Currency
  amountFrom : UInt64
  amountTo : UInt64
  createdAt : String
  deriving DecidableEq, Repr

/-- `From<(LimitConfirmationData, SignatureData, LimitChangeDecisionType, String)>`. -/
def LimitChangeDecision.ofSigned (d : LimitConfirmationData) (sd : SignatureData) (t : LimitChangeDecisionType) (url : String) :
    LimitChangeDecision where
  id := d.id
  user := d.user
  currency := d.currency
  createdAt := d.createdAt
  requestedLimit := d.requestedLimit
  url := url
  signature := sd.signature
  nonce := sd.nonce
  publicKey := sd.publicKey
  decisionType := t

/-- `From<(ExchangeConfirmationData, SignatureData, ExchangeDecisionType, String)>`. -/
def ExchangeDecision.ofSigned (d : ExchangeConfirmationData) (sd : SignatureData) (t : ExchangeDecisionType) (url : String) :
    ExchangeDecision where
  user := d.user
  id := d.id
  currencyFrom := d.currencyFrom
  currencyTo := d.currencyTo
  amountFrom := d.amountFrom
  amountTo := d.amountTo
  url := url
  signature := sd.signature
  nonce := sd.nonce
  publicKey := sd.publicKey
  decision := t

/-- The configuration of the guard, how the bodies are written as JSON, and how a key is printed. -/
structure OpCtx where
  ctx : Ctx
  inviteJson : InviteRequest → String
  limitJson : LimitConfirmationData → String
  exchangeJson : ExchangeConfirmationData → String
  currencyJson : Currency → String
  keyText : PublicKey → String

/-- The errors of the operators' handlers. -/
inductive OperatorError where
  | handler (e : HandlerError)
  | failedGenAddress (currency : Currency)
  deriving DecidableEq, Repr

def genInviteUri : String := "/invite/generate"

def confirmLimitsUri : String := "/limits/confirm"

def rejectLimitsUri : String := "/limits/reject"

def confirmExchangeUri : String := "/exchange/confirm"

def rejectExchangeUri : String := "/exchange/reject"

def getExchangeAddressUri : String := "/exchange/address"

def HEXSTODY_EXCHANGE_USER : String := "hexstody-exchange"

namespace Handlers

/-- Guard operator handle from non-authorized user. Special case for when request has no body attached. -/
def guardOpSignatureNomsg (Γ : Ctx) (uri : String) (sd : SignatureData) : Except HandlerError Unit :=
  let d : SignatureVerificationData :=
    { url := Γ.domain ++ uri, signature := sd.signature, nonce := sd.nonce, message := none, publicKey := sd.publicKey }
  match d.verify Γ.verify Γ.operatorPublicKeys with
  | .ok () => .ok ()
  | .error e => .error (.signatureError e)

/-- What the guard accepts: a signature, by an operator's key, of the url and the nonce. -/
theorem guardOpSignatureNomsg_eq_ok_iff {Γ : Ctx} {uri : String} {sd : SignatureData} :
    guardOpSignatureNomsg Γ uri sd = .ok () ↔ sd.publicKey ∈ Γ.operatorPublicKeys ∧
      Γ.verify sd.publicKey (joined [Γ.domain ++ uri, toString sd.nonce]) sd.signature = true := by
  refine Iff.trans ?_ (SignatureVerificationData.verify_eq_ok_iff_signedText (d :=
    { url := Γ.domain ++ uri, signature := sd.signature, nonce := sd.nonce, message := none, publicKey := sd.publicKey }))
  dsimp only [guardOpSignatureNomsg]
  split
  · rename_i hv
    simp [hv]
  · rename_i e hv
    simp [hv]

/-- (`POST /invite/generate`) The identifiers are drawn until one is no invite of the State; none is when all that were drawn are. -/
def genInvite (Γ : OpCtx) (s : State) (sd : SignatureData) (req : InviteRequest) (ids : List Uuid) :
    Except HandlerError (Option UpdateBody) :=
  match guardOpSignature Γ.ctx genInviteUri sd (Γ.inviteJson req) with
  | .error e => .error e
  | .ok () =>
    .ok ((ids.find? (fun id => !s.invites.contains ⟨id⟩)).map fun id =>
      .genInvite { invite := ⟨id⟩, invitor := Γ.keyText sd.publicKey, label := req.label })

/-- An operator's decision on the change of a limit. -/
def decideLimits (Γ : OpCtx) (uri : String) (t : LimitChangeDecisionType) (sd : SignatureData) (body : LimitConfirmationData) :
    Except HandlerError UpdateBody :=
  match guardOpSignature Γ.ctx uri sd (Γ.limitJson body) with
  | .error e => .error e
  | .ok () => .ok (.limitChangeDecision (.ofSigned body sd t (Γ.ctx.domain ++ uri)))

/-- (`POST /limits/confirm`) -/
def confirmLimits (Γ : OpCtx) : SignatureData → LimitConfirmationData → Except HandlerError UpdateBody :=
  decideLimits Γ confirmLimitsUri .confirm

/-- (`POST /limits/reject`) -/
def rejectLimits (Γ : OpCtx) : SignatureData → LimitConfirmationData → Except HandlerError UpdateBody :=
  decideLimits Γ rejectLimitsUri .reject

/-- An operator's decision on an exchange order. -/
def decideExchange (Γ : OpCtx) (uri : String) (t : ExchangeDecisionType) (sd : SignatureData) (body : ExchangeConfirmationData) :
    Except HandlerError UpdateBody :=
  match guardOpSignature Γ.ctx uri sd (Γ.exchangeJson body) with
  | .error e => .error e
  | .ok () => .ok (.exchangeDecision (.ofSigned body sd t (Γ.ctx.domain ++ uri)))

/-- (`POST /exchange/confirm`) -/
def confirmExchange (Γ : OpCtx) : SignatureData → ExchangeConfirmationData → Except HandlerError UpdateBody :=
  decideExchange Γ confirmExchangeUri .confirm

/-- (`POST /exchange/reject`) -/
def rejectExchange (Γ : OpCtx) : SignatureData → ExchangeConfirmationData → Except HandlerError UpdateBody :=
  decideExchange Γ rejectExchangeUri .reject

/-- The address that a module answers, in a currency. -/
def packedAddress (currency : Currency) (address : String) : CurrencyAddress :=
  match currency with
  | .btc => .btc { addr := address }
  | .eth => .eth { account := address }
  | .erc20 token => .erc20 { token := token, account := { account := address } }

/-- The update for the address that a module answers, if it does. -/
def allocateAddress (currency : Currency) (answer : Option String) : Except OperatorError (Option UpdateBody) :=
  match answer with
  | none => .error (.failedGenAddress currency)
  | some address => .ok (some (.exchangeAddress (packedAddress currency address)))

/-- A new address in bitcoins each time; else that of a special user, where there is one. -/
def getDepositAddress (s : State) (currency : Currency) (answer : Option String) : Except OperatorError (Option UpdateBody) :=
  match currency with
  | .btc => allocateAddress .btc answer
  | currency =>
    match s.currency? HEXSTODY_EXCHANGE_USER currency with
    | none => .error (.failedGenAddress currency)
    | some info =>
      match info.depositInfo with
      | [] => allocateAddress currency answer
      | _ :: _ => .ok none

/-- (`POST /exchange/address`) -/
def getExchangeAddress (Γ : OpCtx) (s : State) (sd : SignatureData) (currency : Currency) (answer : Option String) :
    Except OperatorError (Option UpdateBody) :=
  match guardOpSignature Γ.ctx getExchangeAddressUri sd (Γ.currencyJson currency) with
  | .error e => .error (.handler e)
  | .ok () =>
    match s.exchangeState.addresses.get? currency with
    | some _ => .ok none
    | none => getDepositAddress s currency answer

end Handlers

/-! ## Requests -/

/-- The endpoints, with what they are sent. The nine that only read are one. -/
inductive OpRequest where
  | query (uri : String)
  | confirm (data : ConfirmationData)
  | reject (data : ConfirmationData)
  | genInvite (req : InviteRequest)
  | confirmLimits (data : LimitConfirmationData)
  | rejectLimits (data : LimitConfirmationData)
  | confirmExchange (data : ExchangeConfirmationData)
  | rejectExchange (data : ExchangeConfirmationData)
  | getExchangeAddress (currency : Currency)
  deriving DecidableEq, Repr

def OpRequest.uri : OpRequest → String
  | .query uri => uri
  | .confirm _ => confirmUri
  | .reject _ => rejectUri
  | .genInvite _ => genInviteUri
  | .confirmLimits _ => confirmLimitsUri
  | .rejectLimits _ => rejectLimitsUri
  | .confirmExchange _ => confirmExchangeUri
  | .rejectExchange _ => rejectExchangeUri
  | .getExchangeAddress _ => getExchangeAddressUri

/-- The body, as it is signed. -/
def OpRequest.message (Γ : OpCtx) : OpRequest → Option String
  | .query _ => none
  | .confirm data => some (Γ.ctx.confirmationJson data)
  | .reject data => some (Γ.ctx.confirmationJson data)
  | .genInvite req => some (Γ.inviteJson req)
  | .confirmLimits data => some (Γ.limitJson data)
  | .rejectLimits data => some (Γ.limitJson data)
  | .confirmExchange data => some (Γ.exchangeJson data)
  | .rejectExchange data => some (Γ.exchangeJson data)
  | .getExchangeAddress currency => some (Γ.currencyJson currency)

/-- A request with the `Signature-Data` of its header. -/
structure SignedRequest where
  data : SignatureData
  request : OpRequest
  deriving DecidableEq, Repr

/-- What a handler takes from its surroundings: the identifiers that it draws, and the address that a module answers. -/
structure Draw where
  ids : List Uuid
  address : Option String

namespace SignedRequest

/-- The verdict of the guard. -/
def guard (Γ : OpCtx) (r : SignedRequest) : Except HandlerError Unit :=
  match r.request.message Γ with
  | none => Handlers.guardOpSignatureNomsg Γ.ctx r.request.uri r.data
  | some body => Handlers.guardOpSignature Γ.ctx r.request.uri r.data body

/-- What the handler makes of the State: an error, or the update that it sends, if it sends one. -/
def handle (Γ : OpCtx) (s : State) (draw : Draw) (r : SignedRequest) : Except OperatorError (Option UpdateBody) :=
  match r.request with
  | .query uri => ((Handlers.guardOpSignatureNomsg Γ.ctx uri r.data).map fun _ => none).mapError .handler
  | .confirm data => ((Handlers.confirm Γ.ctx r.data data).map some).mapError .handler
  | .reject data => ((Handlers.reject Γ.ctx r.data data).map some).mapError .handler
  | .genInvite req => (Handlers.genInvite Γ s r.data req draw.ids).mapError .handler
  | .confirmLimits data => ((Handlers.confirmLimits Γ r.data data).map some).mapError .handler
  | .rejectLimits data => ((Handlers.rejectLimits Γ r.data data).map some).mapError .handler
  | .confirmExchange data => ((Handlers.confirmExchange Γ r.data data).map some).mapError .handler
  | .rejectExchange data => ((Handlers.rejectExchange Γ r.data data).map some).mapError .handler
  | .getExchangeAddress currency => Handlers.getExchangeAddress Γ s r.data currency draw.address

/-- The request was signed by an operator: the signature is of the url, the body if there is one, and the nonce. -/
def Authentic (Γ : OpCtx) (r : SignedRequest) : Prop :=
  r.data.publicKey ∈ Γ.ctx.operatorPublicKeys ∧
    Γ.ctx.verify r.data.publicKey
      (joined ((Γ.ctx.domain ++ r.request.uri) :: ((r.request.message Γ).toList ++ [toString r.data.nonce]))) r.data.signature

instance (Γ : OpCtx) (r : SignedRequest) : Decidable (r.Authentic Γ) := inferInstanceAs (Decidable (_ ∧ _))

end SignedRequest

/-- The kinds of update that only the operators' handlers send. -/
def UpdateBody.fromOperator : UpdateBody → Bool
  | .withdrawalRequestDecision _ => true
  | .limitChangeDecision _ => true
  | .exchangeDecision _ => true
  | .genInvite _ => true
  | .exchangeAddress _ => true
  | _ => false

/-! ## The machine -/

structure OperatorApi where
  journal : Journal
  /-- On the way to `update_worker`. One that is lost, as its row fails to be inserted, is as good as one that stays on the way for
  ever: nothing reads what is on the way. -/
  updates : List StateUpdate
  /-- The requests that the guard accepted, with what their handlers sent. -/
  accepted : List (SignedRequest × Option UpdateBody)

inductive OperatorAction where
  /-- Somebody sends a request. -/
  | send (r : SignedRequest) (draw : Draw) (created : NaiveDateTime)
  /-- Another task sends an update. -/
  | other (up : StateUpdate)
  /-- One of the updates is applied. -/
  | apply (n : Nat) (o : Oracle)

namespace OperatorApi

/-- The API before the first request. -/
def new (now : NaiveDateTime) (genesisHash : String) : OperatorApi where
  journal := { state := State.new now genesisHash, rows := [] }
  updates := []
  accepted := []

def step (Γ : OpCtx) (m : OperatorApi) : OperatorAction → Option OperatorApi
  | .send r draw created =>
    match r.guard Γ with
    | .error _ => some m
    | .ok () =>
      let sent := (r.handle Γ m.journal.state draw).toOption.join
      some { m with
        updates := m.updates ++ (sent.map fun b => { created := created, body := b }).toList
        accepted := m.accepted ++ [(r, sent)] }
  | .other up => if up.body.fromOperator then none else some { m with updates := m.updates ++ [up] }
  | .apply n o =>
    match m.updates[n]? with
    | none => none
    | some up =>
      match m.journal.store o up with
      | some j => some { m with journal := j, updates := m.updates.eraseIdx n }
      | none => some { m with updates := m.updates.eraseIdx n }

/-- The operator API, with whoever sends requests to it. -/
def machine (Γ : OpCtx) : Machine OperatorApi OperatorAction where
  init m := ∃ now genesisHash, m = new now genesisHash
  step := step Γ

/-- Identifiers are fresh when they are stored. -/
def FreshIds (m : OperatorApi) (a : OperatorAction) : Prop :=
  match a with
  | .apply n o => ∀ up ∈ m.updates[n]?, m.journal.Fresh (o, up)
  | _ => True

instance (m : OperatorApi) (a : OperatorAction) : Decidable (m.FreshIds a) :=
  match a with
  | .apply n o => inferInstanceAs (Decidable (∀ up ∈ m.updates[n]?, m.journal.Fresh (o, up)))
  | .send _ _ _ => isTrue trivial
  | .other _ => isTrue trivial

end OperatorApi

/-! ## A small API, for the runs that are executed -/

namespace Sample

def opCtx : OpCtx where
  ctx := ctx
  inviteJson req := req.label
  limitJson _ := "json"
  exchangeJson _ := "json"
  currencyJson _ := "json"
  keyText _ := "op"

/-- The first operator's request for an invite. -/
def inviteRequest : SignedRequest := { data := signed 1, request := .genInvite { label := "label" } }

/-- The request is sent, with an identifier that is drawn, and its update is applied. -/
def invited (n : Nat) : List OperatorAction :=
  [.send inviteRequest { ids := [uuid n], address := none } ⟨1⟩, .apply 0 oracle]

end Sample

end Hexstody
