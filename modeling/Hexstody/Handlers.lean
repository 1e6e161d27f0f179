import Hexstody.World
import Hexstody.Sig

/-!
# The handlers that move money

The public handlers that ask for a withdrawal and for an exchange (`hexstody-public`, `wallet.rs`), and the operators' handlers
that decide on a withdrawal (`hexstody-operator`). A public handler works on a copy of the user's entry in the State, which may
be out of date when its update is applied. `hotWallet` is the client that has these handlers and lets every other handler and
background task send what it likes of its own kinds of update. `Ctx` holds the configuration and the formats of the texts that
are signed.
-/

namespace Hexstody

/-- The configuration of the operators' guard, the signature scheme, and how a confirmation is written as JSON. -/
structure Ctx where
  verify : Verify
  domain : String
  operatorPublicKeys : List PublicKey
  confirmationJson : ConfirmationData → String

/-- The errors of the handlers that are modelled. -/
inductive HandlerError where
  | noUserFound
  | noUserCurrency (c : Currency)
  | failedGetFee (c : Currency)
  | insufficientFunds (c : Currency)
  | signatureError (e : SignatureError)
  deriving DecidableEq, Repr

/-- A user's request for a withdrawal. -/
structure UserWithdrawRequest where
  address : CurrencyAddress
  amount : UInt64
  deriving DecidableEq, Repr

/-- A user's request for an exchange. -/
structure ExchangeRequest where
  currencyFrom : Currency
  currencyTo : Currency
  amountFrom : UInt64
  amountTo : UInt64
  deriving DecidableEq, Repr

def BTC_BYTES_PER_TRANSACTION : UInt64 := 1024

def confirmUri : String := "/confirm"

def rejectUri : String := "/reject"

namespace Handlers

/-- The copy of the signed-in user's entry that a handler works on. -/
def requireAuthUser (s : State) (user : UserId) : Except HandlerError UserInfo :=
  match s.users.get? user with
  | some u => .ok u
  | none => .error .noUserFound

/-- What a bitcoin withdrawal is asked to leave room for: the amount, and the fee of a transaction at the node's rate. -/
def requiredAmount (amount feeRate : UInt64) : UInt64 := amount + feeRate * BTC_BYTES_PER_TRANSACTION

/-- (`POST /withdraw`) The new request, with its id and the fee rate that the BTC module answers, if it does. -/
def postWithdraw (user : UserInfo) (req : UserWithdrawRequest) (feeRate : Option UInt64) (id : Uuid) :
    Except HandlerError UpdateBody :=
  let create (t : WithdrawalRequestType) : UpdateBody :=
    .createWithdrawalRequest
      { id := id, user := user.username, address := req.address, amount := req.amount, requestType := t }
  match req.address with
  | .eth _ => .ok (create .overLimit)
  | .erc20 _ => .ok (create .overLimit)
  | .btc _ =>
    match user.currencies.get? .btc with
    | none => .error (.noUserCurrency .btc)
    | some btcInfo =>
      let btcBalance := btcInfo.finalizedBalance
      let spent := btcInfo.limitInfo.spent
      let limit := btcInfo.limitInfo.limit.amount
      match feeRate with
      | none => .error (.failedGetFee .btc)
      | some btcFeePerByte =>
        let required := requiredAmount req.amount btcFeePerByte
        if required ≤ btcBalance then
          .ok (create (if limit - spent ≥ required then .underLimit else .overLimit))
        else .error (.insufficientFunds .btc)

/-- (`POST /exchange/order`) The new order, with its id and the time as it is printed. -/
def orderExchange (user : UserInfo) (req : ExchangeRequest) (id : Uuid) (createdAt : String) :
    Except HandlerError UpdateBody :=
  match user.currencies.get? req.currencyFrom with
  | none => .error (.noUserCurrency req.currencyFrom)
  | some cinfo =>
    if cinfo.balance < req.amountFrom then .error (.insufficientFunds req.currencyFrom)
    else
      .ok (.exchangeRequest
        { user := user.username, currencyFrom := req.currencyFrom, currencyTo := req.currencyTo,
          amountFrom := req.amountFrom, amountTo := req.amountTo, id := id, createdAt := createdAt })

/-- Guard operator handle from non-authorized user. -/
def guardOpSignature (Γ : Ctx) (uri : String) (sd : SignatureData) (body : String) : Except HandlerError Unit :=
  let d : SignatureVerificationData :=
    { url := Γ.domain ++ uri, signature := sd.signature, nonce := sd.nonce, message := some body, publicKey := sd.publicKey }
  match d.verify Γ.verify Γ.operatorPublicKeys with
  | .ok () => .ok ()
  | .error e => .error (.signatureError e)

/-- An operator's decision on a withdrawal: the body is what is signed. -/
def decideWithdrawal (Γ : Ctx) (uri : String) (t : WithdrawalRequestDecisionType) (sd : SignatureData)
    (body : ConfirmationData) : Except HandlerError UpdateBody :=
  match guardOpSignature Γ uri sd (Γ.confirmationJson body) with
  | .error e => .error e
  | .ok () => .ok (.withdrawalRequestDecision (.ofSigned body sd t (Γ.domain ++ uri)))

/-- (`POST /confirm`) -/
def confirm (Γ : Ctx) : SignatureData → ConfirmationData → Except HandlerError UpdateBody :=
  decideWithdrawal Γ confirmUri .confirm

/-- (`POST /reject`) -/
def reject (Γ : Ctx) : SignatureData → ConfirmationData → Except HandlerError UpdateBody :=
  decideWithdrawal Γ rejectUri .reject

end Handlers

/-- A request to a handler, or an update of another handler or background task. -/
inductive HandlerCall where
  | postWithdraw (user : UserId) (req : UserWithdrawRequest) (feeRate : Option UInt64) (id : Uuid)
  | orderExchange (user : UserId) (req : ExchangeRequest) (id : Uuid) (createdAt : String)
  | confirm (sd : SignatureData) (body : ConfirmationData)
  | reject (sd : SignatureData) (body : ConfirmationData)
  | other (b : UpdateBody)

/-- The kinds of update that the other handlers and background tasks send. -/
def UpdateBody.isOther : UpdateBody → Bool
  | .snapshot _ => false
  | .createWithdrawalRequest _ => false
  | .withdrawalRequestDecision _ => false
  | .withdrawalRequestComplete _ => false
  | .withdrawalRequestNodeRejected _ => false
  | .exchangeRequest _ => false
  | _ => true

theorem UpdateBody.fromHandler_of_isOther {b : UpdateBody} (h : b.isOther = true) : b.FromHandler := by
  cases b <;> trivial

/-- The update that a call makes, if it makes one. -/
def HandlerCall.handle (Γ : Ctx) (s : State) : HandlerCall → Except HandlerError (Option UpdateBody)
  | .postWithdraw user req feeRate id =>
    (Handlers.requireAuthUser s user).bind (fun u => (Handlers.postWithdraw u req feeRate id).map some)
  | .orderExchange user req id createdAt =>
    (Handlers.requireAuthUser s user).bind (fun u => (Handlers.orderExchange u req id createdAt).map some)
  | .confirm sd body => (Handlers.confirm Γ sd body).map some
  | .reject sd body => (Handlers.reject Γ sd body).map some
  | .other b => .ok (if b.isOther then some b else none)

namespace Handlers

/-- A withdrawal handler makes a new request for the user, to the address and of the amount that were asked for; it is under the
limit only in bitcoins. -/
theorem postWithdraw_eq_ok {user : UserInfo} {req : UserWithdrawRequest} {feeRate : Option UInt64} {id : Uuid}
    {b : UpdateBody} (h : postWithdraw user req feeRate id = .ok b) :
    ∃ t, b = .createWithdrawalRequest
        { id := id, user := user.username, address := req.address, amount := req.amount, requestType := t } ∧
      (t = .underLimit → req.address.currency = .btc) := by
  unfold postWithdraw at h
  cases ha : req.address with
  | eth a =>
    simp only [ha] at h
    exact ⟨.overLimit, (Except.ok.inj h).symm, fun ht => by cases ht⟩
  | erc20 a =>
    simp only [ha] at h
    exact ⟨.overLimit, (Except.ok.inj h).symm, fun ht => by cases ht⟩
  | btc a =>
    simp only [ha] at h
    cases hc : user.currencies.get? .btc with
    | none => simp [hc] at h
    | some i =>
      cases feeRate with
      | none => simp [hc] at h
      | some rate =>
        simp only [hc] at h
        split at h
        · exact ⟨_, (Except.ok.inj h).symm, fun _ => rfl⟩
        · cases h

/-- What the guard accepts: a signature, by an operator's key, of the url, the body and the nonce. -/
theorem guardOpSignature_eq_ok_iff {Γ : Ctx} {uri : String} {sd : SignatureData} {body : String} :
    guardOpSignature Γ uri sd body = .ok () ↔ sd.publicKey ∈ Γ.operatorPublicKeys ∧
      Γ.verify sd.publicKey (joined [Γ.domain ++ uri, body, toString sd.nonce]) sd.signature = true := by
  refine Iff.trans ?_ (SignatureVerificationData.verify_eq_ok_iff (d :=
    { url := Γ.domain ++ uri, signature := sd.signature, nonce := sd.nonce, message := some body, publicKey := sd.publicKey }) rfl)
  dsimp only [guardOpSignature]
  split
  · rename_i hv
    simp [hv]
  · rename_i e hv
    simp [hv]

/-- A decision that passes the guard is by an operator. -/
theorem decideWithdrawal_eq_ok {Γ : Ctx} {uri : String} {t : WithdrawalRequestDecisionType} {sd : SignatureData}
    {body : ConfirmationData} {b : UpdateBody} (h : decideWithdrawal Γ uri t sd body = .ok b) :
    b = .withdrawalRequestDecision (.ofSigned body sd t (Γ.domain ++ uri)) ∧ sd.publicKey ∈ Γ.operatorPublicKeys ∧
      Γ.verify sd.publicKey (joined [Γ.domain ++ uri, Γ.confirmationJson body, toString sd.nonce]) sd.signature = true := by
  unfold decideWithdrawal at h
  cases hg : guardOpSignature Γ uri sd (Γ.confirmationJson body) with
  | error e => simp [hg] at h
  | ok u =>
    simp only [hg] at h
    exact ⟨(Except.ok.inj h).symm, guardOpSignature_eq_ok_iff.mp hg⟩

theorem orderExchange_eq_ok {user : UserInfo} {req : ExchangeRequest} {id : Uuid} {createdAt : String} {b : UpdateBody}
    (h : orderExchange user req id createdAt = .ok b) : ∃ upd, b = .exchangeRequest upd := by
  unfold orderExchange at h
  split at h
  · cases h
  · split at h
    · cases h
    · exact ⟨_, (Except.ok.inj h).symm⟩

end Handlers

/-- A call that makes an update is one of the handlers on the user's entry, an operator's vote, or an update of another kind. -/
theorem HandlerCall.handle_cases {Γ : Ctx} {s : State} {call : HandlerCall} {b : UpdateBody}
    (h : call.handle Γ s = .ok (some b)) :
    (∃ user u req feeRate id, call = .postWithdraw user req feeRate id ∧ s.users.get? user = some u ∧
        Handlers.postWithdraw u req feeRate id = .ok b) ∨
      (∃ user u req id createdAt, call = .orderExchange user req id createdAt ∧ s.users.get? user = some u ∧
        Handlers.orderExchange u req id createdAt = .ok b) ∨
      (∃ sd body, Handlers.confirm Γ sd body = .ok b ∨ Handlers.reject Γ sd body = .ok b) ∨ b.isOther = true := by
  -- what a handler returns, through the wrapping
  have key : ∀ {e : Except HandlerError UpdateBody}, e.map some = .ok (some b) → e = .ok b := by
    intro e he
    cases e with
    | error x => cases he
    | ok x => exact congrArg _ (Option.some.inj (Except.ok.inj he))
  cases call with
  | postWithdraw user req feeRate id =>
    simp only [handle, Handlers.requireAuthUser] at h
    cases hu : s.users.get? user with
    | none => simp [hu, Except.bind] at h
    | some u =>
      simp only [hu, Except.bind] at h
      exact Or.inl ⟨user, u, req, feeRate, id, rfl, hu, key h⟩
  | orderExchange user req id createdAt =>
    simp only [handle, Handlers.requireAuthUser] at h
    cases hu : s.users.get? user with
    | none => simp [hu, Except.bind] at h
    | some u =>
      simp only [hu, Except.bind] at h
      exact Or.inr (Or.inl ⟨user, u, req, id, createdAt, rfl, hu, key h⟩)
  | confirm sd body => exact Or.inr (Or.inr (Or.inl ⟨sd, body, Or.inl (key h)⟩))
  | reject sd body => exact Or.inr (Or.inr (Or.inl ⟨sd, body, Or.inr (key h)⟩))
  | other b' =>
    simp only [handle, Except.ok.injEq] at h
    split at h
    · obtain rfl := Option.some.inj h
      exact Or.inr (Or.inr (Or.inr ‹_›))
    · cases h

/-- What a call makes: a request, an order, an operator's decision, or an update of another kind. -/
theorem HandlerCall.handle_eq_ok {Γ : Ctx} {s : State} {call : HandlerCall} {b : UpdateBody}
    (h : call.handle Γ s = .ok (some b)) :
    (∃ info, b = .createWithdrawalRequest info ∧ (info.requestType = .underLimit → info.address.currency = .btc)) ∨
      (∃ d, b = .withdrawalRequestDecision d ∧ d.publicKey ∈ Γ.operatorPublicKeys) ∨
      (∃ upd, b = .exchangeRequest upd) ∨ b.isOther = true := by
  rcases handle_cases h with ⟨user, u, req, feeRate, id, -, -, hp⟩ | ⟨user, u, req, id, createdAt, -, -, hp⟩ |
    ⟨sd, body, hp | hp⟩ | hother
  · obtain ⟨t, rfl, ht⟩ := Handlers.postWithdraw_eq_ok hp
    exact Or.inl ⟨_, rfl, ht⟩
  · exact Or.inr (Or.inr (Or.inl (Handlers.orderExchange_eq_ok hp)))
  · obtain ⟨rfl, hk, -⟩ := Handlers.decideWithdrawal_eq_ok hp
    exact Or.inr (Or.inl ⟨_, rfl, hk⟩)
  · obtain ⟨rfl, hk, -⟩ := Handlers.decideWithdrawal_eq_ok hp
    exact Or.inr (Or.inl ⟨_, rfl, hk⟩)
  · exact Or.inr (Or.inr (Or.inr hother))

/-- The update of a call, if it makes one. -/
def HandlerCall.update? (Γ : Ctx) (s : State) (call : HandlerCall) : Option UpdateBody := (call.handle Γ s).toOption.join

theorem HandlerCall.update?_eq_some {Γ : Ctx} {s : State} {call : HandlerCall} {b : UpdateBody}
    (h : call.update? Γ s = some b) : call.handle Γ s = .ok (some b) := by
  unfold update? at h
  cases he : call.handle Γ s with
  | error e => rw [he] at h; cases h
  | ok x =>
    rw [he] at h
    exact congrArg _ (by simpa [Except.toOption] using h)

/-- The handlers of the hot wallet. -/
def hotWallet (Γ : Ctx) : Client HandlerCall where
  handle s call := call.update? Γ s
  fromHandler := by
    intro s call b h
    rcases HandlerCall.handle_eq_ok (HandlerCall.update?_eq_some h) with ⟨info, rfl, -⟩ | ⟨d, rfl, -⟩ | ⟨upd, rfl⟩ | hother
    · trivial
    · trivial
    · trivial
    · exact UpdateBody.fromHandler_of_isOther hother

/-! ## A small wallet, for the runs that are executed -/

namespace Sample

/-- Three operators, whose signatures are their keys. -/
def ctx : Ctx where
  verify k _ sig := sig.bytes == k.bytes
  domain := "domain"
  operatorPublicKeys := [key 1, key 2, key 3]
  confirmationJson _ := "json"

def clock : Clock := { format := fun _ => "time", display := fun _ => "time" }

def world : World := World.new ⟨0⟩ "genesis"

theorem world_init : (World.machine (hotWallet ctx) clock).init world := ⟨_, _, rfl⟩

/-- A call whose update is sent at once, and applied. -/
def done (t : Int) (call : HandlerCall) : List (Action HandlerCall) :=
  [.request call ⟨t⟩, .deliver 0, .apply oracle true]

def addr : BtcAddress := { addr := "addr" }

/-- A deposit to alice's address, deep in the chain. -/
def deposit (amount : Int64) : BtcTransaction where
  txid := ⟨"tx"⟩
  vout := 0
  address := ⟨"addr"⟩
  confirmations := 6
  amount := amount
  timestamp := ⟨0⟩
  conflicts := []
  fee := none

/-- Alice signs up and gets a deposit. -/
def opening (amount : Int64) : List (Action HandlerCall) :=
  done 1 (.other (.genInvite { invite := ⟨uuid 1⟩, invitor := "op", label := "" })) ++
    done 2 (.other (.signup { username := alice, invite := ⟨uuid 1⟩, auth := .lightning })) ++
    done 3 (.other (.depositAddress { userId := alice, address := .btc addr })) ++
    done 4 (.other (.updateBtcTx (deposit amount)))

/-- An operator's vote for a limit of alice's. -/
def limitVote (k : UInt8) (limit : Limit) : LimitChangeDecision where
  id := uuid 0
  user := alice
  currency := .btc
  createdAt := ""
  requestedLimit := limit
  url := "url"
  signature := ⟨[k]⟩
  nonce := 0
  publicKey := key k
  decisionType := .confirm

/-- Alice asks for a limit, and two operators confirm it. -/
def limited (amount : UInt64) : List (Action HandlerCall) :=
  done 5 (.other (.limitsChangeRequest { user := alice, currency := .btc, limit := { amount := amount, span := .day } })) ++
    done 6 (.other (.limitChangeDecision (limitVote 1 { amount := amount, span := .day }))) ++
    done 7 (.other (.limitChangeDecision (limitVote 2 { amount := amount, span := .day })))

/-- Alice's withdrawal, at five satoshi a byte. -/
def withdraw (n : Nat) (amount : UInt64) : HandlerCall :=
  .postWithdraw alice { address := .btc { addr := "out" }, amount := amount } (some 5) (uuid n)

/-- What an operator signs about it. -/
def confirmation (n : Nat) (amount : UInt64) : ConfirmationData where
  id := uuid n
  user := alice
  address := .btc { addr := "out" }
  createdAt := "time"
  amount := amount

def signed (k : UInt8) : SignatureData := { signature := ⟨[k]⟩, nonce := 0, publicKey := key k }

/-- The response of the BTC module to a withdrawal. -/
def paid (n : Nat) (fee : UInt64) : Reply :=
  .btc { id := uuid n, txid := ⟨"paid"⟩, fee := some fee, inputAddresses := [], outputAddresses := [] }

end Sample

end Hexstody
