import Hexstody.Domain

/-!
# Withdrawal requests and the votes on them

A withdrawal request (`state/withdraw.rs`), the payloads of the four updates that write it (`update/withdrawal.rs`), and the
vote: what one operator's decision does to a request (`WithdrawalRequest.applyDecision`, the part of
`State::with_withdrawal_request_decision` after the request is found). A vote is refused before it changes anything, so it is a
partial function of the request.
-/

namespace Hexstody

/-- Confirmations minus rejections at which a request is confirmed. -/
def REQUIRED_NUMBER_OF_CONFIRMATIONS : Int16 := 2

inductive WithdrawalRequestType where
  | underLimit | overLimit
  deriving DecidableEq, Repr

inductive WithdrawalRequestStatus where
  /-- Number of confirmations minus number of rejections received. -/
  | inProgress (n : Int16)
  /-- Confirmed by operators, but not yet sent to the node. -/
  | confirmed
  /-- Tx sent to the node. -/
  | completed (confirmedAt : NaiveDateTime) (txid : CurrencyTxId) (fee : Option UInt64)
      (inputAddresses outputAddresses : List CurrencyAddress)
  /-- Rejected by operators. -/
  | opRejected
  /-- Rejected by the node. -/
  | nodeRejected (reason : String)
  deriving DecidableEq, Repr

inductive WithdrawalRequestDecisionType where
  | confirm | reject
  deriving DecidableEq, Repr

/-- The request part of a create update. -/
structure WithdrawalRequestInfo where
  id : WithdrawalRequestId
  user : UserId
  address : CurrencyAddress
  amount : UInt64
  requestType : WithdrawalRequestType
  deriving DecidableEq, Repr

/-- The payload of a decision update. -/
structure WithdrawalRequestDecisionInfo where
  userId : UserId
  currency : Currency
  requestId : WithdrawalRequestId
  url : String
  signature : Signature
  nonce : UInt64
  publicKey : PublicKey
  decisionType : WithdrawalRequestDecisionType
  deriving DecidableEq, Repr

/-- What is stored of a decision: what is needed to check the operator's signature again. -/
structure WithdrawalRequestDecision where
  url : String
  signature : Signature
  nonce : UInt64
  publicKey : PublicKey
  deriving DecidableEq, Repr

/-- The payload of a completion update. -/
structure WithdrawCompleteInfo where
  id : WithdrawalRequestId
  confirmedAt : NaiveDateTime
  txid : CurrencyTxId
  fee : Option UInt64
  inputAddresses : List CurrencyAddress
  outputAddresses : List CurrencyAddress
  requestType : WithdrawalRequestType
  deriving DecidableEq, Repr

/-- The payload of a node-rejection update. -/
structure WithdrawalRejectInfo where
  id : WithdrawalRequestId
  reason : String
  deriving DecidableEq, Repr

structure WithdrawalRequest where
  id : WithdrawalRequestId
  user : UserId
  address : CurrencyAddress
  createdAt : NaiveDateTime
  amount : UInt64
  status : WithdrawalRequestStatus
  confirmations : List WithdrawalRequestDecision
  rejections : List WithdrawalRequestDecision
  requestType : WithdrawalRequestType
  deriving DecidableEq, Repr

/-- `From<(ConfirmationData, SignatureData, WithdrawalRequestDecisionType, String)>`: the decision a signed body asks for. -/
def WithdrawalRequestDecisionInfo.ofSigned (d : ConfirmationData) (sd : SignatureData)
    (t : WithdrawalRequestDecisionType) (url : String) : WithdrawalRequestDecisionInfo where
  userId := d.user
  currency := d.address.currency
  requestId := d.id
  url := url
  signature := sd.signature
  nonce := sd.nonce
  publicKey := sd.publicKey
  decisionType := t

/-- `From<WithdrawalRequestDecisionInfo>`. -/
def WithdrawalRequestDecision.ofInfo (info : WithdrawalRequestDecisionInfo) : WithdrawalRequestDecision where
  url := info.url
  signature := info.signature
  nonce := info.nonce
  publicKey := info.publicKey

/-- `From<WithdrawalRequestDecision> for SignatureData`. -/
def WithdrawalRequestDecision.toSignatureData (d : WithdrawalRequestDecision) : SignatureData where
  signature := d.signature
  nonce := d.nonce
  publicKey := d.publicKey

/-- The status a completion update sets. -/
def WithdrawCompleteInfo.toStatus (info : WithdrawCompleteInfo) : WithdrawalRequestStatus :=
  .completed info.confirmedAt info.txid info.fee info.inputAddresses info.outputAddresses

namespace WithdrawalRequest

/-- `From<(NaiveDateTime, WithdrawalRequestInfo)>`: a new request, with no vote on it. -/
def ofInfo (timestamp : NaiveDateTime) (info : WithdrawalRequestInfo) : WithdrawalRequest where
  id := info.id
  user := info.user
  address := info.address
  createdAt := timestamp
  amount := info.amount
  status := .inProgress 0
  confirmations := []
  rejections := []
  requestType := info.requestType

def isRejected (r : WithdrawalRequest) : Bool :=
  match r.status with
  | .opRejected => true
  | .nodeRejected _ => true
  | _ => false

/-- Get fee for completed withdrawals, none for others. -/
def fee (r : WithdrawalRequest) : Option UInt64 :=
  match r.status with
  | .completed _ _ fee _ _ => fee
  | _ => none

def isConfirmedByKey (r : WithdrawalRequest) (key : PublicKey) : Bool := r.confirmations.any (·.publicKey == key)

def isRejectedByKey (r : WithdrawalRequest) (key : PublicKey) : Bool := r.rejections.any (·.publicKey == key)

/-- What a vote counts for: two when the key takes back its vote for the other side. -/
def weight (switches : Bool) : Int16 := if switches then 2 else 1

/-- The request after a first or changed vote for it; whether it is confirmed by that vote. -/
def confirm (r : WithdrawalRequest) (n : Int16) (d : WithdrawalRequestDecisionInfo) :
    WithdrawalRequest × Option WithdrawalRequestId :=
  let isRejectedByThisKey := r.isRejectedByKey d.publicKey
  let r' := { r with
    rejections := if isRejectedByThisKey then r.rejections.filter (·.publicKey != d.publicKey) else r.rejections
    confirmations := r.confirmations ++ [WithdrawalRequestDecision.ofInfo d] }
  let m := weight isRejectedByThisKey
  if n = REQUIRED_NUMBER_OF_CONFIRMATIONS - m then ({ r' with status := .confirmed }, some r.id)
  else ({ r' with status := .inProgress (n + m) }, none)

/-- The request after a first or changed vote against it. -/
def reject (r : WithdrawalRequest) (n : Int16) (d : WithdrawalRequestDecisionInfo) : WithdrawalRequest :=
  let isConfirmedByThisKey := r.isConfirmedByKey d.publicKey
  let r' := { r with
    confirmations := if isConfirmedByThisKey then r.confirmations.filter (·.publicKey != d.publicKey) else r.confirmations
    rejections := r.rejections ++ [WithdrawalRequestDecision.ofInfo d] }
  let m := weight isConfirmedByThisKey
  if n = m - REQUIRED_NUMBER_OF_CONFIRMATIONS then { r' with status := .opRejected }
  else { r' with status := .inProgress (n - m) }

/-- The vote: the request after an operator's decision, and its id if that decision confirms it. Only a request in progress is
voted on, and a key votes for one side once. -/
def applyDecision (r : WithdrawalRequest) (d : WithdrawalRequestDecisionInfo) :
    Except StateUpdateErr (WithdrawalRequest × Option WithdrawalRequestId) :=
  match r.status with
  | .completed .. => .error (.withdrawalRequestAlreadyConfirmed r.id)
  | .confirmed => .error (.withdrawalRequestAlreadyConfirmed r.id)
  | .opRejected => .error (.withdrawalRequestAlreadyRejected r.id)
  | .nodeRejected _ => .error (.withdrawalRequestAlreadyRejected r.id)
  | .inProgress n =>
    match d.decisionType with
    | .confirm =>
      if r.isConfirmedByKey d.publicKey then
        .error (.withdrawalRequestConfirmationDuplicate d.requestId d.publicKey)
      else .ok (r.confirm n d)
    | .reject =>
      if r.isRejectedByKey d.publicKey then
        .error (.withdrawalRequestRejectionDuplicate d.requestId d.publicKey)
      else .ok (r.reject n d, none)

/-- The part of a request that no update changes: what is paid, to whom, for whom. -/
structure SameOrder (r r' : WithdrawalRequest) : Prop where
  id : r'.id = r.id
  user : r'.user = r.user
  address : r'.address = r.address
  createdAt : r'.createdAt = r.createdAt
  amount : r'.amount = r.amount
  requestType : r'.requestType = r.requestType

theorem SameOrder.refl (r : WithdrawalRequest) : SameOrder r r := ⟨rfl, rfl, rfl, rfl, rfl, rfl⟩

theorem SameOrder.trans {r r' r'' : WithdrawalRequest} (h : SameOrder r r') (h' : SameOrder r' r'') : SameOrder r r'' :=
  ⟨h'.id.trans h.id, h'.user.trans h.user, h'.address.trans h.address, h'.createdAt.trans h.createdAt,
    h'.amount.trans h.amount, h'.requestType.trans h.requestType⟩

/-- A request with its status replaced is about the same order. -/
theorem sameOrder_status (r : WithdrawalRequest) (st : WithdrawalRequestStatus) :
    SameOrder r { r with status := st } := ⟨rfl, rfl, rfl, rfl, rfl, rfl⟩

end WithdrawalRequest

end Hexstody
