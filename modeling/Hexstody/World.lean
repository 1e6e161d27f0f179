import Hexstody.Journal

/-!
# The hot wallet: handlers, channels and workers

The tasks of the hot wallet, one step at a time. A handler reads the State, decides, and stamps an update (`request`); some
time later the update is sent into the channel (`deliver`), so that updates may overtake each other. `update_worker` takes the
next update from the channel, applies and stores it, and sends what it answers into the results channel (`apply`).
`update_results_worker` takes the next result and calls a paying client method (`take`), waits for the answer (`answer`), and
sends the update that settles the request (`send`). One handler pays by itself (`withdrawEth`). The channels are unbounded here;
with their bounds and the mutex they are in `Tasks`.

The payments are logged, and so are the identifiers that were given out. What the handlers are is a parameter: a `Client` is any
set of requests that never produces an update of the kinds that only the workers send.
-/

namespace Hexstody

/-- A call of a paying client method. -/
inductive PayCall where
  | withdrawBtc (cw : ConfirmedWithdrawal)
  | withdrawUnderLimit (cw : ConfirmedWithdrawal)
  | sendTx (user addr amount : String)
  | sendTxErc20 (user addr contract amount : String)
  deriving DecidableEq, Repr

/-- A payment: the call, and the withdrawal request it is made for, if it is made for one. -/
structure Payment where
  request : Option WithdrawalRequestId
  call : PayCall
  deriving DecidableEq, Repr

/-- What `update_results_worker` does at the moment. -/
inductive Worker where
  | idle
  | calling (id : WithdrawalRequestId) (call : PayCall)
  | sending (u : StateUpdate)

/-- What a paying call returns: the response of the BTC module, an acknowledgement of the ETH module, or an error. -/
inductive Reply where
  | btc (resp : WithdrawalResponse)
  | eth
  | failed (reason : String)
  deriving DecidableEq, Repr

/-- The kinds of update that the handlers send: all but snapshots, which nobody sends, and those that settle a request. -/
def UpdateBody.FromHandler : UpdateBody → Prop
  | .snapshot _ => False
  | .withdrawalRequestComplete _ => False
  | .withdrawalRequestNodeRejected _ => False
  | _ => True

/-- The handlers: what each request makes of the State, if it makes an update at all. -/
structure Client (ι : Type) where
  handle : State → ι → Option UpdateBody
  fromHandler : ∀ s i b, handle s i = some b → b.FromHandler

structure World where
  journal : Journal
  /-- Stamped by a handler, not yet sent. -/
  pending : List StateUpdate
  /-- The channel into `update_worker`. -/
  updates : List StateUpdate
  /-- The channel into `update_results_worker`. -/
  results : List UpdateResult
  worker : Worker
  /-- Every paying call that was made. -/
  payments : List Payment
  /-- Every identifier that was given out. -/
  issued : List Uuid

/-- How times are printed: `created_at.format(..)` and `created_at.to_string()`. -/
structure Clock where
  format : NaiveDateTime → String
  display : NaiveDateTime → String

/-- One step of one task. -/
inductive Action (ι : Type) where
  | request (i : ι) (created : NaiveDateTime)
  | deliver (n : Nat)
  | apply (o : Oracle) (stored : Bool)
  | take (o : Oracle)
  | answer (reply : Reply) (now : NaiveDateTime)
  | send
  | withdrawEth (user : UserId) (addr amount : String)

namespace World

/-- The withdrawal sent to the BTC module for a request that operators confirmed. -/
def confirmedWithdrawal (k : Clock) (id : WithdrawalRequestId) (req : WithdrawalRequest) : ConfirmedWithdrawal where
  id := id
  user := req.user
  address := req.address
  createdAt := k.format req.createdAt
  amount := req.amount
  confirmations := req.confirmations.map WithdrawalRequestDecision.toSignatureData
  rejections := req.rejections.map WithdrawalRequestDecision.toSignatureData

/-- The withdrawal sent to the BTC module for a request under the limit. -/
def underLimitWithdrawal (k : Clock) (wr : WithdrawalRequest) : ConfirmedWithdrawal where
  id := wr.id
  user := wr.user
  address := wr.address
  createdAt := k.display wr.createdAt
  amount := wr.amount
  confirmations := []
  rejections := []

/-- The call that pays a request that operators confirmed. -/
def payCall (k : Clock) (id : WithdrawalRequestId) (req : WithdrawalRequest) : PayCall :=
  match req.address with
  | .btc _ => .withdrawBtc (confirmedWithdrawal k id req)
  | .eth a => .sendTx req.user a.account (toString req.amount)
  | .erc20 a => .sendTxErc20 req.user a.account.account a.token.contract (toString req.amount)

/-- What the worker does with a result: the request it pays, and the call. A confirmed request is looked up in the State; when
it is not there, nothing is paid. -/
def taken (k : Clock) (s : State) (o : Oracle) : UpdateResult → Option (WithdrawalRequestId × PayCall)
  | .withdrawConfirmed id => (s.getWithdrawalRequest o id).map (fun req => (id, payCall k id req))
  | .withdrawalUnderlimit wr => some (wr.id, .withdrawUnderLimit (underLimitWithdrawal k wr))

/-- The completion of a request that the BTC module paid. -/
def completeInfo (resp : WithdrawalResponse) (now : NaiveDateTime) (t : WithdrawalRequestType) : WithdrawCompleteInfo where
  id := resp.id
  confirmedAt := now
  txid := .btc { txid := resp.txid.hex }
  fee := resp.fee
  inputAddresses := resp.inputAddresses
  outputAddresses := resp.outputAddresses
  requestType := t

/-- What the worker does when a call returns. The BTC module answers with the id it was asked for; a payment in ether or in a
token that succeeds is not reported to the State. -/
def answered (id : WithdrawalRequestId) (call : PayCall) (reply : Reply) (now : NaiveDateTime) : Option Worker :=
  match call, reply with
  | .withdrawBtc cw, .btc resp =>
    if resp.id = cw.id then
      some (.sending { created := now, body := .withdrawalRequestComplete (completeInfo resp now .overLimit) })
    else none
  | .withdrawUnderLimit cw, .btc resp =>
    if resp.id = cw.id then
      some (.sending { created := now, body := .withdrawalRequestComplete (completeInfo resp now .underLimit) })
    else none
  | .sendTx .., .eth => some .idle
  | .sendTxErc20 .., .eth => some .idle
  | _, .failed reason =>
    some (.sending { created := now, body := .withdrawalRequestNodeRejected { id := id, reason := reason } })
  | _, _ => none

/-- The identifiers that an update uses for the first time. -/
def newIds (u : StateUpdate) : List Uuid := u.request?.toList.map (·.id) ++ u.order?.toList.map (·.id)

/-- A request to a handler. The identifiers in its update are newly generated. -/
def request {ι : Type} (C : Client ι) (w : World) (i : ι) (created : NaiveDateTime) : Option World :=
  match C.handle w.journal.state i with
  | none => none
  | some b =>
    let u : StateUpdate := { created := created, body := b }
    if ∀ id ∈ newIds u, id ∉ w.issued then
      some { w with pending := w.pending ++ [u], issued := newIds u ++ w.issued }
    else none

/-- An update that was stamped is sent. -/
def deliver (w : World) (n : Nat) : Option World :=
  match w.pending[n]? with
  | none => none
  | some u => some { w with pending := w.pending.eraseIdx n, updates := w.updates ++ [u] }

/-- `update_worker`: the next update is applied to a copy of the State. If it is accepted and stored, the copy is the State, and
what it answers is sent on; if it is refused, or the database fails, nothing changes. -/
def apply (w : World) (o : Oracle) (stored : Bool) : Option World :=
  match w.updates with
  | [] => none
  | u :: us =>
    match w.journal.store o u with
    | none => some { w with updates := us }
    | some j =>
      if stored then
        some { w with
          updates := us
          journal := j
          results := w.results ++ j.answer.toList }
      else some { w with updates := us }

/-- `update_results_worker` takes the next result, and pays. -/
def take (k : Clock) (w : World) (o : Oracle) : Option World :=
  match w.worker, w.results with
  | .idle, r :: rs =>
    match taken k w.journal.state o r with
    | none => some { w with results := rs }
    | some (id, call) =>
      some { w with
        results := rs
        worker := .calling id call
        payments := w.payments ++ [{ request := some id, call := call }] }
  | _, _ => none

/-- The call of `update_results_worker` returns. -/
def answer (w : World) (reply : Reply) (now : NaiveDateTime) : Option World :=
  match w.worker with
  | .calling id call => (answered id call reply now).map (fun wk => { w with worker := wk })
  | _ => none

/-- `update_results_worker` sends the update that settles a request. -/
def send (w : World) : Option World :=
  match w.worker with
  | .sending u => some { w with worker := .idle, updates := w.updates ++ [u] }
  | _ => none

/-- (`GET /withdraweth`) A signed-in user has the ETH module send an amount to an address, from the account `testlogin`. -/
def withdrawEth (w : World) (user : UserId) (addr amount : String) : Option World :=
  if w.journal.state.users.contains user then
    some { w with payments := w.payments ++ [{ request := none, call := .sendTx "testlogin" addr amount }] }
  else none

/-- The hot wallet before its first step. -/
def new (now : NaiveDateTime) (genesisHash : String) : World where
  journal := { state := State.new now genesisHash, rows := [] }
  pending := []
  updates := []
  results := []
  worker := .idle
  payments := []
  issued := []

/-- The hot wallet over some handlers. -/
def machine {ι : Type} (C : Client ι) (k : Clock) : Machine World (Action ι) where
  init w := ∃ now genesisHash, w = new now genesisHash
  step w
    | .request i created => w.request C i created
    | .deliver n => w.deliver n
    | .apply o stored => w.apply o stored
    | .take o => w.take k o
    | .answer reply now => w.answer reply now
    | .send => w.send
    | .withdrawEth user addr amount => w.withdrawEth user addr amount

/-- The update that a step makes part of the State, unless it is refused. -/
def applied? {ι : Type} (w : World) : Action ι → Option (Oracle × StateUpdate)
  | .apply o true => w.updates.head?.map (fun u => (o, u))
  | _ => none

/-- The payments made for a request. -/
def paymentsFor (w : World) (id : WithdrawalRequestId) : List Payment := w.payments.filter (·.request = some id)

end World

end Hexstody
