import Hexstody.BtcClient
import Hexstody.Theorems.Payments

/-!
# What a failed payment means

The hot wallet takes an error from a paying call as "not paid", and rejects the request, which gives the amount back to the user.
But the BTC module sends first, and then asks the node for the transaction and decodes it; a failure there, or a response that is
lost on the way, is an error too. A failed call means that nothing was paid just when no message after the payment is lost and the
node can produce the transaction (`failure_means_unpaid_iff`). In every run in which it is so, and in which no request is paid for
twice, a request that is reported as rejected was not paid (`Paying.rejected_unpaid`).
-/

namespace Hexstody

/-- The node has the transaction, and it can be decoded. -/
def BtcNode.produces (node : BtcNode) (txid : Txid) : Bool :=
  match node.getTransaction txid with
  | .error _ => false
  | .ok tx => (node.deserialize tx.hex).toBool

namespace BtcClient

variable {Γ : BtcCtx} {b : Behaviour} {call : PayCall}

/-- What the hot wallet reports as rejected by the node during a call, the node did not accept. -/
def FailureMeansUnpaid (Γ : BtcCtx) (b : Behaviour) (call : PayCall) : Prop :=
  ∀ id now r info, reply Γ b call = some r →
    World.answered id call r now = some (.sending { created := now, body := .withdrawalRequestNodeRejected info }) →
      accepted Γ b call = false

/-- What a handler of the BTC module returns an error for, the node did not accept. -/
def ErrorMeansUnpaid (Γ : BtcCtx) (b : Behaviour) (call : PayCall) : Prop :=
  ∀ out e, handler { Γ with node := b.seen } call = some out → out.2 = .error e → out.1.any b.accepts = false

/-! ## When it does not -/

/-- The payment that a withdrawal is, if it is to an address of the Bitcoin network. -/
def payment (node : BtcNode) (cw : ConfirmedWithdrawal) : Option SendToAddress :=
  match cw.address with
  | .btc a => (node.parseAddress a.addr).map fun addr => { address := addr, amount := cw.amount, comment := cw.id.display }
  | _ => none

/-- The signatures of a withdrawal pass for a quorum. -/
def Approved (Γ : BtcCtx) (cw : ConfirmedWithdrawal) : Prop :=
  let confirms := BtcModule.countValid Γ (BtcModule.signedText Γ WITHDRAWAL_CONFIRM_URI cw) cw.confirmations
  let rejections := BtcModule.countValid Γ (BtcModule.signedText Γ WITHDRAWAL_REJECT_URI cw) cw.rejections
  confirms > rejections ∧ confirms - rejections ≥ Γ.cfg.minConfirmations

instance (Γ : BtcCtx) (cw : ConfirmedWithdrawal) : Decidable (Approved Γ cw) := inferInstanceAs (Decidable (_ ∧ _))

/-- The payment that a call asks the node for, if it asks for one. -/
def asked (Γ : BtcCtx) (node : BtcNode) : PayCall → Option SendToAddress
  | .withdrawBtc cw => if Approved Γ cw then payment node cw else none
  | .withdrawUnderLimit cw => payment node cw
  | _ => none

/-- The node accepts the payment of a call that reaches it, and then its answer is lost, or it cannot produce the transaction, or
that answer is lost. -/
def FailsAfterPaying (Γ : BtcCtx) (b : Behaviour) (call : PayCall) : Prop :=
  ∃ c txid, asked Γ b.node call = some c ∧ b.send.reached = true ∧ b.node.sendToAddress c = .ok txid ∧
    (b.send ≠ .delivered ∨ b.getTransaction ≠ .delivered ∨ b.node.produces txid = false)

/-- The node accepts the payment of a call, and the response of the BTC module is lost. -/
def ResponseLost (Γ : BtcCtx) (b : Behaviour) (call : PayCall) : Prop :=
  (∃ e, b.http = .responseLost e) ∧ ∃ c ∈ asked Γ b.node call, b.accepts c = true

/-! ## The calls -/

/-- A payment that is asked for, and its outcome. -/
theorem send_eq (node : BtcNode) (network : Network) (cw : ConfirmedWithdrawal) :
    (BtcModule.send node network cw).1 = payment node cw ∧
      ((∃ resp, (BtcModule.send node network cw).2 = .ok resp) ↔
        ∃ c txid, payment node cw = some c ∧ node.sendToAddress c = .ok txid ∧ node.produces txid = true) := by
  unfold BtcModule.send payment
  cases cw.address with
  | eth a => simp
  | erc20 a => simp
  | btc a =>
    simp only
    cases node.parseAddress a.addr with
    | none => simp
    | some addr =>
      simp only [Option.map_some, Option.some.injEq]
      cases hs : node.sendToAddress { address := addr, amount := cw.amount, comment := cw.id.display } with
      | error e => simp [hs]
      | ok txid =>
        refine ⟨rfl, ?_⟩
        have hresp : (∃ resp, BtcModule.response node network cw txid = .ok resp) ↔ node.produces txid = true := by
          unfold BtcModule.response BtcNode.produces
          cases node.getTransaction txid with
          | error e => simp
          | ok tx => cases hd : node.deserialize tx.hex <;> simp [hd, Except.toBool]
        rw [hresp]
        constructor
        · exact fun hp => ⟨_, txid, rfl, hs, hp⟩
        · rintro ⟨c, t, rfl, ht, hp⟩
          rw [hs] at ht
          obtain rfl := Except.ok.inj ht
          exact hp

theorem withdrawBtc_eq (Γ : BtcCtx) (cw : ConfirmedWithdrawal) : BtcModule.withdrawBtc Γ cw =
    if Approved Γ cw then BtcModule.send Γ.node Γ.cfg.network cw else (none, .error BtcModule.forbidden) := rfl

/-- What a handler asks the node for, and when it succeeds. -/
theorem handler_eq {out : Option SendToAddress × Except ErrorReply WithdrawalResponse} (h : handler Γ call = some out) :
    out.1 = asked Γ Γ.node call ∧ ((∃ resp, out.2 = .ok resp) ↔
      ∃ c txid, asked Γ Γ.node call = some c ∧ Γ.node.sendToAddress c = .ok txid ∧ Γ.node.produces txid = true) := by
  cases call with
  | withdrawBtc cw =>
    obtain rfl := Option.some.inj h
    rw [withdrawBtc_eq]
    unfold asked
    by_cases ha : Approved Γ cw
    · simp only [if_pos ha]
      exact send_eq ..
    · simp only [if_neg ha]
      simp
  | withdrawUnderLimit cw =>
    obtain rfl := Option.some.inj h
    exact send_eq ..
  | sendTx user addr amount => cases h
  | sendTxErc20 user addr contract amount => cases h

/-- A call looks at the node for the addresses, and the BTC module sees those as they are. -/
theorem asked_seen : asked { Γ with node := b.seen } b.seen call = asked Γ b.node call := by
  cases call <;> rfl

/-- The node, as it is seen, accepts a payment and produces the transaction, when nothing is lost. -/
theorem seen_ok_iff {c : SendToAddress} : (∃ txid, b.seen.sendToAddress c = .ok txid ∧ b.seen.produces txid = true) ↔
    ∃ txid, b.node.sendToAddress c = .ok txid ∧ b.send = .delivered ∧ b.getTransaction = .delivered ∧
      b.node.produces txid = true := by
  have hprod : ∀ txid, b.seen.produces txid = true ↔ b.getTransaction = .delivered ∧ b.node.produces txid = true := by
    intro txid
    unfold BtcNode.produces Behaviour.seen Delivery.through
    cases hg : b.getTransaction <;> simp
  have hsend : ∀ txid, b.seen.sendToAddress c = .ok txid ↔ b.node.sendToAddress c = .ok txid ∧ b.send = .delivered := by
    intro txid
    unfold Behaviour.seen Delivery.through
    cases hd : b.send <;> simp
  simp only [hprod, hsend, and_assoc]

/-- A handler returns an error, and the node accepts its payment, just when the payment fails after it. -/
theorem handler_fails_iff {out : Option SendToAddress × Except ErrorReply WithdrawalResponse}
    (h : handler { Γ with node := b.seen } call = some out) :
    ((∃ e, out.2 = .error e) ∧ out.1.any b.accepts = true) ↔ FailsAfterPaying Γ b call := by
  obtain ⟨hasked, hok⟩ := handler_eq h
  rw [asked_seen] at hasked
  have herr : (∃ e, out.2 = .error e) ↔ ¬∃ resp, out.2 = .ok resp := by
    cases out.2 <;> simp
  rw [herr, hok, hasked]
  simp only [asked_seen]
  unfold FailsAfterPaying
  cases hc : asked Γ b.node call with
  | none => simp
  | some c =>
    simp only [Option.any_some, Option.some.injEq, exists_and_left, exists_eq_left', Behaviour.accepts, Bool.and_eq_true]
    rw [seen_ok_iff]
    cases hs : b.node.sendToAddress c with
    | error e => simp [Except.toBool]
    | ok txid =>
      simp only [Except.toBool, and_true, Except.ok.injEq, exists_eq_left']
      cases hd : b.send <;> cases hg : b.getTransaction <;> cases hp : b.node.produces txid <;>
        simp [Delivery.reached]

/-! ## What a failure means -/

/-- A call to the BTC module has a handler there; another call asks for nothing. -/
theorem handler_cases (Γ : BtcCtx) (b : Behaviour) (call : PayCall) :
    (∃ out, handler { Γ with node := b.seen } call = some out) ∨
      (handler { Γ with node := b.seen } call = none ∧ asked Γ b.node call = none) := by
  cases call with
  | withdrawBtc cw => exact Or.inl ⟨_, rfl⟩
  | withdrawUnderLimit cw => exact Or.inl ⟨_, rfl⟩
  | sendTx user addr amount => exact Or.inr ⟨rfl, rfl⟩
  | sendTxErc20 user addr contract amount => exact Or.inr ⟨rfl, rfl⟩

/-- The hot wallet reports a rejection just when the client returns an error. -/
theorem failureMeansUnpaid_iff :
    FailureMeansUnpaid Γ b call ↔ ∀ e, reply Γ b call = some (.failed e) → accepted Γ b call = false := by
  constructor
  · intro h e hr
    refine h ⟨0⟩ ⟨0⟩ (.failed e) { id := ⟨0⟩, reason := e } hr ?_
    cases call <;> rfl
  · intro h id now r info hr ha
    cases r with
    | failed e => exact h e hr
    | eth => cases call <;> cases ha
    | btc resp =>
      -- a response is reported as a completion, or not at all
      unfold World.answered at ha
      split at ha
      · split at ha <;> cases ha
      · split at ha <;> cases ha
      · cases ha
      · cases ha
      · rename_i hfailed
        cases hfailed
      · cases ha

/-- A payment that fails after the node accepted it was accepted. -/
theorem FailsAfterPaying.accepts (h : FailsAfterPaying Γ b call) : ∃ c ∈ asked Γ b.node call, b.accepts c = true := by
  obtain ⟨c, txid, hc, hr, hs, -⟩ := h
  exact ⟨c, hc, by rw [Behaviour.accepts, hr, hs]; rfl⟩

/-- Of a handler's error. -/
theorem errorMeansUnpaid_iff : ErrorMeansUnpaid Γ b call ↔ ¬FailsAfterPaying Γ b call := by
  rcases handler_cases Γ b call with ⟨out, hout⟩ | ⟨hnone, hasked⟩
  · rw [← handler_fails_iff hout]
    constructor
    · rintro h ⟨⟨e, he⟩, ha⟩
      rw [h out e hout he] at ha
      cases ha
    · intro h out' e hout' he
      obtain rfl := Option.some.inj (hout.symm.trans hout')
      exact Bool.eq_false_iff.mpr (fun ha => h ⟨⟨e, he⟩, ha⟩)
  · refine ⟨fun _ hf => ?_, fun _ out e hout => ?_⟩
    · obtain ⟨c, hc, -⟩ := hf.accepts
      rw [hasked] at hc
      cases hc
    · rw [hnone] at hout
      cases hout

/-- Of what the client returns. -/
theorem failedMeansUnpaid_iff : (∀ e, reply Γ b call = some (.failed e) → accepted Γ b call = false) ↔
    ¬(b.http.reached = true ∧ FailsAfterPaying Γ b call) ∧ ¬ResponseLost Γ b call := by
  rcases handler_cases Γ b call with ⟨out, hout⟩ | ⟨hnone, hasked⟩
  · have hany : out.1.any b.accepts = true ↔ ∃ c ∈ asked Γ b.node call, b.accepts c = true := by
      rw [(handler_eq hout).1, asked_seen, Option.any_eq_true]
      rfl
    unfold reply accepted ResponseLost
    rw [hout, Option.map_some, Option.bind_some, ← hany]
    cases hhttp : b.http with
    | delivered =>
      rw [← handler_fails_iff hout]
      cases hres : out.2 with
      | ok resp => simp [Delivery.through, statusError, Delivery.reached]
      | error e => simp [Delivery.through, statusError, Delivery.reached]
    | requestLost e => simp [Delivery.reached]
    | responseLost e =>
      have hsub : FailsAfterPaying Γ b call → out.1.any b.accepts = true := fun h => hany.mpr h.accepts
      simp only [Delivery.through, Delivery.reached, Bool.true_and, true_and]
      constructor
      · intro h
        have hfalse := h e rfl
        rw [hfalse] at hsub ⊢
        exact ⟨fun hf => Bool.false_ne_true (hsub hf), fun h => Bool.false_ne_true h.2⟩
      · rintro ⟨-, h⟩ e' -
        exact Bool.eq_false_iff.mpr (fun ha => h ⟨⟨e, rfl⟩, ha⟩)
  · refine ⟨fun _ => ⟨fun hf => ?_, fun hl => ?_⟩, fun _ e he => ?_⟩
    · obtain ⟨c, hc, -⟩ := hf.2.accepts
      rw [hasked] at hc
      cases hc
    · obtain ⟨-, c, hc, -⟩ := hl
      rw [hasked] at hc
      cases hc
    · rw [reply, hnone] at he
      cases he

/-- A failed payment report means that nothing was paid, just when the call does not fail after the payment, neither in the BTC
module nor on the way back; and an error of the BTC module means it just when the call does not fail there. -/
theorem failure_means_unpaid_iff (Γ : BtcCtx) (b : Behaviour) (call : PayCall) :
    (FailureMeansUnpaid Γ b call ↔ ¬(b.http.reached = true ∧ FailsAfterPaying Γ b call) ∧ ¬ResponseLost Γ b call) ∧
      (ErrorMeansUnpaid Γ b call ↔ ¬FailsAfterPaying Γ b call) :=
  ⟨failureMeansUnpaid_iff.trans failedMeansUnpaid_iff, errorMeansUnpaid_iff⟩

/-- A node that pays, and cannot produce the transaction. -/
def forgetful : Behaviour where
  node :=
    { parseAddress := fun a => some ⟨a⟩
      sendToAddress := fun _ => .ok ⟨"paid"⟩
      getTransaction := fun _ => .error "Invalid or non-wallet transaction id"
      deserialize := fun _ => .ok []
      fromScript := fun _ _ => none }
  send := .delivered
  getTransaction := .delivered
  http := .delivered

/-- A BTC module at that node. -/
def toyModule : BtcCtx where
  verify _ _ _ := true
  confirmationJson _ := ""
  cfg := { minConfirmations := 2, opPublicKeys := [], hotDomain := "", network := .regtest }
  node := forgetful.node

/-- A withdrawal of alice's. -/
def toyWithdrawal : ConfirmedWithdrawal where
  id := ⟨7⟩
  user := "alice"
  address := .btc { addr := "out" }
  createdAt := "time"
  amount := 1000
  confirmations := []
  rejections := []

/-- The node pays alice's withdrawal, and does not find the transaction afterwards: the hot wallet takes it for not paid. -/
theorem paid_reported_failed : ¬∀ (Γ : BtcCtx) (b : Behaviour) (call : PayCall), FailureMeansUnpaid Γ b call := by
  intro h
  have hunpaid := h toyModule forgetful (.withdrawUnderLimit toyWithdrawal) toyWithdrawal.id ⟨0⟩ (.failed "500")
    { id := toyWithdrawal.id, reason := "500" } (by decide +kernel) rfl
  revert hunpaid
  decide +kernel

end BtcClient

/-! ## Runs -/

/-- The update reports that the node rejected a request. -/
def StateUpdate.rejects (id : WithdrawalRequestId) (u : StateUpdate) : Bool :=
  match u.body with
  | .withdrawalRequestNodeRejected info => info.id == id
  | _ => false

/-- What a worker that is busy will count for: its call, or the rejection that it sends. -/
def Worker.load (id : WithdrawalRequestId) : Worker → Nat
  | .idle => 0
  | .calling id' _ => if id' = id then 1 else 0
  | .sending u => if u.rejects id then 1 else 0

namespace Paying

variable {ι : Type} {C : Client ι} {k : Clock} {Γ : BtcCtx} {p p' : Paying}

/-- What the payments of a request are used up for: those that the node accepted, those that were reported as rejected, and
the one that the worker is busy with. -/
def used (p : Paying) (id : WithdrawalRequestId) : Nat :=
  p.accepted.count id + p.world.sentUpdates.countP (·.rejects id) + p.world.worker.load id

/-- Each payment is used once. -/
def UsedOnce (p : Paying) : Prop := ∀ id, p.used id ≤ (p.world.paymentsFor id).length

/-- The step fails no call of the BTC module after its payment, and confirms no request under the limit. -/
def FailsCleanly (Γ : BtcCtx) (p : Paying) : PayingAction ι → Prop
  | .wallet a => p.world.NoSecondOrder a
  | .call b _ => ∀ id call, p.world.worker = .calling id call →
      ¬(b.http.reached = true ∧ BtcClient.FailsAfterPaying Γ b call) ∧ ¬BtcClient.ResponseLost Γ b call

/-- A handler reports no rejection. -/
theorem rejects_of_fromHandler {u : StateUpdate} (h : u.body.FromHandler) (id : WithdrawalRequestId) :
    u.rejects id = false := by
  unfold StateUpdate.rejects
  cases hb : u.body <;> first | rfl | (rw [hb] at h; exact h.elim)

/-- What the worker does when a call returns counts for no more than the call; and for nothing, unless the call failed. -/
theorem load_answered {id : WithdrawalRequestId} {call : PayCall} {reply : Reply} {now : NaiveDateTime} {wk : Worker}
    (h : World.answered id call reply now = some wk) (id' : WithdrawalRequestId) :
    wk.load id' ≤ (Worker.calling id call).load id' ∧ ((∀ e, reply ≠ .failed e) → wk.load id' = 0) := by
  cases reply with
  | failed e =>
    have hwk : wk = .sending { created := now, body := .withdrawalRequestNodeRejected { id := id, reason := e } } := by
      cases call <;> exact (Option.some.inj h).symm
    refine ⟨?_, fun hno => absurd rfl (hno e)⟩
    rw [hwk]
    simp only [Worker.load, StateUpdate.rejects, beq_iff_eq]
    exact le_rfl
  | eth =>
    have hwk : wk = .idle := by
      cases call <;> first | exact (Option.some.inj h).symm | cases h
    rw [hwk]
    exact ⟨Nat.zero_le _, fun _ => rfl⟩
  | btc resp =>
    have hwk : ∃ info, wk = .sending { created := now, body := .withdrawalRequestComplete info } := by
      rcases World.answered_cases h with rfl | ⟨resp', t, -, rfl⟩ | ⟨reason, rfl⟩
      · cases call <;> simp only [World.answered] at h <;> first | (split at h <;> cases h) | cases h
      · exact ⟨_, rfl⟩
      · cases call <;> simp only [World.answered] at h <;> first | (split at h <;> cases h) | cases h
    obtain ⟨info, rfl⟩ := hwk
    exact ⟨Nat.zero_le _, fun _ => rfl⟩

/-- (step) A step of the hot wallet uses a payment at most once. -/
theorem UsedOnce.wallet {a : Action ι} {w' : World} (h : p.UsedOnce) (hs : World.Step C k p.world a w') :
    UsedOnce { p with world := w' } := by
  obtain ⟨w, acc⟩ := p
  intro id
  have hid := h id
  simp only [used] at hid ⊢
  cases hs with
  | requested i created b hb hnew =>
    have hno := rejects_of_fromHandler (u := { created := created, body := b }) (C.fromHandler _ _ _ hb) id
    simp only [World.sentUpdates, List.countP_append, List.countP_singleton, hno] at hid ⊢
    exact hid
  | delivered n u hu =>
    have hperm : (u :: w.pending.eraseIdx n).Perm w.pending := by
      obtain ⟨hn, rfl⟩ := List.getElem?_eq_some_iff.mp hu
      exact List.getElem_cons_eraseIdx_perm hn
    have hcount := hperm.countP_eq (·.rejects id)
    simp only [World.sentUpdates, List.countP_append, List.countP_cons, List.countP_nil] at hid hcount ⊢
    change _ ≤ (w.paymentsFor id).length
    omega
  | applied o u us j hu hj =>
    obtain ⟨res, -, hrows⟩ := Journal.store_eq_some hj
    have hu : w.updates = u :: us := hu
    simp only [World.sentUpdates, hu, hrows, List.map_append, List.map_cons, List.map_nil, List.countP_append,
      List.countP_cons, List.countP_nil] at hid ⊢
    change _ ≤ (w.paymentsFor id).length
    omega
  | dropped o stored u us hu =>
    have hu : w.updates = u :: us := hu
    simp only [World.sentUpdates, hu, List.countP_append, List.countP_cons] at hid ⊢
    change _ ≤ (w.paymentsFor id).length
    omega
  | took o r rs id' call hw hr ht =>
    rw [hw] at hid
    simp only [World.paymentsFor, List.filter_append, List.length_append, Worker.load] at hid ⊢
    by_cases hx : id' = id
    · simp only [hx, if_true, List.filter_cons, decide_true, List.filter_nil, List.length_cons, List.length_nil]
      exact Nat.add_le_add_right hid 1
    · simp only [hx, if_false]
      exact hid.trans (Nat.le_add_right _ _)
  | skipped o r rs hw hr ht => exact hid
  | returned id' call reply now wk hw ha =>
    rw [hw] at hid
    exact (Nat.add_le_add_left (load_answered ha _).1 _).trans hid
  | sent u hw =>
    rw [hw] at hid
    simp only [World.sentUpdates, List.countP_append, List.countP_cons, List.countP_nil, Worker.load] at hid ⊢
    change _ ≤ (w.paymentsFor id).length
    omega
  | paidEth user addr amount hu =>
    simp only [World.paymentsFor, List.filter_append, List.length_append] at hid ⊢
    exact hid.trans (Nat.le_add_right _ _)

/-- (step) A call of the BTC module that does not fail after its payment uses its payment once. -/
theorem UsedOnce.call {b : Behaviour} {now : NaiveDateTime} (h : p.UsedOnce)
    (hclean : FailsCleanly Γ p (.call b now : PayingAction ι)) (hs : p.call Γ b now = some p') : p'.UsedOnce := by
  unfold Paying.call at hs
  cases hw : p.world.worker with
  | idle => simp [hw] at hs
  | sending u => simp [hw] at hs
  | calling id call =>
    simp only [hw] at hs
    obtain ⟨reply, hreply, hs⟩ := Option.bind_eq_some_iff.mp hs
    obtain ⟨w, hanswer, rfl⟩ := Option.map_eq_some_iff.mp hs
    unfold World.answer at hanswer
    simp only [hw] at hanswer
    obtain ⟨wk, hwk, rfl⟩ := Option.map_eq_some_iff.mp hanswer
    have hunpaid := BtcClient.failedMeansUnpaid_iff.mpr (hclean id call hw)
    intro id'
    have hid := h id'
    simp only [used, hw] at hid ⊢
    change _ ≤ (p.world.paymentsFor id').length
    obtain ⟨hle, hzero⟩ := load_answered hwk id'
    by_cases hacc : BtcClient.accepted Γ b call = true
    · -- the node accepted, so the call did not fail, and nothing is rejected
      have hnofail : ∀ e, reply ≠ .failed e := by
        rintro e rfl
        rw [hunpaid e hreply] at hacc
        cases hacc
      rw [if_pos hacc, hzero hnofail, List.count_cons]
      simp only [Worker.load, beq_iff_eq] at hid ⊢
      change _ + p.world.sentUpdates.countP _ + 0 ≤ _
      omega
    · rw [if_neg hacc]
      change _ + p.world.sentUpdates.countP _ + _ ≤ _
      omega

/-- A step is one of the hot wallet, which is not the return of a call of the BTC module, or such a return. -/
theorem step_cases {a : PayingAction ι} (hs : (machine Γ C k).step p a = some p') :
    (∃ a' w', a = .wallet a' ∧ (World.machine C k).step p.world a' = some w' ∧ p' = { p with world := w' }) ∨
      ∃ b now, a = .call b now ∧ p.call Γ b now = some p' := by
  cases a with
  | call b now => exact Or.inr ⟨b, now, rfl, hs⟩
  | wallet a =>
    refine Or.inl ?_
    have key : ((World.machine C k).step p.world a).map (fun w => ({ p with world := w } : Paying)) = some p' := by
      cases a with
      | answer reply now =>
        change (if p.callsBtc then none else _) = some p' at hs
        by_cases hb : p.callsBtc = true
        · rw [if_pos hb] at hs
          cases hs
        · rw [if_neg hb] at hs
          exact hs
      | _ => exact hs
    obtain ⟨w', hw', rfl⟩ := Option.map_eq_some_iff.mp key
    exact ⟨a, w', rfl, hw', rfl⟩

/-- The hot wallet, of which the node's part is left out, goes through a run of its own. -/
theorem world_reachable (h : (machine Γ C k).Reachable (FailsCleanly Γ) p) :
    (World.machine C k).Reachable World.NoSecondOrder p.world := by
  refine h.simulate (f := Paying.world) (fun _ hi => hi.1) ?_
  intro p a p' _ hclean hs
  rcases step_cases hs with ⟨a', w', rfl, hw', rfl⟩ | ⟨b, now, rfl, hcall⟩
  · exact Or.inr ⟨a', hclean, hw'⟩
  · unfold Paying.call at hcall
    cases hw : p.world.worker with
    | idle => simp [hw] at hcall
    | sending u => simp [hw] at hcall
    | calling id call =>
      simp only [hw] at hcall
      obtain ⟨reply, hreply, hcall⟩ := Option.bind_eq_some_iff.mp hcall
      obtain ⟨w, hanswer, rfl⟩ := Option.map_eq_some_iff.mp hcall
      exact Or.inr ⟨.answer reply now, fun x hx => (by cases hx), hanswer⟩

/-- What is rejected was not paid: in every run of the hot wallet, over any handlers, at any BTC module and node, in which no
call fails after its payment and no vote confirms a request under the limit, the node accepted no payment for a request that was
reported as rejected by it. -/
theorem rejected_unpaid (h : (machine Γ C k).Reachable (FailsCleanly Γ) p) {id : WithdrawalRequestId} {u : StateUpdate}
    (hu : u ∈ p.world.sentUpdates ∨ p.world.worker = .sending u) (hr : u.rejects id = true) : id ∉ p.accepted := by
  have hused : p.UsedOnce := by
    refine h.invariant (I := UsedOnce) ?_ ?_
    · rintro p ⟨⟨now, genesisHash, hw⟩, ha⟩ id
      rw [used, hw, ha]
      exact Nat.zero_le _
    · intro p a p' hp hinv hclean hs
      rcases step_cases hs with ⟨a', w', rfl, hw', rfl⟩ | ⟨b, now, rfl, hcall⟩
      · exact hinv.wallet (World.step_eq_some hw')
      · exact hinv.call hclean hcall
  have hone := (World.oneTicket_of_reachable (world_reachable h)).once id
  have hle := hused id
  unfold World.tickets at hone
  unfold used at hle
  -- the rejection uses the one payment there is
  have hpos : 1 ≤ p.world.sentUpdates.countP (·.rejects id) + p.world.worker.load id := by
    rcases hu with hu | hu
    · have hcount : 0 < p.world.sentUpdates.countP (·.rejects id) := List.countP_pos_iff.mpr ⟨u, hu, hr⟩
      omega
    · rw [hu, Worker.load, if_pos hr]
      omega
  rw [← List.count_eq_zero]
  omega

end Paying

namespace Sample

/-- A node that refuses to pay. -/
def refusing : Behaviour :=
  { BtcClient.forgetful with node := { BtcClient.forgetful.node with sendToAddress := fun _ => .error "Insufficient funds" } }

/-- Alice withdraws an amount under her limit, and `update_results_worker` calls the BTC module. -/
def withdrawing : List (PayingAction HandlerCall) :=
  (opening 1000000 ++ limited 100000 ++ done 8 (withdraw 7 1000) ++ [Action.take oracle]).map .wallet

/-- The step is one of the hot wallet, and confirms no request under the limit. -/
def ordersOnce (p : Paying) : PayingAction HandlerCall → Prop
  | .wallet a => p.world.NoSecondOrder a
  | .call _ _ => False

instance (p : Paying) (a : PayingAction HandlerCall) : Decidable (ordersOnce p a) :=
  match a with
  | .wallet a => inferInstanceAs (Decidable (p.world.NoSecondOrder a))
  | .call _ _ => isFalse id

end Sample

namespace Paying

open Sample in
/-- The node refuses to pay alice's withdrawal: that is reported, and nothing was paid. -/
theorem rejected_unpaid_refused : ∃ (p : Paying) (u : StateUpdate),
    u ∈ p.world.sentUpdates ∧ u.rejects (uuid 7) = true ∧ uuid 7 ∉ p.accepted := by
  obtain ⟨p, hp, hq⟩ := Machine.exists_reachable (M := machine BtcClient.toyModule (hotWallet ctx) clock) (P := ordersOnce) withdrawing
    (q := fun p => (p.call BtcClient.toyModule refusing ⟨11⟩).any fun p' =>
      p'.world.send.any fun w => w.sentUpdates.any (·.rejects (uuid 7)))
    (s := { world := Sample.world, accepted := [] }) ⟨world_init, rfl⟩ (by decide +kernel)
  obtain ⟨p', hcall, hsends⟩ := (Option.any_eq_true _ _).mp hq
  obtain ⟨w, hsend, hrejects⟩ := (Option.any_eq_true _ _).mp hsends
  obtain ⟨u, hu, hr⟩ := List.any_eq_true.mp hrejects
  have hclean : (machine BtcClient.toyModule (hotWallet ctx) clock).Reachable (FailsCleanly BtcClient.toyModule) p' := by
    refine .step (hp.mono fun p a ha => ?_) (a := .call refusing ⟨11⟩) ?_ hcall
    · cases a with
      | wallet a => exact ha
      | call b now => exact ha.elim
    · rintro id call -
      refine ⟨?_, ?_⟩
      · rintro ⟨-, c, txid, -, -, hpays, -⟩
        cases hpays
      · rintro ⟨⟨e, hlost⟩, -⟩
        cases hlost
  have hsent : (machine BtcClient.toyModule (hotWallet ctx) clock).Reachable (FailsCleanly BtcClient.toyModule) { p' with world := w } := by
    refine .step hclean (a := .wallet .send) (fun x hx => by cases hx) ?_
    change (p'.world.send.map fun w => { p' with world := w }) = _
    rw [hsend]
    rfl
  exact ⟨{ p' with world := w }, u, hu, hr, rejected_unpaid hsent (.inl hu) hr⟩

end Paying

end Hexstody
