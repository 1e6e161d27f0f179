import Hexstody.Handlers
import Hexstody.Lemmas.World

/-!
# Statuses move forward

Four updates write the status of a request, and the two that settle it, its completion and its rejection by the node, do not look
at the old one. Each payment settles its request once, so what counts is how many payments are under way for a request
(`settlements`): the results that order one, the call that is made, the update that reports it. There is at most one, and while
there is, the request waits for it (`OneSettlement`), unless operators decide on a request under the limit in the meantime. In
every run without such a vote statuses move forward (`statuses_move_forward`), whatever the handlers and however the tasks
interleave.
-/

namespace Hexstody

open WithdrawalRequest (applyDecision_eq_ok applyDecision_sameOrder applyDecision_status)

/-- The request that an update settles. -/
def StateUpdate.settled? (u : StateUpdate) : Option WithdrawalRequestId :=
  match u.body with
  | .withdrawalRequestComplete info => some info.id
  | .withdrawalRequestNodeRejected info => some info.id
  | _ => none

/-- The update is a vote that decides a request under the limit, either way. -/
def Journal.DecidesUnderLimit (j : Journal) (u : StateUpdate) : Prop :=
  match u.body with
  | .withdrawalRequestDecision d => ∃ r ∈ j.state.request? d.userId d.currency d.requestId,
      r.requestType = .underLimit ∧
        (r.ReachesConfirm d ∧ r.isConfirmedByKey d.publicKey = false ∨
          r.ReachesReject d ∧ r.isRejectedByKey d.publicKey = false)
  | _ => False

instance (j : Journal) (u : StateUpdate) : Decidable (j.DecidesUnderLimit u) :=
  decidable_of_iff (∃ d ∈ u.decision?, ∃ r ∈ j.state.request? d.userId d.currency d.requestId,
    r.requestType = .underLimit ∧
      (r.ReachesConfirm d ∧ r.isConfirmedByKey d.publicKey = false ∨
        r.ReachesReject d ∧ r.isRejectedByKey d.publicKey = false)) u.exists_decision_iff

/-- A vote that is accepted and decides a request decides one over the limit, if none decides one under it. -/
theorem Journal.overLimit_of_decided {j : Journal} {u : StateUpdate} {d : WithdrawalRequestDecisionInfo}
    {r r' : WithdrawalRequest} {confirmed : Option WithdrawalRequestId} (hno : ¬j.DecidesUnderLimit u)
    (hb : u.body = .withdrawalRequestDecision d) (hr : j.state.request? d.userId d.currency d.requestId = some r)
    (hd : r.applyDecision d = .ok (r', confirmed)) (hst : ∀ n, r'.status ≠ .inProgress n) :
    r.requestType = .overLimit := by
  cases hty : r.requestType with
  | overLimit => rfl
  | underLimit =>
    refine absurd ?_ hno
    unfold DecidesUnderLimit
    simp only [hb]
    refine ⟨r, hr, hty, ?_⟩
    obtain ⟨n, -, hvote⟩ := applyDecision_eq_ok hd
    rcases applyDecision_status hd with ⟨hq, -, -⟩ | ⟨hq, -, -⟩ | ⟨-, -, ⟨m, hm⟩, -⟩
    · rcases hvote with ⟨-, hk, -⟩ | ⟨ht, -⟩
      · exact Or.inl ⟨hq, hk⟩
      · rw [hq.1] at ht
        cases ht
    · rcases hvote with ⟨ht, -⟩ | ⟨-, hk, -⟩
      · rw [hq.1] at ht
        cases ht
      · exact Or.inr ⟨hq, hk⟩
    · exact absurd hm (hst m)

/-- How the status of a request may change when an update is applied. -/
structure WithdrawalRequest.Forward (up : Option StateUpdate) (r r' : WithdrawalRequest) : Prop where
  /-- A request that operators or the node rejected stays as it is. -/
  rejected : r.isRejected = true → r'.status = r.status
  /-- A completed one changes only when its own transaction is cancelled. -/
  completed : ∀ ca txid fee ins outs, r.status = .completed ca txid fee ins outs → r'.status ≠ r.status →
    ∃ u tx, up = some u ∧ u.body = .cancelBtcTx tx ∧ txid = .btc { txid := tx.txid.hex }
  /-- One over the limit is completed only when it is confirmed. -/
  confirmed : ∀ ca txid fee ins outs, r.requestType = .overLimit → r'.status = .completed ca txid fee ins outs →
    r.status = r'.status ∨ r.status = .confirmed

/-- A status that does not change moves forward. -/
theorem WithdrawalRequest.Forward.same (up : Option StateUpdate) (r : WithdrawalRequest) : r.Forward up r :=
  ⟨fun _ => rfl, fun _ _ _ _ _ _ h => absurd rfl h, fun _ _ _ _ _ _ _ => Or.inl rfl⟩

/-- The request that the worker is paying, or whose payment it reports. -/
def Worker.request? : Worker → Option WithdrawalRequestId
  | .idle => none
  | .calling id _ => some id
  | .sending u => u.settled?

namespace World

variable {ι : Type} {C : Client ι} {k : Clock} {w w' : World} {a : Action ι}

/-- The step is no vote that decides a request under the limit. -/
def OperatorsLeaveUnderLimit (w : World) (a : Action ι) : Prop :=
  ∀ x ∈ w.applied? a, ¬w.journal.DecidesUnderLimit x.2

instance (w : World) (a : Action ι) : Decidable (w.OperatorsLeaveUnderLimit a) :=
  inferInstanceAs (Decidable (∀ x ∈ w.applied? a, ¬w.journal.DecidesUnderLimit x.2))

/-- Statuses move forward: whatever the next step is, every request that it leaves there moves forward, and one that operators
rejected stays rejected in every run from here. -/
def MovesForward (C : Client ι) (k : Clock) (P : World → Action ι → Prop) (w : World) : Prop :=
  (∀ a w', (machine C k).step w a = some w' → ∀ u c i r r', w.journal.state.request? u c i = some r →
    w'.journal.state.request? u c i = some r' → r.Forward ((w.applied? a).map Prod.snd) r') ∧
  ∀ w', ((machine C k).startedAt w).Reachable P w' → ∀ u c i r r', w.journal.state.request? u c i = some r →
    r.status = .opRejected → w'.journal.state.request? u c i = some r' → r'.status = .opRejected

/-- The payments under way for a request, from the result that orders one to the update that reports it. -/
def settlements (w : World) (id : WithdrawalRequestId) : Nat :=
  (w.ordersFor id).length + (if w.worker.request? = some id then 1 else 0) + (w.updates.filter (·.settled? = some id)).length

/-- The request waits for a payment: over the limit it is confirmed, under the limit in progress. -/
def Waits (r : WithdrawalRequest) : Prop :=
  r.requestType = .overLimit ∧ r.status = .confirmed ∨ r.requestType = .underLimit ∧ ∃ n, r.status = .inProgress n

/-- At most one payment is under way for a request, none before it is created, and the request waits for it. -/
structure OneSettlement (w : World) : Prop where
  once : ∀ id, w.settlements id ≤ 1
  created : ∀ id, id ∉ w.journal.requests.map (·.id) → w.settlements id = 0
  waits : ∀ u c id r, w.journal.state.request? u c id = some r → 0 < w.settlements id → Waits r
  asked : ∀ id call, w.worker = .calling id call → ∀ i ∈ askedId call, i = id

/-- Settlements that do not grow, over the same journal. -/
theorem OneSettlement.of_le (h : w.OneSettlement) (hj : w'.journal = w.journal)
    (ht : ∀ id, w'.settlements id ≤ w.settlements id)
    (hasked : ∀ id call, w'.worker = .calling id call → ∀ i ∈ askedId call, i = id) : w'.OneSettlement where
  once id := (ht id).trans (h.once id)
  created id hid := Nat.le_zero.mp (h.created id (hj ▸ hid) ▸ ht id)
  waits u c id r hr hpos := h.waits u c id r (hj ▸ hr) (hpos.trans_le (ht id))
  asked := hasked

/-- A handler settles nothing. -/
theorem settled?_of_fromHandler {u : StateUpdate} (h : u.body.FromHandler) : u.settled? = none := by
  unfold StateUpdate.settled?
  cases hb : u.body with
  | withdrawalRequestComplete info => rw [hb] at h; cases h
  | withdrawalRequestNodeRejected info => rw [hb] at h; cases h
  | _ => rfl

/-- What the worker asks the BTC module for is the request that it pays. -/
theorem taken_asked {s : State} {o : Oracle} {r : UpdateResult} {id : WithdrawalRequestId} {call : PayCall}
    (h : taken k s o r = some (id, call)) : ∀ i ∈ askedId call, i = id := by
  intro i hi
  cases r with
  | withdrawConfirmed id' =>
    obtain ⟨req, -, heq⟩ := Option.map_eq_some_iff.mp h
    obtain ⟨rfl, rfl⟩ := Prod.mk.inj heq
    cases ha : req.address with
    | btc a =>
      simp only [payCall, ha, askedId, confirmedWithdrawal, Option.mem_def, Option.some.injEq] at hi
      exact hi.symm
    | eth a => simp [payCall, ha, askedId] at hi
    | erc20 a => simp [payCall, ha, askedId] at hi
  | withdrawalUnderlimit wr =>
    obtain ⟨rfl, rfl⟩ := Prod.mk.inj (Option.some.inj h)
    exact (Option.some.inj hi).symm

/-- What the worker reports is about the request that it paid. -/
theorem answered_settled {id : WithdrawalRequestId} {call : PayCall} {reply : Reply} {now : NaiveDateTime} {wk : Worker}
    (h : answered id call reply now = some wk) (hasked : ∀ i ∈ askedId call, i = id) :
    (wk.request? = none ∨ wk.request? = some id) ∧ ∀ id' call', wk ≠ .calling id' call' := by
  rcases answered_cases h with rfl | ⟨resp, t, hi, rfl⟩ | ⟨reason, rfl⟩
  · exact ⟨Or.inl rfl, fun _ _ hc => by cases hc⟩
  · exact ⟨Or.inr (congrArg some (hasked resp.id hi)), fun _ _ hc => by cases hc⟩
  · exact ⟨Or.inr rfl, fun _ _ hc => by cases hc⟩

/-- A request for which a payment is under way is not yet settled. -/
theorem Waits.not_settled {r : WithdrawalRequest} (h : Waits r) :
    r.isRejected = false ∧ ∀ ca txid fee ins outs, r.status ≠ .completed ca txid fee ins outs := by
  rcases h with ⟨-, hst⟩ | ⟨-, n, hst⟩ <;> simp [WithdrawalRequest.isRejected, hst]

/-- An update that settles a request is itself a payment under way for it. -/
theorem settlements_pos {u : StateUpdate} {us : List StateUpdate} {id : WithdrawalRequestId} (hu : w.updates = u :: us)
    (hset : u.settled? = some id) : 0 < w.settlements id := by
  simp only [settlements, hu, List.filter_cons, hset, decide_true, if_true, List.length_cons]
  omega

/-- What an applied update leaves under way for a request: less what it settles, and with what it orders. -/
theorem settlements_applied {u : StateUpdate} {us : List StateUpdate} {j : Journal} (hu : w.updates = u :: us)
    (hw' : w' = { w with updates := us, journal := j, results := w.results ++ j.answer.toList })
    (id : WithdrawalRequestId) : w'.settlements id + (if u.settled? = some id then 1 else 0) =
      w.settlements id + (j.answer.toList.filter (·.id = id)).length := by
  subst hw'
  simp only [settlements, ordersFor, hu, List.filter_append, List.length_append, List.filter_cons]
  by_cases hset : u.settled? = some id
  · simp only [hset, decide_true, if_true, List.length_cons]
    omega
  · simp only [hset, decide_false, Bool.false_eq_true, if_false]
    omega

/-- (step) While a payment is under way, an update that does not settle the request, nor decides one under the limit, leaves it
waiting. -/
theorem OneSettlement.waits_applied {o : Oracle} {u : StateUpdate} {s' : State}
    {res : Option UpdateResult} (h : w.OneSettlement) (hf : w.journal.Filed) (hfresh : w.journal.Fresh (o, u))
    (hno : ¬w.journal.DecidesUnderLimit u) (ha : w.journal.state.applyUpdate o u = (s', .ok res)) {usr : UserId} {c : Currency}
    {id : WithdrawalRequestId} {r' : WithdrawalRequest} (hpos : 0 < w.settlements id) (hset : u.settled? ≠ some id)
    (hr' : s'.request? usr c id = some r') : Waits r' := by
  have hch := applyUpdate_request ha hfresh.1 usr c id
  rw [hr'] at hch
  generalize hb : w.journal.state.request? usr c id = before at hch
  cases hch with
  | same => exact h.waits usr c id r' hb hpos
  | created x info hbody hi _ _ =>
    have hnew := hfresh.2.1 (.ofInfo u.created info) (by simp [StateUpdate.request?, hbody])
    have hzero := h.created id (hi ▸ hnew)
    omega
  | voted r _ d confirmed hbody hu' hc' hi' hd =>
    subst hu' hc' hi'
    obtain ⟨n, hst, -⟩ := applyDecision_eq_ok hd
    rcases h.waits _ _ _ r hb hpos with ⟨-, hconf⟩ | ⟨hty, -⟩
    · rw [hst] at hconf
      cases hconf
    · refine Or.inr ⟨(applyDecision_sameOrder hd).requestType.trans hty, ?_⟩
      by_contra hdec
      have hover := Journal.overLimit_of_decided hno hbody hb hd (fun n hn => hdec ⟨n, hn⟩)
      rw [hty] at hover
      cases hover
  | completed r info hbody hi => exact absurd (by rw [StateUpdate.settled?, hbody]; exact congrArg some hi) hset
  | nodeRejected r info hbody hi => exact absurd (by rw [StateUpdate.settled?, hbody]; exact congrArg some hi) hset
  | canceled r tx hbody hown =>
    obtain ⟨u₀, c₀, i₀, r₀, ca, fee, ins, outs, hr₀, hst₀, hid₀⟩ := hown
    have hi₀ : i₀ = id := (hf.id hr₀).symm.trans hid₀
    obtain ⟨-, -, rfl⟩ := hf.unique hb (hi₀ ▸ hr₀)
    exact absurd hst₀ ((h.waits usr c id r hb hpos).not_settled.2 _ _ _ _ _)

/-- What an accepted update orders: a payment of a request that has none under way, and that waits for it from then on. -/
theorem OneSettlement.ordered {o : Oracle} {u : StateUpdate} {s' : State} {x : UpdateResult} (h : w.OneSettlement)
    (hf : w.journal.Filed) (hfresh : w.journal.Fresh (o, u)) (hno : ¬w.journal.DecidesUnderLimit u)
    (ha : w.journal.state.applyUpdate o u = (s', .ok (some x))) :
    w.settlements x.id = 0 ∧ ∃ usr c r', s'.request? usr c x.id = some r' ∧ Waits r' := by
  rcases applyUpdate_result ha with ⟨info, hbody, hty, rfl⟩ | ⟨d, r, r', id, hbody, hr, hd, hr', rfl⟩
  · have hnew := hfresh.2.1 (.ofInfo u.created info) (by simp [StateUpdate.request?, hbody])
    exact ⟨h.created _ hnew, _, _, _, (applyUpdate_create ha hbody).2.1, Or.inr ⟨hty, 0, rfl⟩⟩
  · rcases applyDecision_status hd with ⟨-, hst, hid⟩ | ⟨-, -, hid⟩ | ⟨-, -, -, hid⟩
    · obtain rfl : id = d.requestId := (Option.some.inj hid).trans (hf.id hr)
      have hover := Journal.overLimit_of_decided hno hbody hr hd (fun n hn => by rw [hst] at hn; cases hn)
      refine ⟨?_, _, _, r', hr', Or.inl ⟨(applyDecision_sameOrder hd).requestType.trans hover, hst⟩⟩
      -- a request that is still in progress over the limit does not wait
      by_contra hpos
      obtain ⟨n, hst₀, -⟩ := applyDecision_eq_ok hd
      rcases h.waits _ _ _ r hr (Nat.pos_of_ne_zero hpos) with ⟨-, hconf⟩ | ⟨hunder, -⟩
      · rw [hst₀] at hconf
        cases hconf
      · rw [hover] at hunder
        cases hunder
    · cases hid
    · cases hid

/-- (step) An update that is applied. -/
theorem OneSettlement.applied {o : Oracle} {u : StateUpdate} {us : List StateUpdate} {j : Journal} (h : w.OneSettlement)
    (hf : w.journal.Filed) (hfresh : w.journal.Fresh (o, u)) (hno : ¬w.journal.DecidesUnderLimit u)
    (hu : w.updates = u :: us) (hj : w.journal.store o u = some j)
    (hw' : w' = { w with updates := us, journal := j, results := w.results ++ j.answer.toList }) :
    w'.OneSettlement := by
  have ha := Journal.store_answer hj
  have hf' := hf.store hfresh hj
  have hjw : w'.journal = j := by rw [hw']
  have hcount := settlements_applied hu hw'
  have hcreated : ∀ id, id ∉ j.requests.map (·.id) → w.settlements id = 0 :=
    fun id hid => h.created id (fun hm => hid (Journal.mem_store hj hm))
  -- a request that the update orders no payment of
  have hother : ∀ id, (j.answer.toList.filter (·.id = id)).length = 0 → w'.settlements id ≤ w.settlements id ∧
      ∀ usr c r, j.state.request? usr c id = some r → 0 < w'.settlements id → Waits r := by
    intro id hnone
    have hid := hcount id
    refine ⟨by omega, fun usr c r hr hpos => ?_⟩
    have hset : u.settled? ≠ some id := by
      intro hset
      rw [if_pos hset] at hid
      have := h.once id
      omega
    exact h.waits_applied hf hfresh hno ha (by omega) hset hr
  have hasked : ∀ id call, w'.worker = .calling id call → ∀ i ∈ askedId call, i = id := by
    rw [hw']
    exact h.asked
  cases hres : j.answer with
  | none =>
    have hn : ∀ id, (j.answer.toList.filter (·.id = id)).length = 0 := fun id => by rw [hres]; rfl
    refine ⟨fun id => (hother id (hn id)).1.trans (h.once id), fun id hid => ?_, fun usr c id r hr hpos => ?_, hasked⟩
    · have hle := (hother id (hn id)).1
      rw [hcreated id (hjw ▸ hid)] at hle
      omega
    · exact (hother id (hn id)).2 usr c r (hjw ▸ hr) hpos
  | some x =>
    rw [hres] at ha
    obtain ⟨hzero, usr', c', r', hr', hwait⟩ := h.ordered hf hfresh hno ha
    have hlen : ∀ id, (j.answer.toList.filter (·.id = id)).length = if x.id = id then 1 else 0 := by
      intro id
      rw [hres]
      by_cases hx : x.id = id <;> simp [hx]
    refine ⟨fun id => ?_, fun id hid => ?_, fun usr c id r hr hpos => ?_, hasked⟩
    · have hid := hcount id
      have honce := h.once id
      rw [hlen] at hid
      by_cases hx : x.id = id
      · rw [if_pos hx, ← hx, hzero] at hid
        rw [← hx]
        omega
      · rw [if_neg hx] at hid
        omega
    · have hid' := hjw ▸ hid
      have hx : x.id ≠ id := fun hx => hid' (hx ▸ hf'.mem hr')
      have hle := (hother id (by rw [hlen, if_neg hx])).1
      rw [hcreated id hid'] at hle
      omega
    · have hr₁ := hjw ▸ hr
      by_cases hx : x.id = id
      · obtain ⟨-, -, rfl⟩ := hf'.unique hr₁ (hx ▸ hr')
        exact hwait
      · exact (hother id (by rw [hlen, if_neg hx])).2 usr c r hr₁ hpos

/-- (step) -/
theorem OneSettlement.step (h : w.OneSettlement) (hf : w.journal.Filed) (hi : w.Issued) (hno : w.OperatorsLeaveUnderLimit a)
    (hs : Step C k w a w') : w'.OneSettlement := by
  cases hs with
  | requested i created b hb hnew => exact h.of_le rfl (fun _ => le_rfl) h.asked
  | delivered n u hu =>
    have hnone := settled?_of_fromHandler (hi.fromHandler u (List.mem_of_getElem? hu))
    refine h.of_le rfl (fun id => ?_) h.asked
    simp [settlements, ordersFor, List.filter_append, hnone]
  | applied o u us j hu hj =>
    exact h.applied hf (hi.fresh hu) (hno (o, u) (by simp [applied?, hu])) hu hj rfl
  | dropped o stored u us hu =>
    refine h.of_le rfl (fun id => ?_) h.asked
    simp only [settlements, ordersFor, hu]
    exact Nat.add_le_add_left ((List.sublist_cons_self u us).filter _).length_le _
  | took o r rs id call hw hr ht =>
    refine h.of_le rfl (fun id' => ?_) ?_
    · have hid := taken_id ht
      simp only [settlements, ordersFor, hw, hr, Worker.request?, List.filter_cons, hid]
      by_cases hx : id = id'
      · simp only [hx, decide_true, if_true, List.length_cons]
        omega
      · simp [hx]
    · intro id' call' hc
      obtain ⟨rfl, rfl⟩ := Worker.calling.inj hc
      exact taken_asked ht
  | skipped o r rs hw hr ht =>
    refine h.of_le rfl (fun id' => ?_) h.asked
    simp only [settlements, ordersFor, hr]
    have := ((List.sublist_cons_self r rs).filter (fun x => decide (x.id = id'))).length_le
    omega
  | returned id call reply now wk hw ha =>
    obtain ⟨hwk, hcall⟩ := answered_settled ha (h.asked id call hw)
    refine h.of_le rfl (fun id' => ?_) (fun id' call' hc => absurd hc (hcall id' call'))
    simp only [settlements, ordersFor, hw]
    rcases hwk with hwk | hwk
    · rw [hwk, if_neg (fun hc => by cases hc)]
      omega
    · rw [hwk, show (Worker.calling id call).request? = some id from rfl]
  | sent u hw =>
    refine h.of_le rfl (fun id => ?_) (fun id call hc => by cases hc)
    simp only [settlements, ordersFor, hw, Worker.request?, List.filter_append, List.length_append]
    by_cases hx : u.settled? = some id
    · simp [hx]
      omega
    · simp [hx]
  | paidEth user addr amount hu => exact h.of_le rfl (fun _ => le_rfl) h.asked

/-- (run) -/
theorem oneSettlement_of_reachable (h : (machine C k).Reachable OperatorsLeaveUnderLimit w) :
    w.OneSettlement ∧ w.journal.Filed ∧ w.Issued := by
  refine ⟨h.invariant ?_ ?_, filed_of_reachable h, issued_of_reachable h⟩
  · rintro _ ⟨now, genesisHash, rfl⟩
    exact ⟨fun _ => Nat.zero_le 1, fun _ _ => rfl, (fun _ _ _ _ hr => by cases hr), (fun _ _ hc => by cases hc)⟩
  · intro w a w' hw hone hno hs
    exact hone.step (filed_of_reachable hw) (issued_of_reachable hw) hno (step_eq_some hs)

/-- A request that is not waiting for a payment moves forward, and one that is. -/
theorem OneSettlement.forward (h : w.OneSettlement) (hf : w.journal.Filed) (hi : w.Issued)
    (hs : (machine C k).step w a = some w') {usr : UserId} {c : Currency} {id : WithdrawalRequestId}
    {r r' : WithdrawalRequest} (hr : w.journal.state.request? usr c id = some r)
    (hr' : w'.journal.state.request? usr c id = some r') : r.Forward ((w.applied? a).map Prod.snd) r' := by
  cases step_eq_some hs with
  | applied o u us j hu hj =>
    have ha := Journal.store_answer hj
    have hfresh := hi.fresh (o := o) hu
    have happ : (w.applied? (ι := ι) (.apply o true)).map Prod.snd = some u := by simp [applied?, hu]
    rw [happ]
    -- a settlement finds the request waiting
    have hwaits : u.settled? = some id → Waits r := fun hset => h.waits usr c id r hr (settlements_pos hu hset)
    have hch := applyUpdate_request ha hfresh.1 usr c id
    rw [hr, show j.state.request? usr c id = some r' from hr'] at hch
    cases hch with
    | same => exact .same _ _
    | created x info hbody hi' _ _ =>
      have hnew := hfresh.2.1 (.ofInfo u.created info) (by simp [StateUpdate.request?, hbody])
      exact absurd (hf.mem hr) (by rw [← hi']; exact hnew)
    | voted _ _ d confirmed _ _ _ _ hd =>
      obtain ⟨n, hst, -⟩ := applyDecision_eq_ok hd
      refine ⟨fun hrej => ?_, fun ca txid fee ins outs hc => ?_, fun ca txid fee ins outs _ hc => ?_⟩
      · simp [WithdrawalRequest.isRejected, hst] at hrej
      · rw [hst] at hc
        cases hc
      · rcases applyDecision_status hd with ⟨-, hst', -⟩ | ⟨-, hst', -⟩ | ⟨-, -, ⟨m, hst'⟩, -⟩ <;>
        · rw [hst'] at hc
          cases hc
    | completed _ info hbody hi' =>
      have hw := hwaits (by rw [StateUpdate.settled?, hbody]; exact congrArg some hi')
      refine ⟨fun hrej => ?_, fun ca txid fee ins outs hc => absurd hc (hw.not_settled.2 _ _ _ _ _),
        fun ca txid fee ins outs hover _ => ?_⟩
      · rw [hw.not_settled.1] at hrej
        cases hrej
      · rcases hw with ⟨-, hconf⟩ | ⟨hunder, -⟩
        · exact Or.inr hconf
        · rw [hover] at hunder
          cases hunder
    | nodeRejected _ info hbody hi' =>
      have hw := hwaits (by rw [StateUpdate.settled?, hbody]; exact congrArg some hi')
      refine ⟨fun hrej => ?_, fun ca txid fee ins outs hc => absurd hc (hw.not_settled.2 _ _ _ _ _),
        fun ca txid fee ins outs _ hc => by cases hc⟩
      rw [hw.not_settled.1] at hrej
      cases hrej
    | canceled _ tx hbody hown =>
      obtain ⟨u₀, c₀, i₀, r₀, ca₀, fee₀, ins₀, outs₀, hr₀, hst₀, hid₀⟩ := hown
      have hi₀ : i₀ = id := (hf.id hr₀).symm.trans hid₀
      obtain ⟨-, -, rfl⟩ := hf.unique hr (hi₀ ▸ hr₀)
      refine ⟨fun hrej => ?_, fun ca txid fee ins outs hc _ => ?_, fun ca txid fee ins outs _ hc => by cases hc⟩
      · simp [WithdrawalRequest.isRejected, hst₀] at hrej
      · rw [hst₀] at hc
        exact ⟨u, tx, rfl, hbody, (WithdrawalRequestStatus.completed.inj hc).2.1.symm⟩
  | _ =>
    obtain rfl := Option.some.inj (hr.symm.trans hr')
    exact .same _ _

/-- Statuses move forward in every run of the hot wallet, over any handlers, in which no vote decides a request under the
limit. -/
theorem statuses_move_forward (h : (machine C k).Reachable OperatorsLeaveUnderLimit w) :
    MovesForward C k OperatorsLeaveUnderLimit w := by
  refine ⟨fun a w' hs u c i r r' hr hr' => ?_, fun w' hw' u c i r r' hr hst hr' => ?_⟩
  · obtain ⟨hone, hf, hi⟩ := oneSettlement_of_reachable h
    exact hone.forward hf hi hs hr hr'
  · -- a request that is there at the end was there all the time, as its id is not used twice
    have key : i ∈ w'.journal.requests.map (·.id) ∧
        ∀ r', w'.journal.state.request? u c i = some r' → r'.status = .opRejected := by
      refine hw'.invariant (I := fun w' => i ∈ w'.journal.requests.map (·.id) ∧
        ∀ r', w'.journal.state.request? u c i = some r' → r'.status = .opRejected) ?_ ?_
      · rintro _ rfl
        obtain ⟨-, hf, -⟩ := oneSettlement_of_reachable h
        exact ⟨hf.mem hr, fun r' hr' => by obtain rfl := Option.some.inj (hr.symm.trans hr'); exact hst⟩
      · intro w₁ a w₂ hw₁ ih _ hs
        obtain ⟨hone, hf, hi⟩ := oneSettlement_of_reachable (h.trans hw₁)
        refine ⟨?_, fun r₂ hr₂ => ?_⟩
        · cases step_eq_some hs with
          | applied o v us j hu hj => exact Journal.mem_store hj ih.1
          | _ => exact ih.1
        · cases hr₁ : w₁.journal.state.request? u c i with
          | some r₁ =>
            have hst₁ := ih.2 r₁ hr₁
            have hfor := hone.forward hf hi hs hr₁ hr₂
            rw [hfor.rejected (by simp [WithdrawalRequest.isRejected, hst₁]), hst₁]
          | none =>
            cases step_eq_some hs with
            | applied o v us j hu hj =>
              have hgone := Journal.request?_store_none (hi.fresh hu) hj ih.1 hr₁
              rw [show j.state.request? u c i = some r₂ from hr₂] at hgone
              cases hgone
            | _ =>
              rw [show w₁.journal.state.request? u c i = some r₂ from hr₂] at hr₁
              cases hr₁
    exact key.2 r' hr'

/-- A withdrawal of alice's that is over her limit is confirmed, and paid, and the update that completes it is on its way. -/
theorem statuses_move_forward_confirmed : ∃ w : World, w.updates.length = 1 ∧
    MovesForward (hotWallet Sample.ctx) Sample.clock OperatorsLeaveUnderLimit w := by
  obtain ⟨w, hw, hq⟩ := Machine.exists_reachable (P := OperatorsLeaveUnderLimit)
    (Sample.opening 1000000 ++ Sample.done 8 (Sample.withdraw 7 1000) ++
      Sample.done 9 (.confirm (Sample.signed 1) (Sample.confirmation 7 1000)) ++
      Sample.done 10 (.confirm (Sample.signed 2) (Sample.confirmation 7 1000)) ++
      [.take Sample.oracle, .answer (Sample.paid 7 200) ⟨11⟩, .send])
    (q := fun w => w.updates.length == 1) Sample.world_init (by decide +kernel)
  exact ⟨w, by simpa using hq, statuses_move_forward hw⟩

/-- Alice's withdrawal is under her limit and is paid when it is created; before that is reported, two operators reject it, and
then the report completes it. -/
theorem rejected_completed : ¬∀ (Γ : Ctx) (k : Clock) (w : World),
    (machine (hotWallet Γ) k).Reachable Machine.anyStep w → MovesForward (hotWallet Γ) k Machine.anyStep w := by
  intro h
  obtain ⟨w, hw, hq⟩ := Machine.exists_reachable (P := Machine.anyStep)
    (Sample.opening 1000000 ++ Sample.limited 100000 ++ Sample.done 8 (Sample.withdraw 7 1000) ++ [.take Sample.oracle] ++
      Sample.done 9 (.reject (Sample.signed 1) (Sample.confirmation 7 1000)) ++
      Sample.done 10 (.reject (Sample.signed 2) (Sample.confirmation 7 1000)) ++
      [.answer (Sample.paid 7 200) ⟨11⟩, .send])
    (q := fun w => (w.journal.state.request? Sample.alice .btc (Sample.uuid 7)).any (·.isRejected) &&
      (w.apply Sample.oracle true).any (fun w' =>
        (w'.journal.state.request? Sample.alice .btc (Sample.uuid 7)).any (!·.isRejected)))
    Sample.world_init (by decide +kernel)
  obtain ⟨hbefore, hafter⟩ := (Bool.and_eq_true _ _).mp hq
  obtain ⟨r, hr, hrej⟩ := (Option.any_eq_true _ _).mp hbefore
  obtain ⟨w', hs, hany⟩ := (Option.any_eq_true _ _).mp hafter
  obtain ⟨r', hr', hnot⟩ := (Option.any_eq_true _ _).mp hany
  have hfor := (h Sample.ctx Sample.clock w hw).1 (.apply Sample.oracle true) w' hs _ _ _ r r' hr hr'
  have hsame := hfor.rejected hrej
  simp only [WithdrawalRequest.isRejected, hsame] at hrej hnot
  rw [hrej] at hnot
  cases hnot

end World

end Hexstody
