import Hexstody.Handlers
import Hexstody.Lemmas.World

/-!
# What is paid

A payment is ordered by a result: a request under the limit orders one when it is created, and a request that operators confirm
orders one when they do. Each order is carried out once, so a request is paid twice only if it orders twice, and that is what a
request under the limit does when operators confirm it too, as nothing keeps them from it. In every run without such a vote
each request is paid at most once, whatever the handlers and however the tasks interleave (`paid_at_most_once`).
-/

namespace Hexstody

open WithdrawalRequest

/-- The update is a vote that confirms a request under the limit. -/
def Journal.ConfirmsUnderLimit (j : Journal) (u : StateUpdate) : Prop :=
  match u.body with
  | .withdrawalRequestDecision d => ∃ r ∈ j.state.request? d.userId d.currency d.requestId,
      r.requestType = .underLimit ∧ r.isConfirmedByKey d.publicKey = false ∧ r.ReachesConfirm d
  | _ => False

instance (j : Journal) (u : StateUpdate) : Decidable (j.ConfirmsUnderLimit u) :=
  decidable_of_iff (∃ d ∈ u.decision?, ∃ r ∈ j.state.request? d.userId d.currency d.requestId,
    r.requestType = .underLimit ∧ r.isConfirmedByKey d.publicKey = false ∧ r.ReachesConfirm d) u.exists_decision_iff

namespace World

variable {ι : Type} {C : Client ι} {k : Clock} {w w' : World} {a : Action ι}

/-- The step does not confirm a request under the limit. -/
def NoSecondOrder (w : World) (a : Action ι) : Prop := ∀ x ∈ w.applied? a, ¬w.journal.ConfirmsUnderLimit x.2

instance (w : World) (a : Action ι) : Decidable (w.NoSecondOrder a) :=
  inferInstanceAs (Decidable (∀ x ∈ w.applied? a, ¬w.journal.ConfirmsUnderLimit x.2))

/-- The payments made and ordered for a request. -/
def tickets (w : World) (id : WithdrawalRequestId) : Nat := (w.paymentsFor id).length + (w.ordersFor id).length

/-- A request is paid for by one ticket, which it has not before it is created, nor, over the limit, while it is in
progress. -/
structure OneTicket (w : World) : Prop where
  once : ∀ id, w.tickets id ≤ 1
  created : ∀ id, id ∉ w.journal.requests.map (·.id) → w.tickets id = 0
  waiting : ∀ u c id r n, w.journal.state.request? u c id = some r → r.requestType = .overLimit →
    r.status = .inProgress n → w.tickets id = 0

/-- Tickets that do not grow, over the same journal. -/
theorem OneTicket.of_le (h : w.OneTicket) (hj : w'.journal = w.journal) (ht : ∀ id, w'.tickets id ≤ w.tickets id) :
    w'.OneTicket where
  once id := (ht id).trans (h.once id)
  created id hid := Nat.le_zero.mp (h.created id (hj ▸ hid) ▸ ht id)
  waiting u c id r n hr hty hst := Nat.le_zero.mp (h.waiting u c id r n (hj ▸ hr) hty hst ▸ ht id)

/-- A request over the limit that is in progress after an update was so before, or is new, and has no ticket. -/
theorem OneTicket.waits {o : Oracle} {u : StateUpdate} {j : Journal} (h : w.OneTicket) (hfresh : w.journal.Fresh (o, u))
    (hj : w.journal.store o u = some j) {u' : UserId} {c : Currency} {id : WithdrawalRequestId} {r : WithdrawalRequest} {n : Int16}
    (hr : j.state.request? u' c id = some r) (hty : r.requestType = .overLimit) (hst : r.status = .inProgress n) :
    w.tickets id = 0 := by
  have hch := applyUpdate_request (Journal.store_answer hj) hfresh.1 u' c id
  rw [hr] at hch
  generalize hb : w.journal.state.request? u' c id = before at hch
  cases hch with
  | same => exact h.waiting u' c id r n hb hty hst
  | created x info hbody hi _ _ =>
    have hnew := hfresh.2.1 (.ofInfo u.created info) (by simp [StateUpdate.request?, hbody])
    exact h.created id (hi ▸ hnew)
  | voted r₀ _ d confirmed _ _ _ _ hd =>
    obtain ⟨n₀, hst₀, -⟩ := applyDecision_eq_ok hd
    exact h.waiting u' c id r₀ n₀ hb ((applyDecision_sameOrder hd).requestType.symm.trans hty) hst₀
  | completed r₀ info _ _ => cases hst
  | nodeRejected r₀ info _ _ => cases hst
  | canceled r₀ tx _ _ => cases hst

/-- A payment is ordered of a request that has no ticket, and that does not wait for votes any more. -/
theorem OneTicket.ordered {o : Oracle} {u : StateUpdate} {j : Journal} {x : UpdateResult} (h : w.OneTicket)
    (hf : w.journal.Filed) (hfresh : w.journal.Fresh (o, u)) (hno : ¬w.journal.ConfirmsUnderLimit u)
    (hj : w.journal.store o u = some j) (hres : j.answer = some x) :
    w.tickets x.id = 0 ∧ x.id ∈ j.requests.map (·.id) ∧
      ∀ u' c r n, j.state.request? u' c x.id = some r → r.requestType = .overLimit → r.status ≠ .inProgress n := by
  have ha := Journal.store_answer hj
  have hf' := hf.store hfresh hj
  rw [hres] at ha
  rcases applyUpdate_result ha with ⟨info, hbody, hty, rfl⟩ | ⟨d, r, r', id, hbody, hr, hd, hr', rfl⟩
  · have hnew := hfresh.2.1 (.ofInfo u.created info) (by simp [StateUpdate.request?, hbody])
    have hr' := (applyUpdate_create ha hbody).2.1
    refine ⟨h.created _ hnew, hf'.mem hr', fun u' c r n hr hover => ?_⟩
    obtain ⟨-, -, rfl⟩ := hf'.unique hr hr'
    rw [WithdrawalRequest.ofInfo, hty] at hover
    cases hover
  · rcases applyDecision_status hd with ⟨hq, hst, hid⟩ | ⟨-, -, hid⟩ | ⟨-, -, -, hid⟩
    · have hi : id = d.requestId := (Option.some.inj hid).trans (hf.id hr)
      subst hi
      obtain ⟨n, hst₀, hcases⟩ := applyDecision_eq_ok hd
      have hkey : r.isConfirmedByKey d.publicKey = false := by
        rcases hcases with ⟨-, hk, -⟩ | ⟨ht, -⟩
        · exact hk
        · rw [hq.1] at ht
          cases ht
      have hover : r.requestType = .overLimit := by
        cases hty : r.requestType with
        | overLimit => rfl
        | underLimit =>
          refine absurd ?_ hno
          unfold Journal.ConfirmsUnderLimit
          simp only [hbody]
          exact ⟨r, hr, hty, hkey, hq⟩
      refine ⟨h.waiting _ _ _ r n hr hover hst₀, hf'.mem hr', fun u' c r₁ n hr₁ _ hst₁ => ?_⟩
      obtain ⟨-, -, rfl⟩ := hf'.unique hr₁ hr'
      rw [hst] at hst₁
      cases hst₁
    · cases hid
    · cases hid

/-- (step) An update that is applied orders a payment only of a request that has no ticket. -/
theorem OneTicket.applied {o : Oracle} {u : StateUpdate} {us : List StateUpdate} {j : Journal} (h : w.OneTicket)
    (hf : w.journal.Filed) (hfresh : w.journal.Fresh (o, u)) (hno : ¬w.journal.ConfirmsUnderLimit u)
    (hj : w.journal.store o u = some j)
    (hw' : w' = { w with updates := us, journal := j, results := w.results ++ j.answer.toList }) : w'.OneTicket := by
  have hjw : w'.journal = j := by rw [hw']
  have htick : ∀ id, w'.tickets id = w.tickets id + (j.answer.toList.filter (·.id = id)).length := by
    intro id
    rw [hw']
    simp only [tickets, paymentsFor, ordersFor, List.filter_append, List.length_append]
    omega
  have hcreated : ∀ id, id ∉ j.requests.map (·.id) → w.tickets id = 0 :=
    fun id hid => h.created id (fun hm => hid (Journal.mem_store hj hm))
  cases hres : j.answer with
  | none =>
    have hsame : ∀ id, w'.tickets id = w.tickets id := by
      intro id
      rw [htick, hres]
      rfl
    exact ⟨fun id => (hsame id).trans_le (h.once id), fun id hid => (hsame id).trans (hcreated id (hjw ▸ hid)),
      fun u' c id r n hr hty hst => (hsame id).trans (h.waits hfresh hj (hjw ▸ hr) hty hst)⟩
  | some x =>
    obtain ⟨hzero, hmem, hnot⟩ := h.ordered hf hfresh hno hj hres
    have hadd : ∀ id, w'.tickets id = w.tickets id + if x.id = id then 1 else 0 := by
      intro id
      rw [htick, hres]
      by_cases hx : x.id = id <;> simp [hx]
    refine ⟨fun id => ?_, fun id hid => ?_, fun u' c id r n hr hty hst => ?_⟩
    · rw [hadd]
      by_cases hx : x.id = id
      · subst hx
        rw [if_pos rfl, hzero]
      · rw [if_neg hx]
        exact h.once id
    · have hid' : id ∉ j.requests.map (·.id) := hjw ▸ hid
      have hx : x.id ≠ id := fun hx => hid' (hx ▸ hmem)
      rw [hadd, if_neg hx]
      exact hcreated id hid'
    · have hr' : j.state.request? u' c id = some r := hjw ▸ hr
      have hx : x.id ≠ id := fun hx => hnot u' c r n (hx ▸ hr') hty hst
      rw [hadd, if_neg hx]
      exact h.waits hfresh hj hr' hty hst

/-- (step) -/
theorem OneTicket.step (h : w.OneTicket) (hf : w.journal.Filed) (hi : w.Issued) (hno : w.NoSecondOrder a)
    (hs : Step C k w a w') : w'.OneTicket := by
  cases hs with
  | requested i created b hb hnew => exact h.of_le rfl (fun _ => le_rfl)
  | delivered n u hu => exact h.of_le rfl (fun _ => le_rfl)
  | applied o u us j hu hj =>
    exact h.applied hf (hi.fresh hu) (hno (o, u) (by simp [applied?, hu])) hj rfl
  | dropped o stored u us hu => exact h.of_le rfl (fun _ => le_rfl)
  | took o r rs id call hw hr ht =>
    refine h.of_le rfl (fun id' => ?_)
    have hid := taken_id ht
    simp only [tickets, paymentsFor, ordersFor, hr, List.filter_append, List.length_append, List.filter_cons, hid]
    by_cases hx : id = id'
    · simp only [hx, decide_true, if_true, List.filter_nil, List.length_cons, List.length_nil]
      omega
    · simp [hx]
  | skipped o r rs hw hr ht =>
    refine h.of_le rfl (fun id' => ?_)
    simp only [tickets, ordersFor, hr, List.filter_cons]
    by_cases hx : r.id = id'
    · simp only [hx, decide_true, if_true, List.length_cons]
      exact Nat.add_le_add_left (Nat.le_succ _) _
    · simp only [hx, decide_false, Bool.false_eq_true, if_false]
      exact le_rfl
  | returned id call reply now wk hw ha => exact h.of_le rfl (fun _ => le_rfl)
  | sent u hw => exact h.of_le rfl (fun _ => le_rfl)
  | paidEth user addr amount hu =>
    refine h.of_le rfl (fun id' => ?_)
    simp [tickets, paymentsFor, ordersFor]

/-- (run) -/
theorem oneTicket_of_reachable (h : (machine C k).Reachable NoSecondOrder w) : w.OneTicket := by
  refine h.invariant ?_ ?_
  · rintro _ ⟨now, genesisHash, rfl⟩
    exact ⟨fun _ => Nat.zero_le 1, fun _ _ => rfl, fun _ _ _ _ _ _ _ _ => rfl⟩
  · intro w a w' hw hone hno hs
    exact hone.step (filed_of_reachable hw) (issued_of_reachable hw) hno (step_eq_some hs)

/-- Each request is paid at most once: in every run of the hot wallet, over any handlers, in which no vote confirms a request
under the limit, at most one payment is made for each request. -/
theorem paid_at_most_once (h : (machine C k).Reachable NoSecondOrder w) (id : WithdrawalRequestId) :
    (w.paymentsFor id).length ≤ 1 := (Nat.le_add_right _ _).trans ((oneTicket_of_reachable h).once id)

/-- Two operators confirm a withdrawal of alice's that is over her limit, and it is paid. -/
theorem paid_at_most_once_confirmed : ∃ w : World, w.payments.length = 1 ∧
    (w.paymentsFor (Sample.uuid 7)).length ≤ 1 := by
  obtain ⟨w, hw, hq⟩ := Machine.exists_reachable (P := NoSecondOrder)
    (Sample.opening 1000000 ++ Sample.done 8 (Sample.withdraw 7 1000) ++
      Sample.done 9 (.confirm (Sample.signed 1) (Sample.confirmation 7 1000)) ++
      Sample.done 10 (.confirm (Sample.signed 2) (Sample.confirmation 7 1000)) ++ [.take Sample.oracle])
    (q := fun w => w.payments.length == 1) Sample.world_init (by decide +kernel)
  exact ⟨w, by simpa using hq, paid_at_most_once hw _⟩

/-- Alice's withdrawal is under her limit and is paid when it is created; then two operators confirm it, and it is paid
again. -/
theorem paid_twice : ¬∀ (Γ : Ctx) (k : Clock) (w : World), (machine (hotWallet Γ) k).Reachable Machine.anyStep w →
    ∀ id, (w.paymentsFor id).length ≤ 1 := by
  intro h
  obtain ⟨w, hw, hq⟩ := Machine.exists_reachable (P := Machine.anyStep)
    (Sample.opening 1000000 ++ Sample.limited 100000 ++ Sample.done 8 (Sample.withdraw 7 1000) ++ [.take Sample.oracle] ++
      Sample.done 9 (.confirm (Sample.signed 1) (Sample.confirmation 7 1000)) ++
      Sample.done 10 (.confirm (Sample.signed 2) (Sample.confirmation 7 1000)) ++
      [.answer (Sample.paid 7 200) ⟨11⟩, .send, .take Sample.oracle])
    (q := fun w => (w.paymentsFor (Sample.uuid 7)).length == 2) Sample.world_init (by decide +kernel)
  have h2 : (w.paymentsFor (Sample.uuid 7)).length = 2 := by simpa using hq
  have h1 := h Sample.ctx Sample.clock w hw (Sample.uuid 7)
  omega

end World

end Hexstody
