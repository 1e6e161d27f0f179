import Hexstody.Lemmas.LimitChange
import Hexstody.Lemmas.Order
import Hexstody.Lemmas.Tally
import Hexstody.Operator

/-!
# What a resent request does

The guard of the operator API keeps nothing of what it accepted, so a signed request is accepted each time it is sent. What an
acceptance makes is one update at most, as when the operator sends it again: an invite is one more invite. A vote is different: it
stands where it was given (`State.Stands`), and is refused while it stands; so no key has two votes on a withdrawal request or on
one side of a change of a limit, and an exchange order is decided once (`signed_requests_repeat`).
-/

namespace Hexstody

open WithdrawalRequest

/-! ## The guard -/

namespace SignedRequest

variable {Γ : OpCtx} {r : SignedRequest}

/-- What the guard accepts is what an operator signed. -/
theorem guard_eq_ok_iff : r.guard Γ = .ok () ↔ r.Authentic Γ := by
  unfold guard Authentic
  cases r.request.message Γ with
  | none => exact Handlers.guardOpSignatureNomsg_eq_ok_iff
  | some body => exact Handlers.guardOpSignature_eq_ok_iff

end SignedRequest

/-! ## Votes that stand -/

namespace State

/-- The update is a vote that is given already: its key has voted so on the request that is there, or there is nothing to decide
any more. -/
def Stands (s : State) : UpdateBody → Prop
  | .withdrawalRequestDecision d => ∃ r, s.request? d.userId d.currency d.requestId = some r ∧
      ((∀ n, r.status ≠ .inProgress n) ∨ (d.decisionType = .confirm ∧ d.publicKey ∈ r.confirmKeys) ∨
        (d.decisionType = .reject ∧ d.publicKey ∈ r.rejectKeys))
  | .limitChangeDecision d => ∃ l, s.limitChange? d.user d.currency = some l ∧ l.HasVote d
  | .exchangeDecision d => ∃ ex, s.order? d.user d.currencyFrom d.id = some ex ∧ ∀ m n, ex.status ≠ .inProgress m n
  | _ => False

/-- The update is a vote on a change of a limit that is closed. -/
def Closed (s : State) : UpdateBody → Prop
  | .limitChangeDecision d => s.limitChange? d.user d.currency = none
  | _ => False

end State

/-- The update is a vote. -/
def UpdateBody.isVote : UpdateBody → Bool
  | .withdrawalRequestDecision _ => true
  | .limitChangeDecision _ => true
  | .exchangeDecision _ => true
  | _ => false

/-- At a threshold of one, the first vote decides an order. -/
theorem ExchangeOrder.applyDecision_decides {ex ex' : ExchangeOrder} {req : ExchangeDecision} {completes : Bool}
    (hst : ex.status = .inProgress 0 0) (h : ex.applyDecision EXCHANGE_NUMBER_OF_CONFIRMATIONS req = .ok (ex', completes)) :
    ∀ m n, ex'.status ≠ .inProgress m n := by
  have hone : (0 : Int16) + 1 - 0 ≥ EXCHANGE_NUMBER_OF_CONFIRMATIONS := by decide
  unfold applyDecision at h
  simp only [hst, if_pos hone] at h
  intro m n
  cases hd : req.decision with
  | confirm =>
    simp only [hd] at h
    split at h
    · cases h
    · obtain ⟨rfl, -⟩ := Prod.mk.inj (Except.ok.inj h)
      exact fun hc => by cases hc
  | reject =>
    simp only [hd] at h
    split at h
    · cases h
    · obtain ⟨rfl, -⟩ := Prod.mk.inj (Except.ok.inj h)
      exact fun hc => by cases hc

namespace Journal

variable {j j' : Journal} {o : Oracle} {up : StateUpdate}

/-- The orders that were decided, in the order of the decisions. -/
def decidedOrders (j : Journal) : List ExchangeOrderId :=
  j.rows.filterMap fun row =>
    match row.update.body with
    | .exchangeDecision req => some req.id
    | _ => none

/-- No key has two votes, and nothing is decided twice. -/
structure VotesOnce (j : Journal) : Prop where
  requests : ∀ {u c i r}, j.state.request? u c i = some r → r.Distinct
  limits : ∀ {u c l}, j.state.limitChange? u c = some l → l.Distinct
  /-- An order in progress has no votes. -/
  orders : ∀ {u c i ex m n}, j.state.order? u c i = some ex → ex.status = .inProgress m n → ex.status = .inProgress 0 0
  nodup : j.decidedOrders.Nodup
  decided : ∀ i ∈ j.decidedOrders, i ∈ j.orders.map (·.id) ∧
    ∀ u c ex m n, j.state.order? u c i = some ex → ex.status ≠ .inProgress m n

theorem decidedOrders_store (h : j.store o up = some j') : j'.decidedOrders = j.decidedOrders ++
    match up.body with
    | .exchangeDecision req => [req.id]
    | _ => [] := by
  obtain ⟨res, -, hrows⟩ := store_eq_some h
  rw [decidedOrders, decidedOrders, hrows, List.filterMap_append]
  cases hb : up.body <;> simp [hb]

/-- (step) The votes on requests and on changes of limits. -/
theorem VotesOnce.store_votes (hv : j.VotesOnce) (hp : j.Fresh (o, up)) (h : j.store o up = some j') :
    (∀ {u c i r}, j'.state.request? u c i = some r → r.Distinct) ∧
      ∀ {u c l}, j'.state.limitChange? u c = some l → l.Distinct := by
  have ha := store_answer h
  refine ⟨fun {u c i r'} hr' => ?_, fun {u c l'} hl' => ?_⟩
  · have hch := applyUpdate_request ha hp.1 u c i
    rw [hr'] at hch
    generalize hb : j.state.request? u c i = before at hch
    cases hch with
    | same => exact hv.requests hb
    | created a info _ _ _ _ => exact (Counted.ofInfo _ _).distinct
    | voted r _ d confirmed _ _ _ _ hd => exact (hv.requests hb).applyDecision hd
    | completed r info _ _ => exact (hv.requests hb).setStatus _
    | nodeRejected r info _ _ => exact (hv.requests hb).setStatus _
    | canceled r tx _ _ => exact (hv.requests hb).setStatus _
  · have hch := applyUpdate_limitChange ha hp.1 u c
    rw [hl'] at hch
    generalize hb : j.state.limitChange? u c = before at hch
    cases hch with
    | same => exact hv.limits hb
    | opened a l hc hr =>
      refine ⟨?_, ?_⟩
      · rw [LimitChangeData.confirmKeys, hc]
        exact List.nodup_nil
      · rw [LimitChangeData.rejectKeys, hr]
        exact List.nodup_nil
    | voted l _ lcd _ hd => exact (hv.limits hb).applyDecision hd

/-- (step) The orders. -/
theorem VotesOnce.store_orders (hv : j.VotesOnce) (hp : j.Fresh (o, up)) (h : j.store o up = some j') :
    (∀ {u c i ex m n}, j'.state.order? u c i = some ex → ex.status = .inProgress m n → ex.status = .inProgress 0 0) ∧
      ∀ i ∈ j.decidedOrders, i ∈ j'.orders.map (·.id) ∧
        ∀ u c ex m n, j'.state.order? u c i = some ex → ex.status ≠ .inProgress m n := by
  have ha := store_answer h
  refine ⟨fun {u c i ex m n} he hst => ?_, fun i hi => ⟨?_, fun u c ex m n he => ?_⟩⟩
  · have hch := applyUpdate_order ha hp.1 u c i
    rw [he] at hch
    generalize hb : j.state.order? u c i = before at hch
    cases hch with
    | same => exact hv.orders hb hst
    | created _ req _ _ _ _ => rfl
    | decided ex₀ _ req completes _ _ _ _ hd =>
      obtain ⟨⟨m₀, n₀, hst₀⟩, -, -⟩ := ExchangeOrder.applyDecision_eq_ok hd
      exact absurd hst (ExchangeOrder.applyDecision_decides (hv.orders hb hst₀) hd m n)
  · rw [orders_store h, List.map_append]
    exact List.mem_append_left _ (hv.decided i hi).1
  · have hch := applyUpdate_order ha hp.1 u c i
    rw [he] at hch
    generalize hb : j.state.order? u c i = before at hch
    cases hch with
    | same => exact (hv.decided i hi).2 u c ex m n hb
    | created _ req hbody hid _ _ =>
      have hnew := hp.2.2 req (by simp [StateUpdate.order?, hbody])
      exact absurd (hid ▸ (hv.decided i hi).1) hnew
    | decided ex₀ _ req completes _ _ _ _ hd =>
      obtain ⟨⟨m₀, n₀, hst₀⟩, -, -⟩ := ExchangeOrder.applyDecision_eq_ok hd
      exact absurd hst₀ ((hv.decided i hi).2 u c ex₀ m₀ n₀ hb)

/-- (step) -/
theorem VotesOnce.store (hv : j.VotesOnce) (hf : j.OrdersFiled) (hf' : j'.OrdersFiled) (hp : j.Fresh (o, up))
    (h : j.store o up = some j') : j'.VotesOnce := by
  obtain ⟨hrequests, hlimits⟩ := hv.store_votes hp h
  obtain ⟨horders, hold⟩ := hv.store_orders hp h
  have hids := decidedOrders_store h
  cases hb : up.body with
  | exchangeDecision req =>
    rw [hb] at hids
    obtain ⟨ex, ex', completes, hex, hd, hafter⟩ := applyUpdate_exchanged (store_answer h) hb
    obtain ⟨⟨m, n, hst⟩, -, -⟩ := ExchangeOrder.applyDecision_eq_ok hd
    -- the order was in progress before, and is decided now
    have hnew : req.id ∉ j.decidedOrders := fun hm => (hv.decided _ hm).2 _ _ ex m n hex hst
    refine ⟨hrequests, hlimits, horders, ?_, fun i hi => ?_⟩
    · rw [hids]
      exact List.Nodup.append hv.nodup (List.nodup_singleton _) (by simpa using hnew)
    · rw [hids] at hi
      rcases List.mem_append.mp hi with hi | hi
      · exact hold i hi
      · obtain rfl := List.mem_singleton.mp hi
        obtain ⟨req₀, hm₀, hid₀, -, -⟩ := hf.filed hex
        refine ⟨?_, fun u c ex₁ m₁ n₁ he₁ => ?_⟩
        · rw [orders_store h, List.map_append, ← hid₀]
          exact List.mem_append_left _ (List.mem_map_of_mem hm₀)
        · obtain rfl := hf'.unique he₁ hafter
          exact ExchangeOrder.applyDecision_decides (hv.orders hex hst) hd m₁ n₁
  | _ =>
    rw [hb] at hids
    have hids : j'.decidedOrders = j.decidedOrders := by simpa using hids
    exact ⟨hrequests, hlimits, horders, hids ▸ hv.nodup, fun i hi => hold i (hids ▸ hi)⟩

/-- (run) -/
theorem votesOnce_of_reachable (h : machine.Reachable Fresh j) : j.VotesOnce := by
  refine h.invariant ?_ ?_
  · rintro _ ⟨now, genesisHash, rfl⟩
    exact ⟨fun hr => (by cases hr), fun hl => (by cases hl), fun he => (by cases he), List.nodup_nil, fun i hi => by cases hi⟩
  · intro j a j' hj hv hp hs
    have hf := (ordersFiled_of_reachable (fun _ _ hp => hp) hj).1
    exact hv.store hf (hf.store hp hs) hp hs

/-- A vote that is stored stands afterwards, or closes the change of a limit. -/
theorem VotesOnce.stands (hv : j.VotesOnce) (h : j.store o up = some j') (hvote : up.body.isVote = true) :
    j'.state.Stands up.body ∨ j'.state.Closed up.body := by
  have ha := store_answer h
  cases hb : up.body with
  | withdrawalRequestDecision d =>
    obtain ⟨r, r', confirmed, -, hd, hr', -⟩ := applyUpdate_decision ha hb
    refine Or.inl ⟨r', hr', Or.inr ?_⟩
    obtain ⟨n, -, ⟨ht, -, rfl, -⟩ | ⟨ht, -, rfl, -⟩⟩ := applyDecision_eq_ok hd
    · refine Or.inl ⟨ht, ?_⟩
      rw [(confirm_lists (r := r) (n := n) (d := d)).1]
      exact List.mem_append_right _ (List.mem_singleton_self _)
    · refine Or.inr ⟨ht, ?_⟩
      rw [(reject_lists (r := r) (n := n) (d := d)).1]
      exact List.mem_append_right _ (List.mem_singleton_self _)
  | limitChangeDecision lcd =>
    obtain ⟨l, l', -, hd, hafter⟩ := State.limitDecision_of_applyUpdate ha hb
    by_cases hdecided : l'.isDecided = true
    · exact Or.inr (hafter.trans (if_pos hdecided))
    · exact Or.inl ⟨l', hafter.trans (if_neg hdecided), (LimitChangeData.applyDecision_hasVote hd).2⟩
  | exchangeDecision req =>
    obtain ⟨ex, ex', completes, hex, hd, hafter⟩ := applyUpdate_exchanged ha hb
    obtain ⟨⟨m, n, hst⟩, -, -⟩ := ExchangeOrder.applyDecision_eq_ok hd
    exact Or.inl ⟨ex', hafter, ExchangeOrder.applyDecision_decides (hv.orders hex hst) hd⟩
  | _ =>
    rw [hb] at hvote
    cases hvote

end Journal

/-! ## Every run of the API -/

namespace OperatorApi

variable {Γ : OpCtx} {m m' : OperatorApi}

/-- What the operators' handlers sent, of what is stored or on the way. -/
def operatorBodies (m : OperatorApi) : List UpdateBody :=
  ((m.journal.rows.map (·.update) ++ m.updates).map (·.body)).filter (·.fromOperator)

/-- How signed requests repeat, and what does not repeat. -/
structure Repeats (Γ : OpCtx) (m : OperatorApi) : Prop where
  /-- A request is accepted when it is sent, again and again, if an operator signed it; else nothing happens. -/
  accepts : ∀ r draw created, ∃ m', step Γ m (.send r draw created) = some m' ∧
    (r.Authentic Γ → ∃ sent, m'.accepted = m.accepted ++ [(r, sent)]) ∧ (¬r.Authentic Γ → m' = m)
  /-- What was accepted was signed by an operator, and what was sent for it is what its handler makes of some State. -/
  authentic : ∀ x ∈ m.accepted, x.1.Authentic Γ ∧ ∀ b ∈ x.2, ∃ s draw, x.1.handle Γ s draw = .ok (some b)
  /-- Each update of the operators' kinds is of an acceptance of its own. -/
  once : m.operatorBodies.Subperm (m.accepted.filterMap (·.2))
  /-- A vote that stands is refused, -/
  refused : ∀ o up, m.journal.state.Stands up.body → m.journal.store o up = none
  /-- and one that is stored stands from then on, or closes the change of a limit. -/
  stands : ∀ o up j', m.journal.store o up = some j' → up.body.isVote = true → j'.state.Stands up.body ∨ j'.state.Closed up.body
  /-- No key has two votes on a withdrawal request, -/
  requests : ∀ u c i r, m.journal.state.request? u c i = some r → r.Distinct
  /-- or on one side of a change of a limit. -/
  limits : ∀ u c l, m.journal.state.limitChange? u c = some l → l.Distinct
  /-- No exchange order is decided twice. -/
  orders : m.journal.decidedOrders.Nodup

/-- (step) A step of the API is one of the journal, or none. -/
theorem journal_of_reachable (h : (machine Γ).Reachable FreshIds m) : Journal.machine.Reachable Journal.Fresh m.journal := by
  refine h.simulate (f := OperatorApi.journal) ?_ ?_
  · rintro _ ⟨now, genesisHash, rfl⟩
    exact ⟨now, genesisHash, rfl⟩
  · intro m a m' _ hp hs
    cases a with
    | send r draw created =>
      simp only [machine, step] at hs
      split at hs
      · obtain rfl := Option.some.inj hs
        exact Or.inl rfl
      · obtain rfl := Option.some.inj hs
        exact Or.inl rfl
    | other up =>
      simp only [machine, step] at hs
      split at hs
      · cases hs
      · obtain rfl := Option.some.inj hs
        exact Or.inl rfl
    | apply n o =>
      simp only [machine, step] at hs
      cases hn : m.updates[n]? with
      | none => simp [hn] at hs
      | some up =>
        simp only [hn] at hs
        cases hj : m.journal.store o up with
        | none =>
          simp only [hj] at hs
          obtain rfl := Option.some.inj hs
          exact Or.inl rfl
        | some j =>
          simp only [hj] at hs
          obtain rfl := Option.some.inj hs
          exact Or.inr ⟨(o, up), hp up hn, hj⟩

/-- (step) A request that is sent, by the verdict of the guard. -/
theorem step_send (m : OperatorApi) (r : SignedRequest) (draw : Draw) (created : NaiveDateTime) :
    (r.Authentic Γ ∧ ∃ sent, (∀ b ∈ sent, r.handle Γ m.journal.state draw = .ok (some b)) ∧
        step Γ m (.send r draw created) = some { m with
          updates := m.updates ++ (sent.map fun b => { created := created, body := b }).toList
          accepted := m.accepted ++ [(r, sent)] }) ∨
      (¬r.Authentic Γ ∧ step Γ m (.send r draw created) = some m) := by
  cases hg : r.guard Γ with
  | error e =>
    refine Or.inr ⟨fun hauth => ?_, by simp only [step, hg]⟩
    rw [SignedRequest.guard_eq_ok_iff.mpr hauth] at hg
    cases hg
  | ok _ =>
    refine Or.inl ⟨SignedRequest.guard_eq_ok_iff.mp hg, _, fun b hb => ?_, by simp only [step, hg]; rfl⟩
    cases hh : r.handle Γ m.journal.state draw with
    | error e =>
      rw [hh] at hb
      cases hb
    | ok sent =>
      rw [hh] at hb
      exact congrArg Except.ok hb

/-- (run) What was accepted, and what came of it. -/
theorem accepted_of_reachable (h : (machine Γ).Reachable FreshIds m) :
    (∀ x ∈ m.accepted, x.1.Authentic Γ ∧ ∀ b ∈ x.2, ∃ s draw, x.1.handle Γ s draw = .ok (some b)) ∧
      m.operatorBodies.Subperm (m.accepted.filterMap (·.2)) := by
  refine h.invariant (I := fun m => (∀ x ∈ m.accepted, x.1.Authentic Γ ∧
    ∀ b ∈ x.2, ∃ s draw, x.1.handle Γ s draw = .ok (some b)) ∧ m.operatorBodies.Subperm (m.accepted.filterMap (·.2))) ?_ ?_
  · rintro _ ⟨now, genesisHash, rfl⟩
    exact ⟨fun x hx => (by cases hx), List.Subperm.refl _⟩
  · intro m a m' _ ⟨hauth, honce⟩ _ hs
    cases a with
    | send r draw created =>
      rcases step_send (Γ := Γ) m r draw created with ⟨hr, sent, hsent, hstep⟩ | ⟨-, hstep⟩
      · obtain rfl := Option.some.inj (hstep.symm.trans hs)
        refine ⟨fun x hx => ?_, ?_⟩
        · rcases List.mem_append.mp hx with hx | hx
          · exact hauth x hx
          · obtain rfl := List.mem_singleton.mp hx
            exact ⟨hr, fun b hb => ⟨_, draw, hsent b hb⟩⟩
        · -- one acceptance more, and one update more at most
          have hbodies : operatorBodies { m with
              updates := m.updates ++ (sent.map fun b => { created := created, body := b }).toList
              accepted := m.accepted ++ [(r, sent)] } = m.operatorBodies ++ sent.toList.filter (·.fromOperator) := by
            unfold operatorBodies
            cases sent <;> simp
          have hlog : (m.accepted ++ [(r, sent)]).filterMap (·.2) = m.accepted.filterMap (·.2) ++ sent.toList := by
            cases sent <;> simp
          rw [hbodies, hlog]
          exact honce.append List.filter_sublist.subperm
      · obtain rfl := Option.some.inj (hstep.symm.trans hs)
        exact ⟨hauth, honce⟩
    | other up =>
      simp only [machine, step] at hs
      by_cases hup : up.body.fromOperator = true
      · rw [if_pos hup] at hs
        cases hs
      · rw [if_neg hup] at hs
        obtain rfl := Option.some.inj hs
        refine ⟨hauth, ?_⟩
        have hbodies : operatorBodies { m with updates := m.updates ++ [up] } = m.operatorBodies := by
          unfold operatorBodies
          simp [hup]
        rw [hbodies]
        exact honce
    | apply n o =>
      simp only [machine, step] at hs
      cases hn : m.updates[n]? with
      | none => simp [hn] at hs
      | some up =>
        simp only [hn] at hs
        cases hj : m.journal.store o up with
        | none =>
          simp only [hj] at hs
          obtain rfl := Option.some.inj hs
          refine ⟨hauth, List.Subperm.trans (List.Sublist.subperm ?_) honce⟩
          exact (((List.eraseIdx_sublist _ n).append_left _).map _).filter _
        | some j =>
          simp only [hj] at hs
          obtain rfl := Option.some.inj hs
          refine ⟨hauth, List.Subperm.trans (List.Perm.subperm ?_) honce⟩
          obtain ⟨res, -, hrows⟩ := Journal.store_eq_some hj
          obtain ⟨hlt, rfl⟩ := List.getElem?_eq_some_iff.mp hn
          refine List.Perm.filter _ (List.Perm.map _ ?_)
          simp only [hrows, List.map_append, List.map_cons, List.map_nil, List.append_assoc, List.singleton_append]
          exact (List.getElem_cons_eraseIdx_perm hlt).append_left _

end OperatorApi

end Hexstody
