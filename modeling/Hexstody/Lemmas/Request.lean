import Hexstody.Lemmas.Account

/-!
# What an update does to a withdrawal request, and what it answers

The change of an account (`AccountChange`) seen at one withdrawal request: `RequestChange` lists the ways, and
`applyUpdate_request` says that there is no other. A vote that is accepted is a vote for or against a request in progress
(`WithdrawalRequest.applyDecision_eq_ok`). Only two kinds of update answer anything: an under-limit request that is accepted, and
the vote that confirms a request (`applyUpdate_create`, `applyUpdate_decision`, `applyUpdate_result`).
-/

namespace Hexstody

/-! ## Votes -/

namespace WithdrawalRequest

variable {r r' : WithdrawalRequest} {n : Int16} {d : WithdrawalRequestDecisionInfo} {confirmed : Option WithdrawalRequestId}

/-! What a vote sets, field by field. -/

theorem confirm_status : (r.confirm n d).1.status =
    if n = REQUIRED_NUMBER_OF_CONFIRMATIONS - weight (r.isRejectedByKey d.publicKey) then .confirmed
    else .inProgress (n + weight (r.isRejectedByKey d.publicKey)) := by
  unfold confirm
  dsimp only
  split <;> rfl

theorem confirm_result : (r.confirm n d).2 =
    if n = REQUIRED_NUMBER_OF_CONFIRMATIONS - weight (r.isRejectedByKey d.publicKey) then some r.id else none := by
  unfold confirm
  dsimp only
  split <;> rfl

theorem confirm_confirmations :
    (r.confirm n d).1.confirmations = r.confirmations ++ [WithdrawalRequestDecision.ofInfo d] := by
  unfold confirm
  dsimp only
  split <;> rfl

theorem confirm_rejections : (r.confirm n d).1.rejections =
    if r.isRejectedByKey d.publicKey then r.rejections.filter (·.publicKey != d.publicKey) else r.rejections := by
  unfold confirm
  dsimp only
  split <;> rfl

theorem confirm_sameOrder : SameOrder r (r.confirm n d).1 := by
  unfold confirm
  dsimp only
  split <;> exact ⟨rfl, rfl, rfl, rfl, rfl, rfl⟩

theorem reject_status : (r.reject n d).status =
    if n = weight (r.isConfirmedByKey d.publicKey) - REQUIRED_NUMBER_OF_CONFIRMATIONS then .opRejected
    else .inProgress (n - weight (r.isConfirmedByKey d.publicKey)) := by
  unfold reject
  dsimp only
  split <;> rfl

theorem reject_rejections :
    (r.reject n d).rejections = r.rejections ++ [WithdrawalRequestDecision.ofInfo d] := by
  unfold reject
  dsimp only
  split <;> rfl

theorem reject_confirmations : (r.reject n d).confirmations =
    if r.isConfirmedByKey d.publicKey then r.confirmations.filter (·.publicKey != d.publicKey) else r.confirmations := by
  unfold reject
  dsimp only
  split <;> rfl

theorem reject_sameOrder : SameOrder r (r.reject n d) := by
  unfold reject
  dsimp only
  split <;> exact ⟨rfl, rfl, rfl, rfl, rfl, rfl⟩

/-- The decision is for the request and gives it the last confirmation it needs. -/
def ReachesConfirm (r : WithdrawalRequest) (d : WithdrawalRequestDecisionInfo) : Prop :=
  d.decisionType = .confirm ∧
    r.status = .inProgress (REQUIRED_NUMBER_OF_CONFIRMATIONS - weight (r.isRejectedByKey d.publicKey))

/-- The decision is against the request and gives it the last rejection it needs. -/
def ReachesReject (r : WithdrawalRequest) (d : WithdrawalRequestDecisionInfo) : Prop :=
  d.decisionType = .reject ∧
    r.status = .inProgress (weight (r.isConfirmedByKey d.publicKey) - REQUIRED_NUMBER_OF_CONFIRMATIONS)

instance : Decidable (r.ReachesConfirm d) := inferInstanceAs (Decidable (_ ∧ _))

instance : Decidable (r.ReachesReject d) := inferInstanceAs (Decidable (_ ∧ _))

/-- A vote that is accepted is on a request in progress, and by a key that did not vote for the same side before. -/
theorem applyDecision_eq_ok (h : r.applyDecision d = .ok (r', confirmed)) :
    ∃ n, r.status = .inProgress n ∧
      ((d.decisionType = .confirm ∧ r.isConfirmedByKey d.publicKey = false ∧ r' = (r.confirm n d).1 ∧
          confirmed = (r.confirm n d).2) ∨
        (d.decisionType = .reject ∧ r.isRejectedByKey d.publicKey = false ∧ r' = r.reject n d ∧ confirmed = none)) := by
  unfold applyDecision at h
  cases hst : r.status with
  | completed ca txid fee ins outs => simp [hst] at h
  | confirmed => simp [hst] at h
  | opRejected => simp [hst] at h
  | nodeRejected reason => simp [hst] at h
  | inProgress n =>
    simp only [hst] at h
    refine ⟨n, rfl, ?_⟩
    cases ht : d.decisionType with
    | confirm =>
      simp only [ht] at h
      by_cases hk : r.isConfirmedByKey d.publicKey = true
      · simp [hk] at h
      · simp only [hk] at h
        have hp := Except.ok.inj h
        exact Or.inl ⟨rfl, by simpa using hk, by rw [hp], by rw [hp]⟩
    | reject =>
      simp only [ht] at h
      by_cases hk : r.isRejectedByKey d.publicKey = true
      · simp [hk] at h
      · simp only [hk] at h
        have hp := Prod.mk.inj (Except.ok.inj h)
        exact Or.inr ⟨rfl, by simpa using hk, hp.1.symm, hp.2.symm⟩

/-- A vote changes nothing that is paid. -/
theorem applyDecision_sameOrder (h : r.applyDecision d = .ok (r', confirmed)) : SameOrder r r' := by
  obtain ⟨n, -, ⟨-, -, rfl, -⟩ | ⟨-, -, rfl, -⟩⟩ := applyDecision_eq_ok h
  · exact confirm_sameOrder
  · exact reject_sameOrder

/-- The status after a vote: confirmed exactly when the vote reaches the quorum for the request, rejected exactly when it
reaches the quorum against it, and otherwise in progress. -/
theorem applyDecision_status (h : r.applyDecision d = .ok (r', confirmed)) :
    (r.ReachesConfirm d ∧ r'.status = .confirmed ∧ confirmed = some r.id) ∨
      (r.ReachesReject d ∧ r'.status = .opRejected ∧ confirmed = none) ∨
      (¬r.ReachesConfirm d ∧ ¬r.ReachesReject d ∧ (∃ n, r'.status = .inProgress n) ∧ confirmed = none) := by
  obtain ⟨n, hst, ⟨ht, -, rfl, rfl⟩ | ⟨ht, -, rfl, rfl⟩⟩ := applyDecision_eq_ok h
  · have hrej : ¬r.ReachesReject d := fun hr => by rw [hr.1] at ht; cases ht
    by_cases hn : n = REQUIRED_NUMBER_OF_CONFIRMATIONS - weight (r.isRejectedByKey d.publicKey)
    · refine Or.inl ⟨⟨ht, by rw [hst, ← hn]⟩, ?_, ?_⟩
      · rw [confirm_status, if_pos hn]
      · rw [confirm_result, if_pos hn]
    · refine Or.inr (Or.inr ⟨fun hr => ?_, hrej, ⟨_, by rw [confirm_status, if_neg hn]⟩, ?_⟩)
      · exact hn (WithdrawalRequestStatus.inProgress.inj (hst.symm.trans hr.2))
      · rw [confirm_result, if_neg hn]
  · have hcon : ¬r.ReachesConfirm d := fun hr => by rw [hr.1] at ht; cases ht
    by_cases hn : n = weight (r.isConfirmedByKey d.publicKey) - REQUIRED_NUMBER_OF_CONFIRMATIONS
    · refine Or.inr (Or.inl ⟨⟨ht, by rw [hst, ← hn]⟩, ?_, rfl⟩)
      rw [reject_status, if_pos hn]
    · refine Or.inr (Or.inr ⟨hcon, fun hr => ?_, ⟨_, by rw [reject_status, if_neg hn]⟩, rfl⟩)
      exact hn (WithdrawalRequestStatus.inProgress.inj (hst.symm.trans hr.2))

end WithdrawalRequest

/-! ## The change of a request -/

/-- How an accepted update changes the request with id `i` in the account of `u` in `c`, with what the update had to meet. -/
inductive RequestChange (s : State) (up : StateUpdate) (u : UserId) (c : Currency) (i : WithdrawalRequestId) :
    Option WithdrawalRequest → Option WithdrawalRequest → Prop where
  | same (a : Option WithdrawalRequest) : RequestChange s up u c i a a
  | dropped (r : WithdrawalRequest) (token : Erc20Token) : c = .erc20 token → RequestChange s up u c i (some r) none
  | created (a : Option WithdrawalRequest) (info : WithdrawalRequestInfo) :
      up.body = .createWithdrawalRequest info → info.id = i → info.user = u → info.address.currency = c →
      RequestChange s up u c i a (some (.ofInfo up.created info))
  | voted (r r' : WithdrawalRequest) (d : WithdrawalRequestDecisionInfo) (confirmed : Option WithdrawalRequestId) :
      up.body = .withdrawalRequestDecision d → d.userId = u → d.currency = c → d.requestId = i →
      r.applyDecision d = .ok (r', confirmed) → RequestChange s up u c i (some r) (some r')
  | completed (r : WithdrawalRequest) (info : WithdrawCompleteInfo) :
      up.body = .withdrawalRequestComplete info → info.id = i →
      RequestChange s up u c i (some r) (some { r with status := info.toStatus })
  | nodeRejected (r : WithdrawalRequest) (info : WithdrawalRejectInfo) :
      up.body = .withdrawalRequestNodeRejected info → info.id = i →
      RequestChange s up u c i (some r) (some { r with status := .nodeRejected info.reason })
  | canceled (r : WithdrawalRequest) (tx : BtcTxCancel) : up.body = .cancelBtcTx tx →
      (∃ u' c' k r₀ ca fee ins outs, s.request? u' c' k = some r₀ ∧
        r₀.status = .completed ca (.btc { txid := tx.txid.hex }) fee ins outs ∧ r₀.id = i) →
      RequestChange s up u c i (some r) (some { r with status := .nodeRejected "Tx canceled" })

/-- The request with an id in an account that may be there. -/
def requestIn (a : Option UserCurrencyInfo) (i : WithdrawalRequestId) : Option WithdrawalRequest :=
  a.bind (·.withdrawalRequests.get? i)

theorem get?_setRequestStatus (a : UserCurrencyInfo) (id i : WithdrawalRequestId) (st : WithdrawalRequestStatus) :
    (a.setRequestStatus id st).withdrawalRequests.get? i =
      (a.withdrawalRequests.get? i).map (fun r => if i = id then { r with status := st } else r) :=
  AssocMap.get?_mapVals _ _ _

/-- A status that is set for an id is set for the request with that id and no other. -/
theorem requestChange_setStatus {s : State} {up : StateUpdate} {u : UserId} {c : Currency} {i id : WithdrawalRequestId}
    {st : WithdrawalRequestStatus} (o : Option WithdrawalRequest)
    (h : ∀ r, id = i → RequestChange s up u c i (some r) (some { r with status := st })) :
    RequestChange s up u c i o (o.map (fun r => if i = id then { r with status := st } else r)) := by
  cases o with
  | none => exact .same _
  | some r =>
    by_cases hi : i = id
    · rw [Option.map_some, if_pos hi]
      exact h r hi.symm
    · rw [Option.map_some, if_neg hi]
      exact .same _

/-- The change of an account, seen at a request. -/
theorem AccountChange.request {s : State} {up : StateUpdate} {u : UserId} {c : Currency}
    {a a' : Option UserCurrencyInfo} (h : AccountChange s up u c a a') (i : WithdrawalRequestId) :
    RequestChange s up u c i (requestIn a i) (requestIn a' i) := by
  cases h with
  | same => exact .same _
  | opened => exact .same _
  | closed j token hb hc hbal =>
    cases hr : requestIn (some j) i with
    | none => exact .same _
    | some r => exact .dropped r token hc
  | requested j info hb hu hc hl =>
    simp only [requestIn, Option.bind_some, UserCurrencyInfo.insertRequest, AssocMap.get?_insert]
    by_cases hi : i = info.id
    · rw [if_pos hi]
      exact .created _ info hb hi.symm hu hc
    · rw [if_neg hi]
      exact .same _
  | voted j d r r' confirmed hb hu hc hr ha =>
    simp only [requestIn, Option.bind_some, AssocMap.get?_modify]
    by_cases hi : i = d.requestId
    · subst hi
      rw [if_pos rfl, hr]
      exact .voted r r' d confirmed hb hu hc rfl ha
    · rw [if_neg hi]
      exact .same _
  | completed j info hb =>
    simp only [requestIn, Option.bind_some, get?_setRequestStatus]
    exact requestChange_setStatus _ (fun r hi => .completed r info hb hi)
  | nodeRejected j info hb =>
    simp only [requestIn, Option.bind_some, get?_setRequestStatus]
    exact requestChange_setStatus _ (fun r hi => .nodeRejected r info hb hi)
  | addressed j address hb hc hn => exact .same _
  | deposited j tx hb hc =>
    rw [UserCurrencyInfo.updateBtcTx_eq]
    exact .same _
  | canceled j tx owner rid hb ho hrid =>
    have hsame : (if owner then j.cancelBtcTx tx else j).withdrawalRequests = j.withdrawalRequests := by
      cases owner <;> rfl
    cases rid with
    | none =>
      simp only [requestIn, Option.bind_some, UserCurrencyInfo.afterCancel, Option.elim_none, hsame]
      exact .same _
    | some id =>
      simp only [requestIn, Option.bind_some, UserCurrencyInfo.afterCancel, Option.elim_some, get?_setRequestStatus, hsame]
      exact requestChange_setStatus _ (fun r hi => .canceled r tx hb (hi ▸ hrid id rfl))
  | limited j lcd hb hu hc ht => exact .same _
  | cleared j span hb =>
    rw [UserCurrencyInfo.clearLimit_eq]
    exact .same _
  | ordered j req hb hu hc hbal => exact .same _
  | exchanged j k req ex ex' completes hb hu hk hex ha =>
    rw [UserCurrencyInfo.afterExchange_eq]
    exact .same _

/-- What an accepted update, other than a snapshot, does to a request. -/
theorem applyUpdate_request {s s' : State} {o : Oracle} {up : StateUpdate} {res : Option UpdateResult}
    (h : s.applyUpdate o up = (s', .ok res)) (hs : ¬up.body.IsSnapshot) (u : UserId) (c : Currency)
    (i : WithdrawalRequestId) : RequestChange s up u c i (s.request? u c i) (s'.request? u c i) :=
  (applyUpdate_account h hs u c).request i

/-! ## What an update answers -/

/-- The answer to a new request: the request itself if it is under the limit. -/
def createResult (created : NaiveDateTime) (info : WithdrawalRequestInfo) : Option UpdateResult :=
  match info.requestType with
  | .underLimit => some (.withdrawalUnderlimit (.ofInfo created info))
  | .overLimit => none

/-- A new request that is accepted is in the account it names from then on. -/
theorem applyUpdate_create {s s' : State} {o : Oracle} {up : StateUpdate} {res : Option UpdateResult}
    {info : WithdrawalRequestInfo} (h : s.applyUpdate o up = (s', .ok res)) (hb : up.body = .createWithdrawalRequest info) :
    res = createResult up.created info ∧
      s'.request? info.user info.address.currency info.id = some (.ofInfo up.created info) ∧
      ∃ i, s.currency? info.user info.address.currency = some i ∧
        (info.requestType = .underLimit → i.limitInfo.spent + info.amount ≤ i.limitInfo.limit.amount) := by
  unfold State.applyUpdate at h
  rw [hb] at h
  obtain ⟨s₁, a, hm, rfl, rfl⟩ := State.stamped_eq_ok h
  unfold State.withNewWithdrawalRequest at hm
  simp only [WithdrawalRequest.ofInfo] at hm
  cases hu : s.users.get? info.user with
  | none => simp [hu] at hm
  | some ui =>
    simp only [hu] at hm
    cases hc : ui.currencies.get? info.address.currency with
    | none => simp [hc] at hm
    | some i =>
      simp only [hc] at hm
      have hi : s.currency? info.user info.address.currency = some i := by rw [State.currency?_of_get? hu, hc]
      have hreq : ∀ r, (s.modifyCurrency info.user info.address.currency (·.insertRequest info.id r)).request?
          info.user info.address.currency info.id = some r := by
        intro r
        rw [State.request?, State.currency?_modifyCurrency, if_pos ⟨rfl, rfl⟩, hi]
        simp [UserCurrencyInfo.insertRequest]
      cases ht : info.requestType with
      | underLimit =>
        simp only [ht] at hm
        by_cases hl : i.limitInfo.limit.amount < i.limitInfo.spent + info.amount
        · simp [hl] at hm
        · rw [if_neg hl] at hm
          simp only [Prod.mk.injEq, Except.ok.injEq] at hm
          obtain ⟨rfl, rfl⟩ := hm
          exact ⟨by simp [createResult, ht, WithdrawalRequest.ofInfo],
            (hreq _).trans (by rw [WithdrawalRequest.ofInfo, ht]), i, hi, fun _ => UInt64.not_lt.mp hl⟩
      | overLimit =>
        simp only [ht, Prod.mk.injEq, Except.ok.injEq] at hm
        obtain ⟨rfl, rfl⟩ := hm
        exact ⟨by simp [createResult, ht], (hreq _).trans (by rw [WithdrawalRequest.ofInfo, ht]), i, hi,
          fun hc => by cases hc⟩

/-- A decision that is accepted is a vote on a request of the State, and answers its id if it confirms it. -/
theorem applyUpdate_decision {s s' : State} {o : Oracle} {up : StateUpdate} {res : Option UpdateResult}
    {d : WithdrawalRequestDecisionInfo} (h : s.applyUpdate o up = (s', .ok res))
    (hb : up.body = .withdrawalRequestDecision d) :
    ∃ r r' confirmed, s.request? d.userId d.currency d.requestId = some r ∧
      r.applyDecision d = .ok (r', confirmed) ∧ s'.request? d.userId d.currency d.requestId = some r' ∧
      res = confirmed.map .withdrawConfirmed := by
  unfold State.applyUpdate at h
  rw [hb] at h
  obtain ⟨s₁, a, hm, rfl, rfl⟩ := State.stamped_eq_ok h
  obtain ⟨i, r, r', hi, hr, ha, rfl⟩ := State.withWithdrawalRequestDecision_eq_ok hm
  refine ⟨r, r', a, by rw [State.request?_of_currency? hi, hr], ha, ?_, rfl⟩
  change State.request? (s.modifyCurrency _ _ _) _ _ _ = _
  rw [State.request?, State.currency?_modifyCurrency, if_pos ⟨rfl, rfl⟩, hi]
  simp [hr]

/-- A decision that the vote takes is accepted. -/
theorem exists_applyUpdate_decision {s : State} {o : Oracle} {up : StateUpdate} {d : WithdrawalRequestDecisionInfo}
    {r r' : WithdrawalRequest} {confirmed : Option WithdrawalRequestId} (hb : up.body = .withdrawalRequestDecision d)
    (hr : s.request? d.userId d.currency d.requestId = some r) (ha : r.applyDecision d = .ok (r', confirmed)) :
    ∃ s', s.applyUpdate o up = (s', .ok (confirmed.map .withdrawConfirmed)) ∧
      s'.request? d.userId d.currency d.requestId = some r' := by
  obtain ⟨i, hi, hget⟩ := State.request?_eq_some hr
  obtain ⟨ui, hui, hcur⟩ := Option.bind_eq_some_iff.mp hi
  have hfound : s.getWithdrawalRequestByDecisionInfo d = .ok r := by
    simp only [State.getWithdrawalRequestByDecisionInfo, hui, hcur, hget]
  have happly : ∃ s', s.applyUpdate o up = (s', .ok (confirmed.map .withdrawConfirmed)) := by
    unfold State.applyUpdate
    rw [hb]
    simp only [State.withWithdrawalRequestDecision, hfound, ha]
    exact ⟨_, rfl⟩
  obtain ⟨s', hs'⟩ := happly
  obtain ⟨r₁, r₁', confirmed₁, hr₁, ha₁, hr', -⟩ := applyUpdate_decision hs' hb
  obtain rfl := Option.some.inj (hr.symm.trans hr₁)
  obtain ⟨rfl, -⟩ := Prod.mk.inj (Except.ok.inj (ha.symm.trans ha₁))
  exact ⟨s', hs', hr'⟩

/-- Every other update answers nothing. -/
theorem applyUpdate_result {s s' : State} {o : Oracle} {up : StateUpdate} {res : UpdateResult}
    (h : s.applyUpdate o up = (s', .ok (some res))) :
    (∃ info, up.body = .createWithdrawalRequest info ∧ info.requestType = .underLimit ∧
        res = .withdrawalUnderlimit (.ofInfo up.created info)) ∨
      (∃ d r r' id, up.body = .withdrawalRequestDecision d ∧ s.request? d.userId d.currency d.requestId = some r ∧
        r.applyDecision d = .ok (r', some id) ∧ s'.request? d.userId d.currency d.requestId = some r' ∧
        res = .withdrawConfirmed id) := by
  cases hb : up.body with
  | createWithdrawalRequest info =>
    left
    have hres := (applyUpdate_create h hb).1
    cases ht : info.requestType with
    | underLimit =>
      simp only [createResult, ht, Option.some.injEq] at hres
      exact ⟨info, rfl, ht, hres⟩
    | overLimit => simp [createResult, ht] at hres
  | withdrawalRequestDecision d =>
    right
    obtain ⟨r, r', confirmed, hr, ha, hr', hres⟩ := applyUpdate_decision h hb
    obtain ⟨id, rfl, hid⟩ := Option.map_eq_some_iff.mp hres.symm
    exact ⟨d, r, r', id, rfl, hr, ha, hr', hid.symm⟩
  | _ =>
    unfold State.applyUpdate at h
    rw [hb] at h
    obtain ⟨_, _, _, _, hres⟩ := State.stamped_eq_ok h
    cases hres

end Hexstody
