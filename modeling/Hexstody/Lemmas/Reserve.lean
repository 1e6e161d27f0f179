import Hexstody.Lemmas.Balance

/-!
# What is held back for the fees

A withdrawal takes its amount from the account when it is accepted, and its fee only when it is completed. In between a part of the
account is spoken for (`WithdrawalRequest.held`), as much as a given assignment reserves for the request; what is free of the
account is what it is worth less that. The code reserves nothing. What each change of an account does to what is free says when
that does no harm.
-/

namespace Hexstody

variable {reserve : WithdrawalRequestId → Nat}

/-- What is held back for a request while it is open. -/
def WithdrawalRequest.held (reserve : WithdrawalRequestId → Nat) (r : WithdrawalRequest) : Int :=
  if r.isOpen then reserve r.id else 0

namespace WithdrawalRequest

variable {r r' : WithdrawalRequest}

theorem held_nonneg (r : WithdrawalRequest) : 0 ≤ r.held reserve := by
  unfold held
  split <;> omega

theorem held_of_isOpen (h : r.isOpen = true) : r.held reserve = reserve r.id := if_pos h

theorem held_of_not_isOpen (h : r.isOpen = false) : r.held reserve = 0 := by rw [held, h, if_neg Bool.false_ne_true]

/-- An open request takes its amount. -/
theorem debit_of_isOpen (h : r.isOpen = true) : r.debit = r.amount.toNat := by
  unfold isOpen at h
  unfold debit isRejected fee
  cases hst : r.status <;> simp [hst] at h ⊢

/-- A request that is voted on is open. -/
theorem isOpen_of_applyDecision {d : WithdrawalRequestDecisionInfo} {confirmed : Option WithdrawalRequestId}
    (h : r.applyDecision d = .ok (r', confirmed)) : r.isOpen = true := by
  obtain ⟨n, hst, -⟩ := applyDecision_eq_ok h
  rw [isOpen, hst]

/-- A vote holds no more back. -/
theorem applyDecision_held {d : WithdrawalRequestDecisionInfo} {confirmed : Option WithdrawalRequestId}
    (h : r.applyDecision d = .ok (r', confirmed)) : r'.held reserve ≤ r.held reserve := by
  rw [held_of_isOpen (isOpen_of_applyDecision h), ← (applyDecision_sameOrder h).id]
  unfold held
  split <;> omega

end WithdrawalRequest

namespace UserCurrencyInfo

variable {i i' : UserCurrencyInfo}

/-- What is held back of an account. -/
def held (reserve : WithdrawalRequestId → Nat) (i : UserCurrencyInfo) : Int :=
  i.withdrawalRequests.sumVals (WithdrawalRequest.held reserve)

/-- What an account is worth, less what is held back. -/
def free (reserve : WithdrawalRequestId → Nat) (i : UserCurrencyInfo) : Int := i.netBalance - i.held reserve

/-- No request is open. -/
def NoneOpen (i : UserCurrencyInfo) : Prop := ∀ r ∈ i.withdrawalRequests.values, r.isOpen = false

instance (i : UserCurrencyInfo) : Decidable i.NoneOpen := inferInstanceAs (Decidable (∀ r ∈ i.withdrawalRequests.values, _))

theorem free_le_netBalance (i : UserCurrencyInfo) : i.free reserve ≤ i.netBalance := by
  have hheld : 0 ≤ i.held reserve := AssocMap.sumVals_nonneg i.withdrawalRequests WithdrawalRequest.held_nonneg
  unfold free
  omega

/-- Where no request is open, nothing is held back. -/
theorem NoneOpen.free_eq (h : i.NoneOpen) : i.free reserve = i.netBalance := by
  have hheld : i.held reserve = 0 := AssocMap.sumVals_eq_zero (fun r hr => WithdrawalRequest.held_of_not_isOpen (h r hr))
  rw [free, hheld, Int.sub_zero]

/-- A change that leaves the requests as they are frees what it brings. -/
theorem free_le_of_requests_eq (h : i'.withdrawalRequests = i.withdrawalRequests) (hn : i.netBalance ≤ i'.netBalance) :
    i.free reserve ≤ i'.free reserve := by
  unfold free held
  rw [h]
  omega

/-- A new request takes what it takes and holds back. -/
theorem free_insertRequest (i : UserCurrencyInfo) (id : WithdrawalRequestId) (r : WithdrawalRequest) :
    i.free reserve - r.debit - r.held reserve ≤ (i.insertRequest id r).free reserve := by
  have hnet := netBalance_insertRequest i id r
  have hheld := AssocMap.sumVals_insert_add i.withdrawalRequests (WithdrawalRequest.held reserve) id r
  have hold : 0 ≤ (i.withdrawalRequests.get? id).elim 0 WithdrawalRequest.debit ∧
      0 ≤ (i.withdrawalRequests.get? id).elim 0 (WithdrawalRequest.held reserve) := by
    cases i.withdrawalRequests.get? id with
    | none => exact ⟨le_rfl, le_rfl⟩
    | some r₀ => exact ⟨r₀.debit_nonneg, r₀.held_nonneg⟩
  change i.netBalance - i.held reserve - r.debit - r.held reserve ≤ (i.insertRequest id r).netBalance -
    (i.withdrawalRequests.insert id r).sumVals (WithdrawalRequest.held reserve)
  unfold held
  omega

/-- A change of a request that does not make it take and hold back more leaves as much free. -/
theorem free_modifyRequest {id : WithdrawalRequestId} {f : WithdrawalRequest → WithdrawalRequest}
    (h : ∀ r, i.withdrawalRequests.get? id = some r → (f r).debit + (f r).held reserve ≤ r.debit + r.held reserve) :
    i.free reserve ≤ free reserve { i with withdrawalRequests := i.withdrawalRequests.modify id f } := by
  have hnet := netBalance_modifyRequest i id f
  have hheld := AssocMap.sumVals_modify_add i.withdrawalRequests (WithdrawalRequest.held reserve) id f
  change i.netBalance - i.held reserve ≤ netBalance { i with withdrawalRequests := i.withdrawalRequests.modify id f } -
    (i.withdrawalRequests.modify id f).sumVals (WithdrawalRequest.held reserve)
  unfold held
  cases hr : i.withdrawalRequests.get? id with
  | none =>
    rw [hr] at hnet hheld
    simp only [Option.map_none, Option.elim_none] at hnet hheld
    omega
  | some r =>
    have hle := h r hr
    rw [hr] at hnet hheld
    simp only [Option.map_some, Option.elim_some] at hnet hheld
    omega

/-- The same of a change of status. -/
theorem free_setRequestStatus {id : WithdrawalRequestId} {st : WithdrawalRequestStatus}
    (h : ∀ r, i.withdrawalRequests.get? id = some r →
      ({ r with status := st } : WithdrawalRequest).debit + ({ r with status := st } : WithdrawalRequest).held reserve ≤
        r.debit + r.held reserve) : i.free reserve ≤ (i.setRequestStatus id st).free reserve :=
  free_modifyRequest (f := fun r => { r with status := st }) h

/-- A request that the node rejects takes and holds back nothing. -/
theorem free_nodeRejected (i : UserCurrencyInfo) (id : WithdrawalRequestId) (reason : String) :
    i.free reserve ≤ (i.setRequestStatus id (.nodeRejected reason)).free reserve := by
  refine free_setRequestStatus (fun r _ => ?_)
  have hd := r.debit_nonneg
  have hh : 0 ≤ r.held reserve := r.held_nonneg
  have hzero : ({ r with status := .nodeRejected reason } : WithdrawalRequest).debit = 0 := rfl
  have hzero' : ({ r with status := .nodeRejected reason } : WithdrawalRequest).held reserve = 0 := rfl
  omega

/-- A request that is completed while it is open takes a fee within what is held back for it. -/
theorem free_completed (i : UserCurrencyInfo) {info : WithdrawCompleteInfo}
    (h : ∀ r, i.withdrawalRequests.get? info.id = some r → r.isOpen = true ∧ (info.fee.getD 0).toNat ≤ reserve r.id) :
    i.free reserve ≤ (i.setRequestStatus info.id info.toStatus).free reserve := by
  refine free_setRequestStatus (fun r hr => ?_)
  obtain ⟨hopen, hfee⟩ := h r hr
  have hd : ({ r with status := info.toStatus } : WithdrawalRequest).debit = (r.amount.toNat : Int) + (info.fee.getD 0).toNat := rfl
  have hh : ({ r with status := info.toStatus } : WithdrawalRequest).held reserve = 0 := rfl
  rw [hd, hh, WithdrawalRequest.debit_of_isOpen hopen, WithdrawalRequest.held_of_isOpen hopen]
  omega

/-! ## Open requests -/

theorem noneOpen_iff : i.NoneOpen ↔ ∀ id r, i.withdrawalRequests.get? id = some r → r.isOpen = false := by
  unfold NoneOpen
  simp only [AssocMap.mem_values_iff]
  constructor
  · intro h id r hr
    exact h r ⟨id, hr⟩
  · rintro h r ⟨id, hr⟩
    exact h id r hr

/-- A status that is not open opens no request. -/
theorem NoneOpen.setRequestStatus (h : i.NoneOpen) (id : WithdrawalRequestId) {st : WithdrawalRequestStatus}
    (hst : ∀ r : WithdrawalRequest, ({ r with status := st } : WithdrawalRequest).isOpen = false) :
    (i.setRequestStatus id st).NoneOpen := by
  rw [noneOpen_iff] at h ⊢
  intro k r hr
  change (i.withdrawalRequests.mapVals _).get? k = some r at hr
  rw [AssocMap.get?_mapVals] at hr
  obtain ⟨r₀, hr₀, rfl⟩ := Option.map_eq_some_iff.mp hr
  split
  · exact hst r₀
  · exact h k r₀ hr₀

end UserCurrencyInfo

end Hexstody
