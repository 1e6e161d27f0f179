import Hexstody.Lemmas.Journal
import Hexstody.Library.Counting

/-!
# What is withdrawn under the limit in a period

A period of an account is the time since its limit was last cleared or changed, or since the account is there. The journal says
which requests under the limit were accepted in it (`Journal.period`), and the State what each counts for (`State.total`): its
amount, unless it was rejected. What is spent of a limit is a field of its own, which nothing ever adds to
(`spent_of_reachable`).
-/

namespace Hexstody

/-- What a request counts for: its amount, unless it is rejected. -/
def WithdrawalRequest.spent (r : WithdrawalRequest) : Nat := if r.isRejected then 0 else r.amount.toNat

/-- What the request with an id counts for, if it is there. -/
def State.spentOn (s : State) (u : UserId) (c : Currency) (id : WithdrawalRequestId) : Nat :=
  ((s.request? u c id).map WithdrawalRequest.spent).getD 0

/-- What some requests of an account count for. -/
def State.total (s : State) (u : UserId) (c : Currency) (ids : List WithdrawalRequestId) : Nat := (ids.map (s.spentOn u c)).sum

/-! ## Periods -/

/-- For each account the requests under the limit that were accepted in its period. -/
abbrev Period : Type := UserId → Currency → List WithdrawalRequestId

/-- The update, when it is accepted, clears or changes the limit of an account. -/
def State.beginsPeriod (s : State) (u : UserId) (c : Currency) (i : UserCurrencyInfo) : UpdateBody → Bool
  | .clearLimits span => i.limitInfo.limit.span == span
  | .limitChangeDecision lcd => lcd.user == u && lcd.currency == c && s.completesLimit lcd
  | _ => false

/-- The request under the limit that an update creates in an account. -/
def UpdateBody.underLimitIn (u : UserId) (c : Currency) : UpdateBody → Option WithdrawalRequestId
  | .createWithdrawalRequest info =>
    if info.requestType = .underLimit ∧ info.user = u ∧ info.address.currency = c then some info.id else none
  | _ => none

/-- The periods after an accepted update. -/
def Period.after (p : Period) (s : State) (b : UpdateBody) : Period := fun u c =>
  match s.currency? u c with
  | none => []
  | some i => if s.beginsPeriod u c i b then [] else p u c ++ (b.underLimitIn u c).toList

/-- The State and the periods after some rows. -/
def periods (now : NaiveDateTime) (genesisHash : String) (rows : List Row) : State × Period :=
  rows.foldl (fun sp row => ((sp.1.applyUpdate row.oracle row.update).1, sp.2.after sp.1 row.update.body))
    (State.new now genesisHash, fun _ _ => [])

/-- The periods of a journal that began with the empty State. -/
def Journal.period (now : NaiveDateTime) (genesisHash : String) (j : Journal) : Period := (periods now genesisHash j.rows).2

/-! ## What an update does to a limit, and to what is spent of it -/

section

variable {s s' : State} {o : Oracle} {up : StateUpdate} {u : UserId} {c : Currency} {i i' : UserCurrencyInfo}

/-- The limit of an account stays as it is, or a period begins. -/
theorem AccountChange.limit (h : AccountChange s up u c (some i) (some i')) :
    i'.limitInfo.limit = i.limitInfo.limit ∨ s.beginsPeriod u c i up.body = true := by
  cases h with
  | same => exact Or.inl rfl
  | requested _ info hb hu hc hl => exact Or.inl rfl
  | voted _ d r r' confirmed hb hu hc hr ha => exact Or.inl rfl
  | completed _ info hb => exact Or.inl rfl
  | nodeRejected _ info hb => exact Or.inl rfl
  | addressed _ address hb hc hn => exact Or.inl rfl
  | deposited _ tx hb hc =>
    rw [UserCurrencyInfo.updateBtcTx_eq]
    exact Or.inl rfl
  | canceled _ tx owner rid hb ho hrid =>
    rw [UserCurrencyInfo.afterCancel_eq]
    exact Or.inl rfl
  | limited _ lcd hb hu hc hcompletes =>
    refine Or.inr ?_
    rw [hb]
    simp [State.beginsPeriod, hu, hc, hcompletes]
  | cleared _ span hb =>
    rw [UserCurrencyInfo.clearLimit_eq]
    exact Or.inl rfl
  | ordered _ req hb hu hc hbal => exact Or.inl rfl
  | exchanged _ j req ex ex' completes hb hu hk hex ha =>
    rw [UserCurrencyInfo.afterExchange_eq]
    exact Or.inl rfl

/-- Nothing is added to what is spent. -/
theorem AccountChange.spent (h : AccountChange s up u c (some i) (some i')) :
    i'.limitInfo.spent = i.limitInfo.spent ∨ i'.limitInfo.spent = 0 := by
  cases h with
  | same => exact Or.inl rfl
  | requested _ info hb hu hc hl => exact Or.inl rfl
  | voted _ d r r' confirmed hb hu hc hr ha => exact Or.inl rfl
  | completed _ info hb => exact Or.inl rfl
  | nodeRejected _ info hb => exact Or.inl rfl
  | addressed _ address hb hc hn => exact Or.inl rfl
  | deposited _ tx hb hc =>
    rw [UserCurrencyInfo.updateBtcTx_eq]
    exact Or.inl rfl
  | canceled _ tx owner rid hb ho hrid =>
    rw [UserCurrencyInfo.afterCancel_eq]
    exact Or.inl rfl
  | limited _ lcd hb hu hc hcompletes => exact Or.inr rfl
  | cleared _ span hb =>
    unfold UserCurrencyInfo.clearLimit
    by_cases hs : i.limitInfo.limit.span = span
    · rw [if_pos hs]
      exact Or.inr rfl
    · rw [if_neg hs]
      exact Or.inl rfl
  | ordered _ req hb hu hc hbal => exact Or.inl rfl
  | exchanged _ j req ex ex' completes hb hu hk hex ha =>
    rw [UserCurrencyInfo.afterExchange_eq]
    exact Or.inl rfl

/-- What a request that is not new counts for does not grow, unless the update completes it after it was rejected. -/
theorem spentOn_le {res : Option UpdateResult} {id : WithdrawalRequestId} (h : s.applyUpdate o up = (s', .ok res))
    (hs : ¬up.body.IsSnapshot) (hnew : ∀ info, up.body = .createWithdrawalRequest info → info.id ≠ id)
    (hrej : ∀ info, up.body = .withdrawalRequestComplete info → info.id = id →
      ∀ r, s.request? u c id = some r → r.isRejected = false) : s'.spentOn u c id ≤ s.spentOn u c id := by
  have hch := applyUpdate_request h hs u c id
  unfold State.spentOn
  generalize hb : s.request? u c id = before at hch
  generalize s'.request? u c id = after at hch
  cases hch with
  | same => exact le_rfl
  | dropped r token _ => exact Nat.zero_le _
  | created _ info hbody hi _ _ => exact absurd hi (hnew info hbody)
  | voted r r' d confirmed hbody _ _ _ hd =>
    obtain ⟨n, hst, -⟩ := WithdrawalRequest.applyDecision_eq_ok hd
    have hr : r.spent = r.amount.toNat := by simp [WithdrawalRequest.spent, WithdrawalRequest.isRejected, hst]
    have hr' : r'.spent ≤ r'.amount.toNat := by
      unfold WithdrawalRequest.spent
      split <;> omega
    rw [(WithdrawalRequest.applyDecision_sameOrder hd).amount] at hr'
    simp only [Option.map_some, Option.getD_some]
    omega
  | completed r info hbody hi =>
    have hnot := hrej info hbody hi r hb
    have hr : r.spent = r.amount.toNat := by
      rw [WithdrawalRequest.spent, hnot]
      rfl
    exact hr.ge
  | nodeRejected r info hbody hi => exact Nat.zero_le _
  | canceled r tx hbody hown => exact Nat.zero_le _

/-- A new request counts for its amount at most. -/
theorem spentOn_created {res : Option UpdateResult} {info : WithdrawalRequestInfo} (h : s.applyUpdate o up = (s', .ok res))
    (hb : up.body = .createWithdrawalRequest info) :
    s'.spentOn info.user info.address.currency info.id ≤ info.amount.toNat := by
  obtain ⟨-, hr, -⟩ := applyUpdate_create h hb
  have hspent : (WithdrawalRequest.ofInfo up.created info).spent = info.amount.toNat := rfl
  rw [State.spentOn, hr, Option.map_some, Option.getD_some, hspent]

end

end Hexstody
