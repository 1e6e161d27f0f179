import Hexstody.Lemmas.Users

/-!
# What an update does to the invites

A sign-up takes the invite that it carries from the State, a generated invite is put there, and no other update changes the invites
(`InviteChange`).
-/

namespace Hexstody

/-- A change of the invites by an update. -/
inductive InviteChange (s : State) (up : StateUpdate) (s' : State) : Prop where
  | taken (info : SignupInfo) (r : InviteRec) : up.body = .signup info → s.users.get? info.username = none →
      s.invites.get? info.invite = some r → s'.invites = s.invites.erase info.invite →
      s'.users.get? info.username = some (UserInfo.new info.username info.invite info.auth up.created) → InviteChange s up s'
  | generated (req : InviteRec) : up.body = .genInvite req → s.invites.get? req.invite = none →
      s'.invites = s.invites.insert req.invite req → InviteChange s up s'
  | same : (∀ info, up.body ≠ .signup info) → (∀ req, up.body ≠ .genInvite req) → s'.invites = s.invites → InviteChange s up s'

namespace State

variable (s : State)

/-! ## The methods that leave them -/

theorem updateUser_invites (u : UserId) (f : UserInfo → UserInfo) : (s.updateUser u f).1.invites = s.invites := by
  unfold updateUser
  split <;> rfl

theorem withNewWithdrawalRequest_invites (t : NaiveDateTime) (info : WithdrawalRequestInfo) :
    (s.withNewWithdrawalRequest t info).1.invites = s.invites := by
  unfold withNewWithdrawalRequest
  simp only
  repeat' split
  all_goals rfl

theorem withWithdrawalRequestDecision_invites (d : WithdrawalRequestDecisionInfo) :
    (s.withWithdrawalRequestDecision d).1.invites = s.invites := by
  unfold withWithdrawalRequestDecision
  repeat' split
  all_goals rfl

theorem withDepositAddress_invites (dep : DepositAddress) : (s.withDepositAddress dep).1.invites = s.invites := by
  unfold withDepositAddress
  simp only
  repeat' split
  all_goals rfl

theorem withDepositOwner_invites (o : Oracle) (a : CurrencyAddress) (f : UserCurrencyInfo → UserCurrencyInfo) :
    (s.withDepositOwner o a f).1.invites = s.invites := by
  unfold withDepositOwner
  repeat' split
  all_goals rfl

theorem withBtcTxUpdate_invites (o : Oracle) (tx : BtcTransaction) : (s.withBtcTxUpdate o tx).1.invites = s.invites := by
  unfold withBtcTxUpdate
  simp only
  split
  · rfl
  · exact s.withDepositOwner_invites ..

theorem withBtcTxCancel_invites (o : Oracle) (tx : BtcTxCancel) : (s.withBtcTxCancel o tx).1.invites = s.invites := by
  unfold withBtcTxCancel
  by_cases h : s.isExchangeAddress (btcAddress tx.address) = true
  · simp only [h, if_true]
  · simp only [h]
    have howner := s.withDepositOwner_invites o (btcAddress tx.address) (·.cancelBtcTx tx)
    generalize s.withDepositOwner o (btcAddress tx.address) (·.cancelBtcTx tx) = out at howner ⊢
    obtain ⟨s₁, res1⟩ := out
    cases hf : s₁.findWithdrawalByTxId o (.btc { txid := tx.txid.hex }) with
    | none => cases res1 <;> simpa [hf] using howner
    | some rid => cases res1 <;> simpa [hf, setWithdrawalRequestNodeRejected, mapCurrencies] using howner

theorem updateTokens_invites (req : TokenUpdate) : (s.updateTokens req).1.invites = s.invites := by
  unfold updateTokens
  simp only
  repeat' split
  all_goals rfl

theorem insertLimitsReq_invites (o : Oracle) (req : LimitChangeUpd) : (s.insertLimitsReq o req).1.invites = s.invites := by
  unfold insertLimitsReq
  repeat' split
  all_goals rfl

theorem withLimitChangeDecision_invites (lcd : LimitChangeDecision) : (s.withLimitChangeDecision lcd).1.invites = s.invites := by
  unfold withLimitChangeDecision
  repeat' split
  all_goals rfl

theorem addExchangeRequest_invites (req : ExchangeOrderUpd) : (s.addExchangeRequest req).1.invites = s.invites := by
  unfold addExchangeRequest
  repeat' split
  all_goals rfl

theorem applyExchangeDecision_invites (req : ExchangeDecision) : (s.applyExchangeDecision req).1.invites = s.invites := by
  unfold applyExchangeDecision
  repeat' split
  all_goals rfl

theorem addIncomingExchange_invites (req : ExchangeDecision) : (s.addIncomingExchange req).1.invites = s.invites := by
  unfold addIncomingExchange
  repeat' split
  all_goals rfl

theorem withExchangeDecision_invites (req : ExchangeDecision) : (s.withExchangeDecision req).1.invites = s.invites := by
  have happly := s.applyExchangeDecision_invites req
  unfold withExchangeDecision
  generalize s.applyExchangeDecision req = out at happly ⊢
  obtain ⟨s₁, res⟩ := out
  cases res with
  | error e => exact happly
  | ok completes =>
    cases completes with
    | false => exact happly
    | true => exact (s₁.addIncomingExchange_invites req).trans happly

variable {s} {s' : State} {o : Oracle} {up : StateUpdate} {res : Option UpdateResult}

/-! ## The two that change them -/

theorem genInvite_eq_ok {req : InviteRec} (h : s.genInvite req = (s', .ok ())) :
    s.invites.get? req.invite = none ∧ s' = { s with invites := s.invites.insert req.invite req } := by
  unfold genInvite at h
  cases hr : s.invites.get? req.invite with
  | some r => simp [hr] at h
  | none =>
    rw [hr] at h
    exact ⟨rfl, (Prod.mk.inj h).1.symm⟩

theorem invites_of_stamped {β : Type} {created : NaiveDateTime} {out : Outcome β} {f : β → Option UpdateResult}
    (h : stamped created out f = (s', .ok res)) (hm : out.1.invites = s.invites) : s'.invites = s.invites := by
  obtain ⟨s₁, a, rfl, rfl, -⟩ := stamped_eq_ok h
  exact hm

end State

open State in
/-- What an accepted update, other than a snapshot, does to the invites. -/
theorem applyUpdate_invites {s s' : State} {o : Oracle} {up : StateUpdate} {res : Option UpdateResult}
    (h : s.applyUpdate o up = (s', .ok res)) (hs : ¬up.body.IsSnapshot) : InviteChange s up s' := by
  have other : (∀ info, up.body ≠ .signup info) → (∀ req, up.body ≠ .genInvite req) → s'.invites = s.invites →
    InviteChange s up s' := InviteChange.same
  cases hb : up.body with
  | snapshot s₀ => exact absurd (by rw [hb]; trivial) hs
  | signup info =>
    obtain ⟨hnone, ⟨r, hr⟩, rfl⟩ := applyUpdate_signup h hb
    exact .taken info r hb hnone hr rfl (AssocMap.get?_insert_self ..)
  | genInvite req =>
    unfold State.applyUpdate at h
    rw [hb] at h
    obtain ⟨s₁, a, hout, rfl, -⟩ := stamped_eq_ok h
    obtain ⟨hnone, rfl⟩ := genInvite_eq_ok hout
    exact .generated req hb hnone rfl
  | _ =>
    refine other (by rw [hb]; nofun) (by rw [hb]; nofun) ?_
    unfold State.applyUpdate at h
    rw [hb] at h
    refine invites_of_stamped h ?_
    first
    | rfl
    | exact s.updateUser_invites ..
    | exact s.withNewWithdrawalRequest_invites ..
    | exact s.withWithdrawalRequestDecision_invites ..
    | exact s.withDepositAddress_invites ..
    | exact s.withBtcTxUpdate_invites ..
    | exact s.withBtcTxCancel_invites ..
    | exact s.updateTokens_invites ..
    | exact s.insertLimitsReq_invites ..
    | exact s.withLimitChangeDecision_invites ..
    | exact s.addExchangeRequest_invites ..
    | exact s.withExchangeDecision_invites ..

end Hexstody
