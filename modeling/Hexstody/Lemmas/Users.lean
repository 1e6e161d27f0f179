import Hexstody.Lemmas.Account

/-!
# What an update does to a user besides the accounts

A part of a user that the accounts are no part of (`Apart`: the name, the pending changes of limits, the settings) is left as it
is by every method that only works on accounts, whatever the part is: one lemma for each method, with the part as a parameter
(`State.part`). The lemmas on the pending changes of limits, and on what is settled at the sign-up (`Steady`), are instances.
-/

namespace Hexstody

/-- A part of a user that the accounts are no part of. -/
def Apart {α : Type} (p : UserInfo → α) : Prop := ∀ ui cs, p { ui with currencies := cs } = p ui

namespace State

variable {α : Type} {p : UserInfo → α} {s s' : State} {u : UserId}

/-- A part of a user, if there is one. -/
def part (s : State) (u : UserId) (p : UserInfo → α) : Option α := (s.users.get? u).map p

/-- What a change of a user does to a part. -/
theorem part_modifyUser (s : State) (u u' : UserId) (f : UserInfo → UserInfo) :
    (s.modifyUser u' f).part u p = if u = u' then (s.users.get? u).map (fun ui => p (f ui)) else s.part u p := by
  simp only [modifyUser, part, AssocMap.get?_modify]
  by_cases h : u = u'
  · rw [if_pos h, if_pos h, Option.map_map]
    rfl
  · rw [if_neg h, if_neg h]

theorem part_modifyUser_same (s : State) (u' : UserId) (f : UserInfo → UserInfo) (hf : ∀ ui, p (f ui) = p ui) :
    (s.modifyUser u' f).part u p = s.part u p := by
  rw [part_modifyUser]
  by_cases h : u = u'
  · rw [if_pos h]
    simp only [hf]
    rfl
  · rw [if_neg h]

theorem part_updateUser_same (s : State) (user : UserId) (f : UserInfo → UserInfo) (hf : ∀ ui, p (f ui) = p ui) :
    (s.updateUser user f).1.part u p = s.part u p := by
  unfold updateUser
  split
  · exact part_modifyUser_same s user f hf
  · rfl

theorem part_genInvite (s : State) (req : InviteRec) : (s.genInvite req).1.part u p = s.part u p := by
  unfold genInvite
  split <;> rfl

/-- A sign-up is of a user who is not there, and leaves the others as they are. -/
theorem part_withSignup (s : State) (t : NaiveDateTime) (info : SignupInfo) :
    (s.withSignup t info).1.part u p = s.part u p ∨
      (u = info.username ∧ s.users.get? u = none ∧
        (s.withSignup t info).1.part u p = some (p (UserInfo.new info.username info.invite info.auth t))) := by
  unfold withSignup
  by_cases h : s.users.contains info.username = true
  · rw [if_pos h]
    exact Or.inl rfl
  · rw [if_neg h]
    split
    · exact Or.inl rfl
    · simp only [part, AssocMap.get?_insert]
      by_cases hu : u = info.username
      · refine Or.inr ⟨hu, ?_, ?_⟩
        · rw [hu]
          simpa [AssocMap.contains] using h
        · rw [if_pos hu]
          rfl
      · rw [if_neg hu]
        exact Or.inl rfl

/-! ## The methods that work on accounts -/

section Accounts

variable (hp : Apart p)

include hp

theorem part_modifyCurrency (s : State) (u' : UserId) (c : Currency) (f : UserCurrencyInfo → UserCurrencyInfo) :
    (s.modifyCurrency u' c f).part u p = s.part u p :=
  part_modifyUser_same s u' _ (fun ui => hp ui _)

theorem part_mapCurrencies (s : State) (f : UserCurrencyInfo → UserCurrencyInfo) :
    (s.mapCurrencies f).part u p = s.part u p := by
  simp only [mapCurrencies, part, AssocMap.get?_mapVals, Option.map_map]
  exact congrArg (Option.map · _) (funext fun ui => hp ui _)

theorem part_withNewWithdrawalRequest (s : State) (t : NaiveDateTime) (info : WithdrawalRequestInfo) :
    (s.withNewWithdrawalRequest t info).1.part u p = s.part u p := by
  unfold withNewWithdrawalRequest
  simp only
  repeat' split
  all_goals first | rfl | exact part_modifyCurrency hp ..

theorem part_withWithdrawalRequestDecision (s : State) (d : WithdrawalRequestDecisionInfo) :
    (s.withWithdrawalRequestDecision d).1.part u p = s.part u p := by
  unfold withWithdrawalRequestDecision
  repeat' split
  all_goals first | rfl | exact part_modifyCurrency hp ..

theorem part_withDepositAddress (s : State) (dep : DepositAddress) :
    (s.withDepositAddress dep).1.part u p = s.part u p := by
  unfold withDepositAddress
  simp only
  repeat' split
  all_goals first | rfl | exact part_modifyCurrency hp ..

theorem part_withDepositOwner (s : State) (o : Oracle) (a : CurrencyAddress) (f : UserCurrencyInfo → UserCurrencyInfo) :
    (s.withDepositOwner o a f).1.part u p = s.part u p := by
  unfold withDepositOwner
  repeat' split
  all_goals first | rfl | exact part_modifyCurrency hp ..

theorem part_withBtcTxUpdate (s : State) (o : Oracle) (tx : BtcTransaction) :
    (s.withBtcTxUpdate o tx).1.part u p = s.part u p := by
  unfold withBtcTxUpdate
  simp only
  split
  · rfl
  · exact part_withDepositOwner hp ..

theorem part_withBtcTxCancel (s : State) (o : Oracle) (tx : BtcTxCancel) :
    (s.withBtcTxCancel o tx).1.part u p = s.part u p := by
  unfold withBtcTxCancel
  by_cases h : s.isExchangeAddress (btcAddress tx.address) = true
  · simp only [h, if_true]
    rfl
  · simp only [h]
    have howner := part_withDepositOwner (u := u) hp s o (btcAddress tx.address) (·.cancelBtcTx tx)
    generalize s.withDepositOwner o (btcAddress tx.address) (·.cancelBtcTx tx) = out at howner ⊢
    obtain ⟨s₁, res1⟩ := out
    have hmap := part_mapCurrencies (u := u) hp s₁
    cases hf : s₁.findWithdrawalByTxId o (.btc { txid := tx.txid.hex }) with
    | none => cases res1 <;> simpa [hf] using howner
    | some rid => cases res1 <;> simpa [hf, setWithdrawalRequestNodeRejected, hmap] using howner

theorem part_addExchangeRequest (s : State) (req : ExchangeOrderUpd) :
    (s.addExchangeRequest req).1.part u p = s.part u p := by
  unfold addExchangeRequest
  repeat' split
  all_goals first | rfl | exact part_modifyCurrency hp ..

theorem part_addIncomingExchange (s : State) (req : ExchangeDecision) :
    (s.addIncomingExchange req).1.part u p = s.part u p := by
  unfold addIncomingExchange
  repeat' split
  all_goals first | rfl | exact part_modifyCurrency hp ..

theorem part_applyExchangeDecision (s : State) (req : ExchangeDecision) :
    (s.applyExchangeDecision req).1.part u p = s.part u p := by
  unfold applyExchangeDecision
  repeat' split
  all_goals first | rfl | exact part_modifyCurrency hp ..

theorem part_withExchangeDecision (s : State) (req : ExchangeDecision) :
    (s.withExchangeDecision req).1.part u p = s.part u p := by
  have happly := part_applyExchangeDecision (u := u) hp s req
  unfold withExchangeDecision
  generalize s.applyExchangeDecision req = out at happly ⊢
  obtain ⟨s₁, res⟩ := out
  cases res with
  | error e => exact happly
  | ok completes =>
    cases completes with
    | false => exact happly
    | true => exact (part_addIncomingExchange hp s₁ req).trans happly

end Accounts

/-! ## The other methods -/

/-- A decision on a limit changes a user's accounts and pending changes, and nothing else. -/
theorem part_withLimitChangeDecision (s : State) (lcd : LimitChangeDecision)
    (hp : ∀ ui cs ls, p { ui with currencies := cs, limitChangeRequests := ls } = p ui) :
    (s.withLimitChangeDecision lcd).1.part u p = s.part u p := by
  unfold withLimitChangeDecision
  repeat' split
  all_goals first | rfl | exact part_modifyUser_same _ _ _ (fun ui => hp ui _ _)

theorem part_insertLimitsReq (s : State) (o : Oracle) (req : LimitChangeUpd)
    (hp : ∀ ui ls, p { ui with limitChangeRequests := ls } = p ui) :
    (s.insertLimitsReq o req).1.part u p = s.part u p := by
  unfold insertLimitsReq
  repeat' split
  all_goals first | rfl | exact part_modifyUser_same _ _ _ (fun ui => hp ui _)

theorem part_updateTokens (s : State) (req : TokenUpdate)
    (hp : ∀ ui cs ls, p { ui with currencies := cs, limitChangeRequests := ls } = p ui) :
    (s.updateTokens req).1.part u p = s.part u p := by
  unfold updateTokens
  simp only
  repeat' split
  all_goals first | rfl | exact part_modifyUser_same _ _ _ (fun ui => hp ui _ _)

/-- What an update does, the method does. -/
theorem part_of_stamped {β : Type} {created : NaiveDateTime} {out : Outcome β} {f : β → Option UpdateResult}
    {res : Option UpdateResult} (h : stamped created out f = (s', .ok res)) (hm : out.1.part u p = s.part u p) :
    s'.part u p = s.part u p := by
  obtain ⟨s₁, a, rfl, rfl, -⟩ := stamped_eq_ok h
  exact hm

end State

/-- A part of a user that is settled at the sign-up, but perhaps for a change of the password. -/
structure Steady {α : Type} (p : UserInfo → α) : Prop where
  accounts : ∀ ui cs ls, p { ui with currencies := cs, limitChangeRequests := ls } = p ui
  config : ∀ ui c, p { ui with config := c } = p ui
  publicKey : ∀ ui k, p { ui with publicKey := k } = p ui

theorem Steady.apart {α : Type} {p : UserInfo → α} (hp : Steady p) : Apart p := fun ui cs => hp.accounts ui cs ui.limitChangeRequests

open State in
/-- An accepted update, other than a snapshot, leaves such a part; a new user has what is signed up. -/
theorem applyUpdate_steady {α : Type} {p : UserInfo → α} (hp : Steady p) {s s' : State} {o : Oracle} {up : StateUpdate}
    {res : Option UpdateResult} (hauth : (∀ ui a, p { ui with auth := a } = p ui) ∨ ∀ req, up.body ≠ .passwordChange req)
    (h : s.applyUpdate o up = (s', .ok res)) (hs : ¬up.body.IsSnapshot) (u : UserId) :
    s'.part u p = s.part u p ∨ ∃ info, up.body = .signup info ∧ info.username = u ∧ s.users.get? u = none ∧
      s'.part u p = some (p (UserInfo.new info.username info.invite info.auth up.created)) := by
  have ha := hp.apart
  unfold State.applyUpdate at h
  cases hb : up.body with
  | snapshot s₀ => exact absurd (by rw [hb]; trivial) hs
  | signup info =>
    rw [hb] at h
    obtain ⟨s₁, a, hout, rfl, -⟩ := stamped_eq_ok h
    have hpart := part_withSignup (p := p) (u := u) s up.created info
    rw [hout] at hpart
    rcases hpart with hsame | ⟨hu, hnone, hnew⟩
    · exact Or.inl hsame
    · exact Or.inr ⟨info, rfl, hu.symm, hnone, hnew⟩
  | createWithdrawalRequest info => rw [hb] at h; exact Or.inl (part_of_stamped h (part_withNewWithdrawalRequest ha ..))
  | withdrawalRequestDecision d => rw [hb] at h; exact Or.inl (part_of_stamped h (part_withWithdrawalRequestDecision ha ..))
  | withdrawalRequestComplete info => rw [hb] at h; exact Or.inl (part_of_stamped h (part_mapCurrencies ha ..))
  | withdrawalRequestNodeRejected info => rw [hb] at h; exact Or.inl (part_of_stamped h (part_mapCurrencies ha ..))
  | depositAddress dep => rw [hb] at h; exact Or.inl (part_of_stamped h (part_withDepositAddress ha ..))
  | bestBtcBlock btc => rw [hb] at h; exact Or.inl (part_of_stamped h rfl)
  | updateBtcTx tx => rw [hb] at h; exact Or.inl (part_of_stamped h (part_withBtcTxUpdate ha ..))
  | cancelBtcTx tx => rw [hb] at h; exact Or.inl (part_of_stamped h (part_withBtcTxCancel ha ..))
  | updateTokens req => rw [hb] at h; exact Or.inl (part_of_stamped h (part_updateTokens _ _ hp.accounts))
  | genInvite req => rw [hb] at h; exact Or.inl (part_of_stamped h (part_genInvite ..))
  | limitsChangeRequest req =>
    rw [hb] at h
    exact Or.inl (part_of_stamped h (part_insertLimitsReq _ _ _ fun ui ls => hp.accounts ui ui.currencies ls))
  | cancelLimitChange req =>
    rw [hb] at h
    exact Or.inl (part_of_stamped h (part_updateUser_same _ _ _ fun ui => hp.accounts ui ui.currencies _))
  | limitChangeDecision lcd => rw [hb] at h; exact Or.inl (part_of_stamped h (part_withLimitChangeDecision _ _ hp.accounts))
  | clearLimits span => rw [hb] at h; exact Or.inl (part_of_stamped h (part_mapCurrencies ha ..))
  | setLanguage req => rw [hb] at h; exact Or.inl (part_of_stamped h (part_updateUser_same _ _ _ fun ui => hp.config ui _))
  | configUpdate req => rw [hb] at h; exact Or.inl (part_of_stamped h (part_updateUser_same _ _ _ fun ui => hp.config ui _))
  | passwordChange req =>
    rcases hauth with hauth | hauth
    · rw [hb] at h
      exact Or.inl (part_of_stamped h (part_updateUser_same _ _ _ fun ui => hauth ui _))
    · exact absurd hb (hauth req)
  | setPublicKey req => rw [hb] at h; exact Or.inl (part_of_stamped h (part_updateUser_same _ _ _ fun ui => hp.publicKey ui _))
  | exchangeRequest req => rw [hb] at h; exact Or.inl (part_of_stamped h (part_addExchangeRequest ha ..))
  | exchangeDecision req => rw [hb] at h; exact Or.inl (part_of_stamped h (part_withExchangeDecision ha ..))
  | exchangeAddress req => rw [hb] at h; exact Or.inl (part_of_stamped h rfl)

/-- An accepted update, other than a snapshot, leaves the names of the users; a new user's name is the one that is signed up. -/
theorem applyUpdate_username {s s' : State} {o : Oracle} {up : StateUpdate} {res : Option UpdateResult}
    (h : s.applyUpdate o up = (s', .ok res)) (hs : ¬up.body.IsSnapshot) (u : UserId) :
    s'.part u (·.username) = s.part u (·.username) ∨
      (s'.part u (·.username) = some u ∧ ∃ info, up.body = .signup info ∧ info.username = u) := by
  have hp : Steady (fun ui : UserInfo => ui.username) := ⟨fun _ _ _ => rfl, fun _ _ => rfl, fun _ _ => rfl⟩
  rcases applyUpdate_steady hp (Or.inl fun _ _ => rfl) h hs u with hsame | ⟨info, hb, rfl, -, hnew⟩
  · exact Or.inl hsame
  · exact Or.inr ⟨hnew, info, hb, rfl⟩

/-- A name that nobody has is nobody's until it is signed up. -/
theorem applyUpdate_absent {s s' : State} {o : Oracle} {up : StateUpdate} {res : Option UpdateResult} {u : UserId}
    (h : s.applyUpdate o up = (s', .ok res)) (hs : ¬up.body.IsSnapshot)
    (hsign : ∀ info, up.body = .signup info → info.username ≠ u) (habs : s.users.get? u = none) : s'.users.get? u = none := by
  rcases applyUpdate_username h hs u with hsame | ⟨-, info, hb, hu⟩
  · have hnone : s.part u (·.username) = none := by rw [State.part, habs]; rfl
    exact Option.map_eq_none_iff.mp (hsame.trans hnone)
  · exact absurd hu (hsign info hb)

end Hexstody
