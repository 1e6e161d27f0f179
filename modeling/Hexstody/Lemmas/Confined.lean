import Hexstody.Lemmas.Users

/-!
# Methods that are confined to a user

A method is confined to a user if what it answers, and what it makes of the user, depends on that user alone, and every other user is
left as he is (`State.Confined`). There is a rule for each way a method is put together, and with these rules every method that an
update of a single user calls is confined to the user (`State.applyUpdate_confined`); only the sign-up is not, as it reads the invites.
-/

namespace Hexstody

/-- The user whom an update is about, if it is about one. -/
def UpdateBody.owner? : UpdateBody → Option UserId
  | .signup info => some info.username
  | .createWithdrawalRequest info => some info.user
  | .withdrawalRequestDecision d => some d.userId
  | .depositAddress req => some req.userId
  | .updateTokens req => some req.user
  | .limitsChangeRequest req => some req.user
  | .cancelLimitChange req => some req.user
  | .limitChangeDecision req => some req.user
  | .setLanguage req => some req.user
  | .configUpdate req => some req.user
  | .passwordChange req => some req.user
  | .setPublicKey req => some req.user
  | .exchangeRequest req => some req.user
  | .exchangeDecision req => some req.user
  | _ => none

namespace State

variable {α β : Type} {u : UserId} {m : State → Outcome α}

/-- A method that reads one user and changes nobody else. -/
structure Confined (u : UserId) (m : State → Outcome α) : Prop where
  same : ∀ s t : State, s.users.get? u = t.users.get? u → (m s).2 = (m t).2 ∧ (m s).1.users.get? u = (m t).1.users.get? u
  other : ∀ s u', u' ≠ u → (m s).1.users.get? u' = s.users.get? u'

namespace Confined

/-! ## The rules -/

theorem pure (res : Except StateUpdateErr α) : Confined u (fun s => (s, res)) where
  same _ _ h := ⟨rfl, h⟩
  other _ _ _ := rfl

theorem modifyUser (f : UserInfo → UserInfo) (res : Except StateUpdateErr α) : Confined u (fun s => (s.modifyUser u f, res)) where
  same s t h := by
    refine ⟨rfl, ?_⟩
    simp only [State.modifyUser, AssocMap.get?_modify_self, h]
  other s u' hne := by
    simp only [State.modifyUser, AssocMap.get?_modify, if_neg hne]

theorem modifyCurrency (c : Currency) (f : UserCurrencyInfo → UserCurrencyInfo) (res : Except StateUpdateErr α) :
    Confined u (fun s => (s.modifyCurrency u c f, res)) := modifyUser _ res

/-- What else of the State a method changes does not matter. -/
theorem of_users {m' : State → Outcome α} (h : Confined u m') (hres : ∀ s, (m s).2 = (m' s).2)
    (husers : ∀ s, (m s).1.users = (m' s).1.users) : Confined u m where
  same s t hst := by
    rw [hres, hres, husers, husers]
    exact h.same s t hst
  other s u' hne := by
    rw [husers]
    exact h.other s u' hne

/-- A method that looks up the user first. -/
theorem user {e : StateUpdateErr} {k : UserInfo → State → Outcome α} (hk : ∀ ui, Confined u (k ui)) :
    Confined u (fun s => match s.users.get? u with
      | none => (s, .error e)
      | some ui => k ui s) where
  same s t h := by
    simp only [h]
    cases hu : t.users.get? u with
    | none => exact ⟨rfl, h⟩
    | some ui => exact (hk ui).same s t h
  other s u' hne := by
    cases hu : s.users.get? u with
    | none => rfl
    | some ui => exact (hk ui).other s u' hne

/-- A method that is followed by another. -/
theorem bind {k : State → Except StateUpdateErr α → Outcome β} (hm : Confined u m) (hk : ∀ r, Confined u (fun s => k s r)) :
    Confined u (fun s => k (m s).1 (m s).2) where
  same s t h := by
    obtain ⟨hres, huser⟩ := hm.same s t h
    rw [hres]
    exact (hk (m t).2).same _ _ huser
  other s u' hne := ((hk (m s).2).other _ u' hne).trans (hm.other s u' hne)

theorem stamped (hm : Confined u m) (created : NaiveDateTime) (result : α → Option UpdateResult) :
    Confined u (fun s => State.stamped created (m s) result) := by
  refine (hm.bind (k := fun s r => State.stamped created (s, r) result) ?_)
  intro r
  cases r with
  | error e => exact .pure _
  | ok a => exact .of_users (.pure (.ok (result a))) (fun _ => rfl) (fun _ => rfl)

/-! ## The methods -/

theorem updateUser (user : UserId) (f : UserInfo → UserInfo) : Confined user (fun s => s.updateUser user f) where
  same s t h := by
    unfold State.updateUser
    rw [h]
    cases hu : t.users.get? user with
    | none => exact ⟨rfl, h⟩
    | some ui => exact (modifyUser f (.ok ())).same s t h
  other s u' hne := by
    unfold State.updateUser
    cases hu : s.users.get? user with
    | none => rfl
    | some ui => exact (modifyUser f (.ok ())).other s u' hne

theorem withNewWithdrawalRequest (t : NaiveDateTime) (info : WithdrawalRequestInfo) :
    Confined info.user (fun s => s.withNewWithdrawalRequest t info) := by
  refine .user fun ui => ?_
  split
  · exact .pure _
  · split
    · split
      · exact .pure _
      · exact .modifyCurrency ..
    · exact .modifyCurrency ..

theorem withWithdrawalRequestDecision (d : WithdrawalRequestDecisionInfo) :
    Confined d.userId (fun s => s.withWithdrawalRequestDecision d) := by
  have hread : ∀ s t : State, s.users.get? d.userId = t.users.get? d.userId →
      s.getWithdrawalRequestByDecisionInfo d = t.getWithdrawalRequestByDecisionInfo d := by
    intro s t h
    unfold getWithdrawalRequestByDecisionInfo
    rw [h]
  constructor
  · intro s t h
    unfold State.withWithdrawalRequestDecision
    rw [hread s t h]
    cases t.getWithdrawalRequestByDecisionInfo d with
    | error e => exact (pure (.error e)).same s t h
    | ok req =>
      cases hdecided : req.applyDecision d with
      | error e => simpa only [hdecided] using (pure (α := Option WithdrawalRequestId) (.error e)).same s t h
      | ok out => simpa only [hdecided] using (modifyCurrency d.currency _ (.ok out.2)).same s t h
  · intro s u' hne
    unfold State.withWithdrawalRequestDecision
    cases s.getWithdrawalRequestByDecisionInfo d with
    | error e => rfl
    | ok req =>
      cases hdecided : req.applyDecision d with
      | error e => simp only [hdecided]
      | ok out => simpa only [hdecided] using (modifyCurrency d.currency _ (.ok out.2)).other s u' hne

theorem withDepositAddress (dep : DepositAddress) : Confined dep.userId (fun s => s.withDepositAddress dep) := by
  refine .user fun ui => ?_
  split
  · exact .pure _
  · split
    · exact .pure _
    · exact .modifyCurrency ..

theorem updateTokens (req : TokenUpdate) : Confined req.user (fun s => s.updateTokens req) := by
  refine .user fun ui => ?_
  split
  · split
    · exact .pure _
    · exact .modifyUser ..
  · split
    · exact .pure _
    · split
      · exact .pure _
      · exact .modifyUser ..

theorem insertLimitsReq (o : Oracle) (req : LimitChangeUpd) : Confined req.user (fun s => s.insertLimitsReq o req) := by
  refine .user fun ui => ?_
  split
  · exact .pure _
  · exact .modifyUser ..

theorem withLimitChangeDecision (lcd : LimitChangeDecision) : Confined lcd.user (fun s => s.withLimitChangeDecision lcd) := by
  refine .user fun ui => ?_
  split
  · exact .pure _
  · split
    · exact .pure _
    · split
      · exact .modifyUser ..
      · exact .modifyUser ..
      · exact .modifyUser ..

theorem addExchangeRequest (req : ExchangeOrderUpd) : Confined req.user (fun s => s.addExchangeRequest req) := by
  refine .user fun ui => ?_
  split
  · exact .pure _
  · split
    · exact .pure _
    · exact .modifyCurrency ..

theorem applyExchangeDecision (req : ExchangeDecision) : Confined req.user (fun s => s.applyExchangeDecision req) := by
  refine .user fun ui => ?_
  split
  · exact .pure _
  · split
    · exact .pure _
    · split
      · exact .pure _
      · split
        · exact .of_users (.modifyCurrency _ _ _) (fun _ => rfl) (fun _ => rfl)
        · exact .modifyCurrency ..

theorem addIncomingExchange (req : ExchangeDecision) : Confined req.user (fun s => s.addIncomingExchange req) := by
  refine .user fun ui => ?_
  split
  · exact .pure _
  · exact .modifyCurrency ..

theorem withExchangeDecision (req : ExchangeDecision) : Confined req.user (fun s => s.withExchangeDecision req) := by
  refine (applyExchangeDecision req).bind (k := fun s r => match (s, r) with
    | (s', .error e) => (s', .error e)
    | (s', .ok false) => (s', .ok ())
    | (s', .ok true) => s'.addIncomingExchange req) ?_
  intro r
  rcases r with e | completes
  · exact .pure _
  · cases completes with
    | false => exact .pure _
    | true => exact addIncomingExchange req

end Confined

/-- An update of a user is confined to him, but for his sign-up. -/
theorem applyUpdate_confined {up : StateUpdate} (o : Oracle) (hown : up.body.owner? = some u)
    (hsign : ∀ info, up.body ≠ .signup info) : Confined u (fun s => s.applyUpdate o up) := by
  obtain ⟨created, b⟩ := up
  cases b <;> cases hown
  case signup info => exact absurd rfl (hsign info)
  case createWithdrawalRequest info => exact (Confined.withNewWithdrawalRequest created info).stamped ..
  case withdrawalRequestDecision d => exact (Confined.withWithdrawalRequestDecision d).stamped ..
  case depositAddress req => exact (Confined.withDepositAddress req).stamped ..
  case updateTokens req => exact (Confined.updateTokens req).stamped ..
  case limitsChangeRequest req => exact (Confined.insertLimitsReq o req).stamped ..
  case cancelLimitChange req => exact (Confined.updateUser req.user _).stamped ..
  case limitChangeDecision req => exact (Confined.withLimitChangeDecision req).stamped ..
  case setLanguage req => exact (Confined.updateUser req.user _).stamped ..
  case configUpdate req => exact (Confined.updateUser req.user _).stamped ..
  case passwordChange req => exact (Confined.updateUser req.user _).stamped ..
  case setPublicKey req => exact (Confined.updateUser req.user _).stamped ..
  case exchangeRequest req => exact (Confined.addExchangeRequest req).stamped ..
  case exchangeDecision req => exact (Confined.withExchangeDecision req).stamped ..

end State

end Hexstody
