import Hexstody.History
import Hexstody.Lemmas.Users

/-!
# The settings of a user

Four kinds of update change a setting of a user: the language, the contacts, the password and the key (`UpdateBody.setting?`). A part of
a user that nothing else changes is a register (`Register`): in every State that is reached its value is what was last written to it,
by the sign-up or by such an update (`Register.last_write`).
-/

namespace Hexstody

/-- The user whose settings an update changes, and the change. -/
def UpdateBody.setting? : UpdateBody → Option (UserId × (UserInfo → UserInfo))
  | .setLanguage req => some (req.user, fun u => { u with config := { u.config with language := req.language } })
  | .configUpdate req => some (req.user, fun u => { u with config := State.updatedConfig req u.config })
  | .passwordChange req => some (req.user, fun u => { u with auth := .password req.newPassword })
  | .setPublicKey req => some (req.user, fun u => { u with publicKey := req.publicKey })
  | _ => none

namespace State

variable {α : Type} {p : UserInfo → α} {s s' : State} {o : Oracle} {up : StateUpdate} {res : Option UpdateResult} {u : UserId}
  {us : List StateUpdate}

/-- What an accepted update does to a part of a user that the accounts and the pending changes are no part of: it is a change of the
user's settings, or his sign-up, or it leaves the part as it is. -/
inductive SettingChange (p : UserInfo → α) (s s' : State) (up : StateUpdate) (u : UserId) : Prop where
  | signedUp (info : SignupInfo) : up.body = .signup info → info.username = u → s.users.get? u = none →
      s'.part u p = some (p (UserInfo.new info.username info.invite info.auth up.created)) → SettingChange p s s' up u
  | set (f : UserInfo → UserInfo) (ui : UserInfo) : up.body.setting? = some (u, f) → s.users.get? u = some ui →
      s'.part u p = some (p (f ui)) → SettingChange p s s' up u
  | same : (∀ info, up.body = .signup info → info.username ≠ u) → (∀ f, up.body.setting? ≠ some (u, f)) →
      s'.part u p = s.part u p → SettingChange p s s' up u

/-- A change of a user's settings, as a method. -/
theorem settingChange_of_updateUser {user : UserId} {f : UserInfo → UserInfo} {created : NaiveDateTime}
    (hset : up.body.setting? = some (user, f)) (hsign : ∀ info, up.body ≠ .signup info)
    (h : stamped created (s.updateUser user f) noResult = (s', .ok res)) : SettingChange p s s' up u := by
  obtain ⟨s₁, a, hout, rfl, -⟩ := stamped_eq_ok h
  unfold updateUser at hout
  cases hui : s.users.get? user with
  | none =>
    rw [hui] at hout
    cases hout
  | some ui =>
    rw [hui] at hout
    obtain ⟨rfl, -⟩ := Prod.mk.inj hout
    by_cases hu : u = user
    · subst hu
      refine .set f ui hset hui ?_
      change (s.modifyUser u f).part u p = _
      rw [part_modifyUser, if_pos rfl, hui, Option.map_some]
    · refine .same (fun info hb => absurd hb (hsign info)) ?_ ?_
      · intro g hg
        rw [hset] at hg
        exact hu (Prod.mk.inj (Option.some.inj hg)).1.symm
      · change (s.modifyUser user f).part u p = _
        rw [part_modifyUser, if_neg hu]

/-- A change of anything else, as a method. -/
theorem settingChange_of_part {β : Type} {created : NaiveDateTime} {out : Outcome β} {g : β → Option UpdateResult}
    (hset : up.body.setting? = none) (hsign : ∀ info, up.body ≠ .signup info) (h : stamped created out g = (s', .ok res))
    (hpart : out.1.part u p = s.part u p) : SettingChange p s s' up u := by
  refine .same (fun info hb => absurd hb (hsign info)) ?_ (part_of_stamped h hpart)
  intro f hf
  rw [hset] at hf
  cases hf

/-- (step) -/
theorem applyUpdate_setting (hp : ∀ ui cs ls, p { ui with currencies := cs, limitChangeRequests := ls } = p ui)
    (h : s.applyUpdate o up = (s', .ok res)) (hs : ¬up.body.IsSnapshot) (u : UserId) : SettingChange p s s' up u := by
  have ha : Apart p := fun ui cs => hp ui cs ui.limitChangeRequests
  have happly := h
  unfold applyUpdate at h
  obtain ⟨created, b⟩ := up
  cases b with
  | snapshot s₀ => exact absurd trivial hs
  | signup info =>
    obtain ⟨hnone, -, rfl⟩ := applyUpdate_signup happly rfl
    by_cases hu : u = info.username
    · refine .signedUp info rfl hu.symm (hu ▸ hnone) ?_
      simp only [part, hu, AssocMap.get?_insert_self, Option.map_some]
    · refine .same ?_ (fun f hf => by cases hf) ?_
      · intro info' hb heq
        exact hu (heq.symm.trans (congrArg SignupInfo.username (UpdateBody.signup.inj hb)).symm)
      · simp only [part, AssocMap.get?_insert, if_neg hu]
  | setLanguage req => exact settingChange_of_updateUser rfl (fun _ hb => by cases hb) h
  | configUpdate req => exact settingChange_of_updateUser rfl (fun _ hb => by cases hb) h
  | passwordChange req => exact settingChange_of_updateUser rfl (fun _ hb => by cases hb) h
  | setPublicKey req => exact settingChange_of_updateUser rfl (fun _ hb => by cases hb) h
  | createWithdrawalRequest info =>
    exact settingChange_of_part rfl (fun _ hb => by cases hb) h (part_withNewWithdrawalRequest ha ..)
  | withdrawalRequestDecision d =>
    exact settingChange_of_part rfl (fun _ hb => by cases hb) h (part_withWithdrawalRequestDecision ha ..)
  | withdrawalRequestComplete info => exact settingChange_of_part rfl (fun _ hb => by cases hb) h (part_mapCurrencies ha ..)
  | withdrawalRequestNodeRejected info => exact settingChange_of_part rfl (fun _ hb => by cases hb) h (part_mapCurrencies ha ..)
  | depositAddress dep => exact settingChange_of_part rfl (fun _ hb => by cases hb) h (part_withDepositAddress ha ..)
  | bestBtcBlock btc => exact settingChange_of_part rfl (fun _ hb => by cases hb) h rfl
  | updateBtcTx tx => exact settingChange_of_part rfl (fun _ hb => by cases hb) h (part_withBtcTxUpdate ha ..)
  | cancelBtcTx tx => exact settingChange_of_part rfl (fun _ hb => by cases hb) h (part_withBtcTxCancel ha ..)
  | updateTokens req => exact settingChange_of_part rfl (fun _ hb => by cases hb) h (part_updateTokens _ _ hp)
  | genInvite req => exact settingChange_of_part rfl (fun _ hb => by cases hb) h (part_genInvite ..)
  | limitsChangeRequest req =>
    exact settingChange_of_part rfl (fun _ hb => by cases hb) h (part_insertLimitsReq _ _ _ fun ui ls => hp ui ui.currencies ls)
  | cancelLimitChange req =>
    exact settingChange_of_part rfl (fun _ hb => by cases hb) h (part_updateUser_same _ _ _ fun ui => hp ui ui.currencies _)
  | limitChangeDecision lcd => exact settingChange_of_part rfl (fun _ hb => by cases hb) h (part_withLimitChangeDecision _ _ hp)
  | clearLimits span => exact settingChange_of_part rfl (fun _ hb => by cases hb) h (part_mapCurrencies ha ..)
  | exchangeRequest req => exact settingChange_of_part rfl (fun _ hb => by cases hb) h (part_addExchangeRequest ha ..)
  | exchangeDecision req => exact settingChange_of_part rfl (fun _ hb => by cases hb) h (part_withExchangeDecision ha ..)
  | exchangeAddress req => exact settingChange_of_part rfl (fun _ hb => by cases hb) h rfl

end State

/-! ## Registers -/

/-- What an update writes to a part of a user: the sign-up what the part begins with, a change what it says, if it says anything. -/
def written {α : Type} (initial : SignupInfo → α) (change : UpdateBody → Option (UserId × α)) (u : UserId) (up : StateUpdate) : Option α :=
  match up.body with
  | .signup info => if info.username = u then some (initial info) else none
  | b => (change b).bind fun w => if w.1 = u then some w.2 else none

/-- What updates have last written. -/
def lastWritten {α : Type} (initial : SignupInfo → α) (change : UpdateBody → Option (UserId × α)) (u : UserId)
    (us : List StateUpdate) : Option α := (us.filterMap (written initial change u)).getLast?

/-- A part of a user that is written by the sign-up and by changes of the settings only. -/
structure Register {α : Type} (p : UserInfo → α) (initial : SignupInfo → α) (change : UpdateBody → Option (UserId × α)) : Prop where
  accounts : ∀ ui cs ls, p { ui with currencies := cs, limitChangeRequests := ls } = p ui
  signup : ∀ info t, p (UserInfo.new info.username info.invite info.auth t) = initial info
  set : ∀ b u f ui, b.setting? = some (u, f) → change b = none ∧ p (f ui) = p ui ∨ change b = some (u, p (f ui))
  silent : ∀ b, b.setting? = none → change b = none

namespace Register

open State

variable {α : Type} {p : UserInfo → α} {initial : SignupInfo → α} {change : UpdateBody → Option (UserId × α)} {s : State}
  {us : List StateUpdate} {u : UserId}

theorem written_of_not_signup {up : StateUpdate} (h : ∀ info, up.body ≠ .signup info) :
    written initial change u up = (change up.body).bind fun w => if w.1 = u then some w.2 else none := by
  unfold written
  split
  · rename_i info hb
    exact absurd hb (h info)
  · rfl

/-- (run) The value of a register is what was last written to it. -/
theorem last_write (hr : Register p initial change) {P : State → UpdateBody → Prop}
    (h : s.MadeBy EXCHANGE_NUMBER_OF_CONFIRMATIONS P us) (u : UserId) : s.part u p = lastWritten initial change u us := by
  refine h.invariant_number (I := fun s us => s.part u p = lastWritten initial change u us) (fun _ _ => rfl) (fun _ _ _ hs => hs) ?_
  intro s us o up s' res _ hs _ hsnap happly
  have happend : lastWritten initial change u (us ++ [up]) = (written initial change u up).or (lastWritten initial change u us) := by
    unfold lastWritten
    rw [List.filterMap_append, List.getLast?_append]
    cases hw : written initial change u up with
    | none => simp [hw]
    | some x => simp [hw]
  rw [happend, ← hs]
  cases applyUpdate_setting hr.accounts happly hsnap u with
  | signedUp info hb hu hnone hpart =>
    have hw : written initial change u up = some (initial info) := by
      simp only [written, hb, if_pos hu]
    rw [hw, hpart, hr.signup]
    rfl
  | set f ui hset hui hpart =>
    have hsign : ∀ info, up.body ≠ .signup info := by
      intro info hb
      rw [hb] at hset
      cases hset
    rw [written_of_not_signup hsign, hpart]
    rcases hr.set up.body u f ui hset with ⟨hnone, hsame⟩ | hsome
    · rw [hnone, hsame, part, hui]
      rfl
    · rw [hsome, Option.bind_some, if_pos rfl]
      rfl
  | same hsign hset hpart =>
    have hw : written initial change u up = none := by
      by_cases hsignup : ∃ info, up.body = .signup info
      · obtain ⟨info, hb⟩ := hsignup
        simp only [written, hb, if_neg (hsign info hb)]
      · rw [written_of_not_signup fun info hb => hsignup ⟨info, hb⟩]
        cases hb : up.body.setting? with
        | none =>
          rw [hr.silent _ hb]
          rfl
        | some w =>
          obtain ⟨u', f⟩ := w
          have hne : u' ≠ u := by
            rintro rfl
            exact hset f hb
          -- whoever the user is, the change writes the same
          rcases hr.set up.body u' f (UserInfo.new u' ⟨o.newId⟩ .lightning up.created) hb with ⟨hnone, -⟩ | hsome
          · rw [hnone]
            rfl
          · rw [hsome, Option.bind_some, if_neg hne]
    rw [hw, hpart]
    rfl

end Register

end Hexstody
