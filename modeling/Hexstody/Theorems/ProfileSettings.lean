import Hexstody.Lemmas.Settings
import Hexstody.Lemmas.WellFormed
import Hexstody.Lemmas.World
import Hexstody.Profile

/-!
# The settings of the users, in runs

Each setting of a user is what was last written to it (`settings_last_write`). In every run of the hot wallet whose users come in by
the handlers of the profile, the names, the passwords and the contacts of the users are what the handlers admit (`users_checked`), and
whoever is there can sign in with the password that was hashed last, and with no other than passwords of an admitted length that its
hash verifies (`signin_succeeds`).
-/

namespace Hexstody

/-! ## Six registers -/

/-- What the changes of the settings write. -/
def languageChange : UpdateBody → Option (UserId × Language)
  | .setLanguage req => some (req.user, req.language)
  | _ => none

def contactChange {α : Type} (asked : ConfigUpdateData → Option (Except Unit α)) : UpdateBody → Option (UserId × Option α)
  | .configUpdate req => (asked req).map fun c => (req.user, c.toOption)
  | _ => none

def authChange : UpdateBody → Option (UserId × SignupAuth)
  | .passwordChange req => some (req.user, .password req.newPassword)
  | _ => none

def publicKeyChange : UpdateBody → Option (UserId × Option PublicKey)
  | .setPublicKey req => some (req.user, req.publicKey)
  | _ => none

theorem register_language : Register (·.config.language) (fun _ => .english) languageChange where
  accounts _ _ _ := rfl
  signup _ _ := rfl
  set b u f ui h := by
    cases b <;> cases h
    case setLanguage req => exact Or.inr rfl
    all_goals exact Or.inl ⟨rfl, rfl⟩
  silent b h := by
    cases b <;> first | rfl | cases h

theorem register_contact {α : Type} {p : UserConfig → Option α} {asked : ConfigUpdateData → Option (Except Unit α)}
    (hnew : p UserConfig.default = none) (hlang : ∀ c l, p { c with language := l } = p c)
    (hset : ∀ req c, p (State.updatedConfig req c) = (asked req).elim (p c) Except.toOption) :
    Register (fun ui => p ui.config) (fun _ => none) (contactChange asked) where
  accounts _ _ _ := rfl
  signup _ _ := hnew
  set b u f ui h := by
    cases b <;> cases h
    case configUpdate req =>
      cases hreq : asked req with
      | none => exact Or.inl ⟨by simp [contactChange, hreq], by simp [hset, hreq]⟩
      | some c => exact Or.inr (by simp [contactChange, hset, hreq])
    case setLanguage req => exact Or.inl ⟨rfl, hlang _ _⟩
    all_goals exact Or.inl ⟨rfl, rfl⟩
  silent b h := by
    cases b <;> first | rfl | cases h

theorem register_email : Register (·.config.email) (fun _ => none) (contactChange (·.email)) :=
  register_contact (p := (·.email)) rfl (fun _ _ => rfl) (fun _ _ => rfl)

theorem register_phone : Register (·.config.phone) (fun _ => none) (contactChange (·.phone)) :=
  register_contact (p := (·.phone)) rfl (fun _ _ => rfl) (fun _ _ => rfl)

theorem register_tgName : Register (·.config.tgName) (fun _ => none) (contactChange (·.tgName)) :=
  register_contact (p := (·.tgName)) rfl (fun _ _ => rfl) (fun _ _ => rfl)

theorem register_auth : Register (·.auth) (·.auth) authChange where
  accounts _ _ _ := rfl
  signup _ _ := rfl
  set b u f ui h := by
    cases b <;> cases h
    case passwordChange req => exact Or.inr rfl
    all_goals exact Or.inl ⟨rfl, rfl⟩
  silent b h := by
    cases b <;> first | rfl | cases h

theorem register_publicKey : Register (·.publicKey) (fun _ => none) publicKeyChange where
  accounts _ _ _ := rfl
  signup _ _ := rfl
  set b u f ui h := by
    cases b <;> cases h
    case setPublicKey req => exact Or.inr rfl
    all_goals exact Or.inl ⟨rfl, rfl⟩
  silent b h := by
    cases b <;> first | rfl | cases h

namespace State

variable {s : State} {us : List StateUpdate} {u : UserId}

/-- Each setting of a user is what was last written to it; nothing was written where there is no such user. -/
structure SettingsWritten (s : State) (us : List StateUpdate) (u : UserId) : Prop where
  language : s.part u (·.config.language) = lastWritten (fun _ => .english) languageChange u us
  email : s.part u (·.config.email) = lastWritten (fun _ => none) (contactChange (·.email)) u us
  phone : s.part u (·.config.phone) = lastWritten (fun _ => none) (contactChange (·.phone)) u us
  tgName : s.part u (·.config.tgName) = lastWritten (fun _ => none) (contactChange (·.tgName)) u us
  auth : s.part u (·.auth) = lastWritten (·.auth) authChange u us
  publicKey : s.part u (·.publicKey) = lastWritten (fun _ => none) publicKeyChange u us

theorem settings_last_write (s : State) (us : List StateUpdate) (u : UserId)
    (h : s.MadeBy EXCHANGE_NUMBER_OF_CONFIRMATIONS anyUpdate us) : s.SettingsWritten us u where
  language := register_language.last_write h u
  email := register_email.last_write h u
  phone := register_phone.last_write h u
  tgName := register_tgName.last_write h u
  auth := register_auth.last_write h u
  publicKey := register_publicKey.last_write h u

open Sample in
/-- Alice changes her language twice, and sets and removes her name in between. -/
theorem settings_last_write_alice : ∃ (s : State) (us : List StateUpdate), us.length = 6 ∧
    s.part alice (·.config.language) = some .russian ∧ s.SettingsWritten us alice := by
  obtain ⟨j, hj, hq⟩ := Machine.exists_reachable (P := fun (_ : Journal) (a : Oracle × StateUpdate) => ¬a.2.body.IsSnapshot)
    (signup ++ [upd 3 (.setLanguage { user := alice, language := .russian }),
      upd 4 (.configUpdate { user := alice, email := none, phone := none, tgName := some (.ok { tgName := "alice" }) }),
      upd 5 (.configUpdate { user := alice, email := none, phone := none, tgName := some (.error ()) }),
      upd 6 (.setLanguage { user := alice, language := .russian })])
    (q := fun (j : Journal) => decide (j.updates.length = 6 ∧ j.state.part alice (·.config.language) = some .russian)) start_init
    (by decide)
  obtain ⟨hlen, hlang⟩ := of_decide_eq_true hq
  have hmade : j.state.MadeBy EXCHANGE_NUMBER_OF_CONFIRMATIONS anyUpdate j.updates :=
    Journal.madeBy_updates (fun _ _ h => ⟨trivial, h⟩) hj
  exact ⟨j.state, j.updates, hlen, hlang, settings_last_write j.state j.updates alice hmade⟩

/-! ## Checked updates -/

/-- (run) Every update of a State meets what is asked of an update. -/
theorem MadeBy.forall_body {Q : UpdateBody → Prop} (h : s.MadeBy EXCHANGE_NUMBER_OF_CONFIRMATIONS (fun _ b => Q b) us) :
    ∀ up ∈ us, Q up.body := by
  refine h.invariant_number (I := fun _ us => ∀ up ∈ us, Q up.body) (fun _ _ => List.forall_mem_nil _) (fun _ _ _ hs => hs) ?_
  intro s us o up s' res _ hs hQ _ _
  exact List.forall_mem_append.mpr ⟨hs, List.forall_mem_singleton.mpr hQ⟩

/-- (run) Whoever is there was signed up. -/
theorem MadeBy.exists_signup {P : State → UpdateBody → Prop} (h : s.MadeBy EXCHANGE_NUMBER_OF_CONFIRMATIONS P us)
    (hu : s.users.get? u ≠ none) : ∃ up ∈ us, ∃ info, up.body = .signup info ∧ info.username = u := by
  refine h.invariant_number (I := fun s us => s.users.get? u ≠ none → ∃ up ∈ us, ∃ info, up.body = .signup info ∧ info.username = u)
    (fun _ _ hu => absurd rfl hu) (fun _ _ _ hs => hs) ?_ hu
  intro s us o up s' res _ hs _ hsnap happly hu'
  by_cases hthere : s.users.get? u = none
  · by_contra hno
    refine hu' (applyUpdate_absent happly hsnap ?_ hthere)
    rintro info hb rfl
    exact hno ⟨up, List.mem_append_right _ List.mem_cons_self, info, hb, rfl⟩
  · obtain ⟨up', hmem, hsign⟩ := hs hthere
    exact ⟨up', List.mem_append_left _ hmem, hsign⟩

end State

/-- What was last written was written. -/
theorem exists_of_lastWritten {α : Type} {initial : SignupInfo → α} {change : UpdateBody → Option (UserId × α)} {u : UserId}
    {us : List StateUpdate} {x : α} (h : lastWritten initial change u us = some x) :
    ∃ up ∈ us, (∃ info, up.body = .signup info ∧ initial info = x) ∨ change up.body = some (u, x) := by
  obtain ⟨up, hmem, hw⟩ := List.mem_filterMap.mp (List.mem_of_getLast? h)
  refine ⟨up, hmem, ?_⟩
  by_cases hsign : ∃ info, up.body = .signup info
  · obtain ⟨info, hb⟩ := hsign
    simp only [written, hb] at hw
    split at hw
    · exact Or.inl ⟨info, hb, Option.some.inj hw⟩
    · cases hw
  · rw [Register.written_of_not_signup fun info hb => hsign ⟨info, hb⟩] at hw
    obtain ⟨w, hchange, hif⟩ := Option.bind_eq_some_iff.mp hw
    split at hif
    · rename_i hu
      obtain rfl := Option.some.inj hif
      exact Or.inr (hu ▸ hchange)
    · cases hif

/-! ## The hot wallet -/

/-- What the handlers admit of a user. -/
structure UserInfo.Checked (Ψ : ProfileCtx) (u : UserId) (ui : UserInfo) : Prop where
  name : AdmittedName u
  email : ∀ c, ui.config.email = some c → Email.validate c.email = true
  phone : ∀ c, ui.config.phone = some c → PhoneNumber.validate Ψ.classes c.number = true
  tgName : ∀ c, ui.config.tgName = some c → c.tgName ≠ ""

namespace World

variable {Ψ : ProfileCtx} {k : Clock} {w : World} {P : World → Action ProfileCall → Prop}

/-- (run) The State is made of checked updates. -/
theorem madeBy_checked (h : (machine (profileWallet Ψ) k).Reachable P w) :
    w.journal.state.MadeBy EXCHANGE_NUMBER_OF_CONFIRMATIONS (fun _ b => b.Checked Ψ) w.journal.updates := by
  have hsettle : ∀ u : StateUpdate, Settles u → u.body.Checked Ψ := by
    rintro u (⟨info, hb⟩ | ⟨info, hb⟩)
    · rw [hb]
      trivial
    · rw [hb]
      trivial
  have hrun := journal_reachable (Q := fun _ a => a.2.body.Checked Ψ) h fun w o u us j hr _ hu _ =>
    carried_of_reachable (Q := fun b => b.Checked Ψ) (fun s i b hb => (ProfileCall.checked hb).1) hsettle hr u
      (List.mem_append_left _ (hu ▸ List.mem_cons_self))
  exact Journal.madeBy_updates (fun _ _ hq => ⟨hq.2, hq.1.1⟩) hrun

/-- A contact that is kept was set by an update that was checked. -/
theorem exists_contact {α : Type} {p : UserInfo → Option α} {asked : ConfigUpdateData → Option (Except Unit α)}
    (hr : Register p (fun _ => none) (contactChange asked)) {s : State} {us : List StateUpdate} {u : UserId} {ui : UserInfo} {c : α}
    (h : s.MadeBy EXCHANGE_NUMBER_OF_CONFIRMATIONS (fun _ b => b.Checked Ψ) us) (hu : s.users.get? u = some ui) (hc : p ui = some c) :
    ∃ req, asked req = some (.ok c) ∧ (UpdateBody.configUpdate req).Checked Ψ := by
  have hlast := hr.last_write h u
  rw [State.part, hu, Option.map_some, hc] at hlast
  obtain ⟨up, hmem, ⟨info, -, hnone⟩ | hchange⟩ := exists_of_lastWritten hlast.symm
  · cases hnone
  · have hchecked := h.forall_body up hmem
    cases hb : up.body <;> rw [hb] at hchange hchecked <;> try cases hchange
    case configUpdate req =>
      obtain ⟨e, he, hpair⟩ := Option.map_eq_some_iff.mp hchange
      exact ⟨req, by rw [he, Handlers.toOption_eq_some (Prod.mk.inj hpair).2], hchecked⟩

/-- The password that is kept is the one that was hashed last, and was checked. -/
theorem exists_password {s : State} {us : List StateUpdate} {u : UserId} {ui : UserInfo}
    (h : s.MadeBy EXCHANGE_NUMBER_OF_CONFIRMATIONS (fun _ b => b.Checked Ψ) us) (hu : s.users.get? u = some ui) :
    ∃ passHash password, ui.auth = .password passHash ∧ lastWritten (·.auth) authChange u us = some (.password passHash) ∧
      Ψ.HashesPassword passHash password := by
  have hlast := register_auth.last_write h u
  rw [State.part, hu, Option.map_some] at hlast
  obtain ⟨up, hmem, ⟨info, hb, hauth⟩ | hchange⟩ := exists_of_lastWritten hlast.symm
  · have hchecked := h.forall_body up hmem
    rw [hb] at hchecked
    obtain ⟨passHash, password, hpass, hhash⟩ := hchecked.2
    rw [hauth] at hpass
    exact ⟨passHash, password, hpass, by rw [← hlast, hpass], hhash⟩
  · have hchecked := h.forall_body up hmem
    cases hb : up.body <;> rw [hb] at hchange hchecked <;> try cases hchange
    case passwordChange req =>
      obtain ⟨password, hhash⟩ := hchecked
      have hauth : ui.auth = .password req.newPassword := (Prod.mk.inj (Option.some.inj hchange)).2.symm
      exact ⟨req.newPassword, password, hauth, by rw [← hlast, hauth], hhash⟩

/-- A name that is kept was checked. -/
theorem admittedName {s : State} {us : List StateUpdate} {u : UserId}
    (h : s.MadeBy EXCHANGE_NUMBER_OF_CONFIRMATIONS (fun _ b => b.Checked Ψ) us) (hu : s.users.get? u ≠ none) : AdmittedName u := by
  obtain ⟨up, hmem, info, hb, rfl⟩ := h.exists_signup hu
  have hchecked := h.forall_body up hmem
  rw [hb] at hchecked
  exact hchecked.1

/-- Every name and contact that a State keeps was checked. -/
theorem users_checked (Ψ : ProfileCtx) (k : Clock) (w : World) (h : (machine (profileWallet Ψ) k).Reachable anyStep w) :
    ∀ u ui, w.journal.state.users.get? u = some ui → ui.Checked Ψ u := by
  intro u ui hu
  have hmade := madeBy_checked h
  refine ⟨admittedName hmade (hu ▸ Option.some_ne_none ui), fun c hc => ?_, fun c hc => ?_, fun c hc => ?_⟩
  · obtain ⟨req, hreq, hchecked⟩ := exists_contact register_email hmade hu hc
    exact hchecked.1 c hreq
  · obtain ⟨req, hreq, hchecked⟩ := exists_contact register_phone hmade hu hc
    exact hchecked.2.1 c hreq
  · obtain ⟨req, hreq, hchecked⟩ := exists_contact register_tgName hmade hu hc
    exact hchecked.2.2 c hreq

end World

namespace Sample

/-- A hash that is the password behind a sign. -/
def plainBcrypt : Bcrypt where
  hash password _ := .ok ("#" ++ password)
  verify password h := h == "#" ++ password
  verify_hash password salt h hhash := by
    rw [← Except.ok.inj hhash]
    exact beq_self_eq_true _

def profileCtx : ProfileCtx where
  classes := .ascii
  bcrypt := plainBcrypt
  decodeKey _ := .ok (key 1)

/-- A call whose update is sent at once, and applied. -/
def profileDone (t : Int) (call : ProfileCall) : List (Action ProfileCall) := [.request call ⟨t⟩, .deliver 0, .apply oracle true]

/-- Alice signs up, gives an address and changes her password. -/
def settling : List (Action ProfileCall) :=
  profileDone 1 (.other (.genInvite { invite := ⟨uuid 1⟩, invitor := "op", label := "" })) ++
    profileDone 2 (.signupEmail { user := alice, invite := ⟨uuid 1⟩, password := "secret" } "") ++
    profileDone 3 (.setUserConfig (some alice) { email := some "alice@mail.com", phone := none, tgName := some "" }) ++
    profileDone 4 (.changePassword (some alice) "secret" "secret2" "")

theorem profileWorld_init : (World.machine (profileWallet profileCtx) clock).init world := ⟨_, _, rfl⟩

/-- What alice has in the end. -/
def settledAlice (w : World) : Bool :=
  (w.journal.state.users.get? alice).any fun ui =>
    decide (ui.config.email = some { email := "alice@mail.com" } ∧ ui.auth = .password "#secret2")

end Sample

namespace World

variable {Ψ : ProfileCtx} {k : Clock} {w : World}

open Sample in
/-- Alice's address and passwords were checked. -/
theorem users_checked_alice : ∃ w : World, settledAlice w = true ∧
    ∀ u ui, w.journal.state.users.get? u = some ui → ui.Checked profileCtx u := by
  obtain ⟨w, hw, hq⟩ := Machine.exists_reachable (P := Machine.anyStep) settling (q := settledAlice) profileWorld_init (by decide +kernel)
  exact ⟨w, hq, users_checked profileCtx clock w hw⟩

/-- Whoever is there signs in with the password that was hashed last; another one has to be of an admitted length, and verified. -/
theorem signin_succeeds (Ψ : ProfileCtx) (k : Clock) (w : World) (h : (machine (profileWallet Ψ) k).Reachable anyStep w) :
    ∀ u ui, w.journal.state.users.get? u = some ui → ∃ passHash password,
      lastWritten (·.auth) authChange u w.journal.updates = some (.password passHash) ∧ Ψ.HashesPassword passHash password ∧
      Profile.signinEmail Ψ w.journal.state u password = .ok u ∧
      ∀ other, Profile.signinEmail Ψ w.journal.state u other = .ok u ↔ MIN_USER_PASSWORD_LEN ≤ other.utf8ByteSize ∧
        other.utf8ByteSize ≤ MAX_USER_PASSWORD_LEN ∧ Ψ.bcrypt.verify other passHash = true := by
  intro u ui hu
  have hmade := madeBy_checked h
  obtain ⟨passHash, password, hauth, hlast, hhash⟩ := exists_password hmade hu
  have hname := admittedName hmade (hu ▸ Option.some_ne_none ui)
  have hsignin : ∀ other, Profile.signinEmail Ψ w.journal.state u other = .ok u ↔ MIN_USER_PASSWORD_LEN ≤ other.utf8ByteSize ∧
      other.utf8ByteSize ≤ MAX_USER_PASSWORD_LEN ∧ Ψ.bcrypt.verify other passHash = true := by
    intro other
    unfold Profile.signinEmail Profile.checkLengths
    rw [if_neg (Nat.not_lt.mpr hname.1), if_neg (Nat.not_lt.mpr hname.2.1)]
    by_cases hshort : other.utf8ByteSize < MIN_USER_PASSWORD_LEN
    · simp [hshort, Nat.not_le.mpr hshort]
    · by_cases hlong : other.utf8ByteSize > MAX_USER_PASSWORD_LEN
      · simp [hshort, hlong, Nat.not_le.mpr hlong]
      · by_cases hverify : Ψ.bcrypt.verify other passHash = true
        · simp [hshort, hlong, hu, hauth, hverify, Nat.not_lt.mp hshort, Nat.not_lt.mp hlong]
        · simp [hshort, hlong, hu, hauth, hverify]
  obtain ⟨⟨salt, hsalt⟩, hlen⟩ := hhash
  exact ⟨passHash, password, hlast, ⟨⟨salt, hsalt⟩, hlen⟩,
    (hsignin password).mpr ⟨hlen.1, hlen.2, Ψ.bcrypt.verify_hash password salt passHash hsalt⟩, hsignin⟩

open Sample in
/-- Alice's last password is the one she changed to. -/
theorem signin_succeeds_alice : ∃ w : World, settledAlice w = true ∧
    ∀ u ui, w.journal.state.users.get? u = some ui → ∃ passHash password,
      lastWritten (·.auth) authChange u w.journal.updates = some (.password passHash) ∧ profileCtx.HashesPassword passHash password ∧
      Profile.signinEmail profileCtx w.journal.state u password = .ok u ∧
      ∀ other, Profile.signinEmail profileCtx w.journal.state u other = .ok u ↔ MIN_USER_PASSWORD_LEN ≤ other.utf8ByteSize ∧
        other.utf8ByteSize ≤ MAX_USER_PASSWORD_LEN ∧ profileCtx.bcrypt.verify other passHash = true := by
  obtain ⟨w, hw, hq⟩ := Machine.exists_reachable (P := Machine.anyStep) settling (q := settledAlice) profileWorld_init (by decide +kernel)
  exact ⟨w, hq, signin_succeeds profileCtx clock w hw⟩

end World

end Hexstody
