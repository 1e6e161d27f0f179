import Hexstody.Contacts
import Hexstody.PublicWallet
import Hexstody.SignupDesk

/-!
# The profile of a user

The handlers by which a user signs in with a password, changes the password and the settings, and takes back a change of limits that he
asked for (`hexstody-public`, `api/auth.rs` and `api/profile.rs`), with the errors of the public API (`hexstody-api`, `error.rs`) that they
answer. A handler works on a copy of the user's entry, which may be out of date when its update is applied. `profileWallet` is the client
that has these handlers; of a sign-up it has what is left when the ETH module has done its part. Hashes of passwords and the decoding of a
key are parameters (`ProfileCtx`).
-/

namespace Hexstody

/-! ## The errors of the API -/

/-- `error::Error` -/
inductive ApiError where
  | signupExistedUser
  | userNameTooShort
  | userNameTooLong
  | userPasswordTooShort
  | userPasswordTooLong
  | pwhash (e : String)
  | signinFailed
  | authRequired
  | noUserFound
  | noUserCurrency (c : Currency)
  | failedGenAddress (c : Currency)
  | failedGetFee (c : Currency)
  | insufficientFunds (c : Currency)
  | failedEthConnection (e : String)
  | tokenAlreadyEnabled (t : Erc20Token)
  | tokenAlreadyDisabled (t : Erc20Token)
  | tokenNonZeroBalance (t : Erc20Token)
  | tokenActionFailed (e : String)
  | inviteNotFound
  | limitsNoChanges
  | limChangeNotFound
  | signatureError (e : String)
  | internalServerError (e : String)
  | genericError (e : String)
  | unknownCurrency (e : String)
  | langNotChanged
  | invalidEmail
  | invalidPhoneNumber
  | exchangeRateError (c : Currency)
  deriving DecidableEq, Repr

/-! ## The parameters -/

/-- Hashes of passwords. -/
structure Bcrypt where
  hash : String → String → Except String String
  verify : String → String → Bool
  /-- A password is verified by its hash, whatever the salt. -/
  verify_hash : ∀ password salt h, hash password salt = .ok h → verify password h = true

structure ProfileCtx where
  classes : CharClasses
  bcrypt : Bcrypt
  /-- A key from the base64 of its DER form. -/
  decodeKey : String → Except String PublicKey

/-! ## The handlers -/

/-- A request to change the contacts: of each, nothing, a text to take its place, or the empty text to remove it. -/
structure ConfigChangeRequest where
  email : Option String
  phone : Option String
  tgName : Option String
  deriving DecidableEq, Repr

namespace Profile

/-- `require_auth_user`, by the private cookie of the request. -/
def requireAuthUser (s : State) (cookie : Option UserId) : Except ApiError UserInfo :=
  match cookie with
  | none => .error .authRequired
  | some user =>
    match s.users.get? user with
    | some u => .ok u
    | none => .error .noUserFound

/-- The lengths, in bytes, of a name and a password. -/
def checkLengths (user password : String) : Except ApiError Unit :=
  if user.utf8ByteSize < MIN_USER_NAME_LEN then .error .userNameTooShort
  else if user.utf8ByteSize > MAX_USER_NAME_LEN then .error .userNameTooLong
  else if password.utf8ByteSize < MIN_USER_PASSWORD_LEN then .error .userPasswordTooShort
  else if password.utf8ByteSize > MAX_USER_PASSWORD_LEN then .error .userPasswordTooLong
  else .ok ()

/-- (`POST /signin/email`) The name that goes into the private cookie. -/
def signinEmail (Ψ : ProfileCtx) (s : State) (user password : String) : Except ApiError UserId :=
  match checkLengths user password with
  | .error e => .error e
  | .ok () =>
    match s.users.get? user with
    | none => .error .signinFailed
    | some ui =>
      match ui.auth with
      | .password passHash => if Ψ.bcrypt.verify password passHash then .ok user else .error .signinFailed
      | .lightning => .error .signinFailed

/-- The new password, checked and hashed. -/
def newPasswordUpdate (Ψ : ProfileCtx) (user : UserInfo) (newPassword salt : String) : Except ApiError UpdateBody :=
  if newPassword.utf8ByteSize < MIN_USER_PASSWORD_LEN then .error .userPasswordTooShort
  else if newPassword.utf8ByteSize > MAX_USER_PASSWORD_LEN then .error .userPasswordTooLong
  else
    match Ψ.bcrypt.hash newPassword salt with
    | .error e => .error (.pwhash e)
    | .ok newPassHash => .ok (.passwordChange { user := user.username, newPassword := newPassHash })

/-- (`POST /password`) The old password is asked for where there is one; a wrong one is answered as a name that is too short. -/
def changePassword (Ψ : ProfileCtx) (user : UserInfo) (oldPassword newPassword salt : String) : Except ApiError UpdateBody :=
  match user.auth with
  | .password passHash =>
    if !Ψ.bcrypt.verify oldPassword passHash then .error .userNameTooShort else newPasswordUpdate Ψ user newPassword salt
  | .lightning => newPasswordUpdate Ψ user newPassword salt

/-- (`POST /profile/language`) -/
def setLanguage (user : UserInfo) (lang : Language) : Except ApiError UpdateBody :=
  if user.config.language = lang then .error .limitsNoChanges
  else .ok (.setLanguage { user := user.username, language := lang })

/-- A contact that is asked for: none, one to remove, or one that is valid. -/
def contact {α : Type} (fromStr : String → Option α) (invalid : ApiError) :
    Option String → Except ApiError (Option (Except Unit α))
  | none => .ok none
  | some text =>
    if text.isEmpty then .ok (some (.error ()))
    else
      match fromStr text with
      | some c => .ok (some (.ok c))
      | none => .error invalid

/-- (`POST /profile/settings/config`) The e-mail address is checked first. -/
def setUserConfig (Ψ : ProfileCtx) (user : UserInfo) (req : ConfigChangeRequest) : Except ApiError UpdateBody :=
  match contact Email.fromStr .invalidEmail req.email with
  | .error e => .error e
  | .ok email =>
    match contact (PhoneNumber.fromStr Ψ.classes) .invalidPhoneNumber req.phone with
    | .error e => .error e
    | .ok phone =>
      .ok (.configUpdate
        { user := user.username, email := email, phone := phone,
          tgName := req.tgName.map fun tgName => if tgName.isEmpty then .error () else .ok { tgName := tgName } })

/-- (`POST /profile/key`) Without a key in the request the user's is removed. -/
def setUserPublicKey (Ψ : ProfileCtx) (user : UserInfo) (key : Option String) : Except ApiError UpdateBody :=
  match key with
  | none => .ok (.setPublicKey { user := user.username, publicKey := none })
  | some text =>
    match Ψ.decodeKey text with
    | .ok publicKey => .ok (.setPublicKey { user := user.username, publicKey := some publicKey })
    | .error e => .error (.genericError e)

/-- (`POST /profile/limits/cancel`) -/
def cancelUserChange (user : UserInfo) (currency : Currency) : Except ApiError UpdateBody :=
  match user.limitChangeRequests.get? currency with
  | some v => .ok (.cancelLimitChange { id := v.id, user := user.username, currency := currency })
  | none => .error .limChangeNotFound

/-- (`POST /signup/email`) What is left of a sign-up when the ETH module has done its part. -/
def signupEmail (Ψ : ProfileCtx) (s : State) (data : SignupEmail) (salt : String) : Option UpdateBody :=
  match data.checkLengths, data.checkState s, Ψ.bcrypt.hash data.password salt with
  | .ok (), .ok (), .ok passHash => some (.signup (data.info passHash))
  | _, _, _ => none

end Profile

/-! ## The client -/

/-- A request to one of the handlers, or an update of another one or of a background task. -/
inductive ProfileCall where
  | signupEmail (data : SignupEmail) (salt : String)
  | changePassword (cookie : Option UserId) (oldPassword newPassword salt : String)
  | setLanguage (cookie : Option UserId) (lang : Language)
  | setUserConfig (cookie : Option UserId) (req : ConfigChangeRequest)
  | setUserPublicKey (cookie : Option UserId) (key : Option String)
  | cancelUserChange (cookie : Option UserId) (currency : Currency)
  | other (b : UpdateBody)

/-- The kinds of update that neither these handlers nor the workers send. -/
def UpdateBody.besidesProfile : UpdateBody → Bool
  | .signup _ => false
  | .passwordChange _ => false
  | .setLanguage _ => false
  | .configUpdate _ => false
  | .setPublicKey _ => false
  | .cancelLimitChange _ => false
  | .withdrawalRequestComplete _ => false
  | .withdrawalRequestNodeRejected _ => false
  | .snapshot _ => false
  | _ => true

/-- The update that a call makes, if it makes one. -/
def ProfileCall.update? (Ψ : ProfileCtx) (s : State) : ProfileCall → Option UpdateBody
  | .signupEmail data salt => Profile.signupEmail Ψ s data salt
  | .changePassword cookie oldPassword newPassword salt =>
    ((Profile.requireAuthUser s cookie).bind fun u => Profile.changePassword Ψ u oldPassword newPassword salt).toOption
  | .setLanguage cookie lang => ((Profile.requireAuthUser s cookie).bind fun u => Profile.setLanguage u lang).toOption
  | .setUserConfig cookie req => ((Profile.requireAuthUser s cookie).bind fun u => Profile.setUserConfig Ψ u req).toOption
  | .setUserPublicKey cookie key => ((Profile.requireAuthUser s cookie).bind fun u => Profile.setUserPublicKey Ψ u key).toOption
  | .cancelUserChange cookie currency => ((Profile.requireAuthUser s cookie).bind fun u => Profile.cancelUserChange u currency).toOption
  | .other b => if b.besidesProfile then some b else none

/-! ## What the handlers make -/

/-- The password of which a text is the hash is of an admitted length. -/
def ProfileCtx.HashesPassword (Ψ : ProfileCtx) (passHash password : String) : Prop :=
  (∃ salt, Ψ.bcrypt.hash password salt = .ok passHash) ∧
    MIN_USER_PASSWORD_LEN ≤ password.utf8ByteSize ∧ password.utf8ByteSize ≤ MAX_USER_PASSWORD_LEN

/-- The name is of an admitted length, and not that of the exchange. -/
def AdmittedName (user : UserId) : Prop :=
  MIN_USER_NAME_LEN ≤ user.utf8ByteSize ∧ user.utf8ByteSize ≤ MAX_USER_NAME_LEN ∧ user ≠ "hexstody-exchange"

/-- What an update brings into the State was checked. -/
def UpdateBody.Checked (Ψ : ProfileCtx) : UpdateBody → Prop
  | .signup info => AdmittedName info.username ∧ ∃ passHash password, info.auth = .password passHash ∧ Ψ.HashesPassword passHash password
  | .passwordChange req => ∃ password, Ψ.HashesPassword req.newPassword password
  | .configUpdate req => (∀ c, req.email = some (.ok c) → Email.validate c.email = true) ∧
      (∀ c, req.phone = some (.ok c) → PhoneNumber.validate Ψ.classes c.number = true) ∧ ∀ c, req.tgName = some (.ok c) → c.tgName ≠ ""
  | _ => True

namespace Profile

variable {Ψ : ProfileCtx} {s : State} {user : UserInfo} {b : UpdateBody}

theorem contact_eq_ok {α : Type} {fromStr : String → Option α} {invalid : ApiError} {asked : Option String}
    {out : Option (Except Unit α)} (h : contact fromStr invalid asked = .ok out) {c : α} (hc : out = some (.ok c)) :
    ∃ text, asked = some text ∧ fromStr text = some c := by
  subst hc
  cases asked with
  | none => cases h
  | some text =>
    refine ⟨text, rfl, ?_⟩
    simp only [contact] at h
    split at h
    · cases h
    · cases hf : fromStr text with
      | none =>
        rw [hf] at h
        cases h
      | some c' =>
        rw [hf] at h
        cases h
        rfl

theorem checked_setUserConfig {req : ConfigChangeRequest} (h : setUserConfig Ψ user req = .ok b) :
    b.Checked Ψ ∧ b.FromHandler := by
  unfold setUserConfig at h
  cases hemail : contact Email.fromStr .invalidEmail req.email with
  | error e =>
    rw [hemail] at h
    cases h
  | ok email =>
    cases hphone : contact (PhoneNumber.fromStr Ψ.classes) .invalidPhoneNumber req.phone with
    | error e =>
      simp only [hemail, hphone] at h
      cases h
    | ok phone =>
      simp only [hemail, hphone] at h
      cases h
      refine ⟨⟨fun c hc => ?_, fun c hc => ?_, fun c hc => ?_⟩, trivial⟩
      · obtain ⟨text, -, htext⟩ := contact_eq_ok hemail hc
        unfold Email.fromStr at htext
        split at htext
        · obtain rfl := Option.some.inj htext
          assumption
        · cases htext
      · obtain ⟨text, -, htext⟩ := contact_eq_ok hphone hc
        unfold PhoneNumber.fromStr at htext
        split at htext
        · obtain rfl := Option.some.inj htext
          assumption
        · cases htext
      · obtain ⟨text, -, htext⟩ := Option.map_eq_some_iff.mp hc
        by_cases hempty : text.isEmpty = true
        · rw [if_pos hempty] at htext
          cases htext
        · rw [if_neg hempty] at htext
          obtain rfl := Except.ok.inj htext
          rintro rfl
          exact hempty rfl

theorem checked_newPasswordUpdate {newPassword salt : String} (h : newPasswordUpdate Ψ user newPassword salt = .ok b) :
    b.Checked Ψ ∧ b.FromHandler := by
  unfold newPasswordUpdate at h
  split at h
  · cases h
  · split at h
    · cases h
    · cases hhash : Ψ.bcrypt.hash newPassword salt with
      | error e =>
        rw [hhash] at h
        cases h
      | ok newPassHash =>
        rw [hhash] at h
        cases h
        exact ⟨⟨newPassword, ⟨salt, hhash⟩, Nat.not_lt.mp ‹_›, Nat.not_lt.mp ‹_›⟩, trivial⟩

theorem checked_changePassword {oldPassword newPassword salt : String}
    (h : changePassword Ψ user oldPassword newPassword salt = .ok b) : b.Checked Ψ ∧ b.FromHandler := by
  unfold changePassword at h
  split at h
  · split at h
    · cases h
    · exact checked_newPasswordUpdate h
  · exact checked_newPasswordUpdate h

theorem checked_signupEmail {data : SignupEmail} {salt : String} (h : signupEmail Ψ s data salt = some b) :
    b.Checked Ψ ∧ b.FromHandler := by
  unfold signupEmail at h
  split at h
  case h_1 passHash hlen hstate hhash =>
    cases h
    unfold SignupEmail.checkLengths at hlen
    unfold SignupEmail.checkState at hstate
    split at hlen
    · cases hlen
    · split at hlen
      · cases hlen
      · split at hlen
        · cases hlen
        · split at hlen
          · cases hlen
          · split at hstate
            · cases hstate
            · rename_i hname hlong hshort hlongest hreserved
              refine ⟨⟨⟨Nat.not_lt.mp hname, Nat.not_lt.mp hlong, ?_⟩, passHash, data.password, rfl, ⟨salt, hhash⟩, Nat.not_lt.mp hshort,
                Nat.not_lt.mp hlongest⟩, trivial⟩
              intro heq
              have heq : data.user = "hexstody-exchange" := heq
              exact hreserved (by rw [heq]; simp)
  · cases h

end Profile

open Profile in
theorem ProfileCall.checked {Ψ : ProfileCtx} {s : State} {call : ProfileCall} {b : UpdateBody} (h : call.update? Ψ s = some b) :
    b.Checked Ψ ∧ b.FromHandler := by
  have hbind : ∀ {cookie : Option UserId} {f : UserInfo → Except ApiError UpdateBody},
      ((Profile.requireAuthUser s cookie).bind f).toOption = some b → ∃ u, f u = .ok b := by
    intro cookie f hf
    cases hu : Profile.requireAuthUser s cookie with
    | error e =>
      rw [hu] at hf
      cases hf
    | ok u =>
      rw [hu] at hf
      exact ⟨u, Handlers.toOption_eq_some hf⟩
  cases call with
  | signupEmail data salt => exact checked_signupEmail h
  | changePassword cookie oldPassword newPassword salt =>
    obtain ⟨u, hu⟩ := hbind h
    exact checked_changePassword hu
  | setLanguage cookie lang =>
    obtain ⟨u, hu⟩ := hbind h
    unfold Profile.setLanguage at hu
    split at hu <;> cases hu
    exact ⟨trivial, trivial⟩
  | setUserConfig cookie req =>
    obtain ⟨u, hu⟩ := hbind h
    exact checked_setUserConfig hu
  | setUserPublicKey cookie key =>
    obtain ⟨u, hu⟩ := hbind h
    unfold Profile.setUserPublicKey at hu
    split at hu
    · cases hu
      exact ⟨trivial, trivial⟩
    · split at hu <;> cases hu
      exact ⟨trivial, trivial⟩
  | cancelUserChange cookie currency =>
    obtain ⟨u, hu⟩ := hbind h
    unfold Profile.cancelUserChange at hu
    split at hu <;> cases hu
    exact ⟨trivial, trivial⟩
  | other b' =>
    have hif : (if b'.besidesProfile then some b' else none) = some b := h
    split at hif
    · obtain rfl := Option.some.inj hif
      cases b' <;> first | exact ⟨trivial, trivial⟩ | contradiction
    · cases hif

/-- The handlers, as a client of the hot wallet. -/
def profileWallet (Ψ : ProfileCtx) : Client ProfileCall where
  handle s call := call.update? Ψ s
  fromHandler _ _ _ h := (ProfileCall.checked h).2

end Hexstody
