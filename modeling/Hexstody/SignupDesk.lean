import Hexstody.History
import Hexstody.EthClient
import Hexstody.Tokens

/-!
# Sign-ups

`signup_email` while other requests run. A request reads under the mutex whether the user is there and the invite is valid, and gives
the mutex back; it asks the ETH module to create the user and to set the tokens, sends the sign-up to `update_worker` and answers
`Ok(())`. What becomes of the sign-up it does not hear. Between any two of its steps other requests make theirs, and the worker applies
what was sent before; the row that the worker stores may fail to be inserted, and then the update is lost.

The channel is unbounded here: a full one only makes a request wait. Other senders of updates than sign-ups are free. Of the ETH module
the logins are kept that have a row of `users_eth`: a login that is taken is not created again. What a request asks of the module is
what its URL selects. The removal of users, which only an instance for tests allows, is left out.
-/

namespace Hexstody

def MIN_USER_NAME_LEN : Nat := 3
def MAX_USER_NAME_LEN : Nat := 320
def MIN_USER_PASSWORD_LEN : Nat := 6
def MAX_USER_PASSWORD_LEN : Nat := 1024

structure SignupEmail where
  user : String
  invite : Invite
  password : String
  deriving DecidableEq, Repr

inductive SignupError where
  | userNameTooShort
  | userNameTooLong
  | userPasswordTooShort
  | userPasswordTooLong
  | signupExistedUser
  | inviteNotFound
  | failedEthConnection (e : String)
  | pwhash (e : String)
  deriving DecidableEq, Repr

namespace SignupEmail

/-- The lengths, in bytes. -/
def checkLengths (data : SignupEmail) : Except SignupError Unit :=
  if data.user.utf8ByteSize < MIN_USER_NAME_LEN then .error .userNameTooShort
  else if data.user.utf8ByteSize > MAX_USER_NAME_LEN then .error .userNameTooLong
  else if data.password.utf8ByteSize < MIN_USER_PASSWORD_LEN then .error .userPasswordTooShort
  else if data.password.utf8ByteSize > MAX_USER_PASSWORD_LEN then .error .userPasswordTooLong
  else .ok ()

/-- What the State is asked. -/
def checkState (data : SignupEmail) (s : State) : Except SignupError Unit :=
  if s.users.contains data.user || data.user == "hexstody-exchange" then .error .signupExistedUser
  else if !s.invites.contains data.invite then .error .inviteNotFound
  else .ok ()

/-- The sign-up that is sent, with the hash of the password. -/
def info (data : SignupEmail) (passHash : String) : SignupInfo :=
  { username := data.user, invite := data.invite, auth := .password passHash }

end SignupEmail

/-- A request of `signup_email`: what it does next, or what it answered. -/
inductive SignupCall where
  /-- It reads the State. -/
  | checking (data : SignupEmail)
  /-- It waits for `createuser`. -/
  | creating (data : SignupEmail)
  /-- It waits for `post_tokens`. -/
  | posting (data : SignupEmail)
  /-- It hashes the password and sends the sign-up. -/
  | sending (data : SignupEmail)
  | refused (data : SignupEmail) (e : SignupError)
  /-- It answered `Ok(())`, and this is the sign-up that it sent. -/
  | succeeded (info : SignupInfo)
  deriving DecidableEq, Repr

/-- How a request to the ETH module comes out for the client. -/
inductive EthOutcome where
  | done
  /-- The module did it, and the answer is lost. -/
  | lost (e : String)
  /-- The module did nothing. -/
  | failed (e : String)
  deriving DecidableEq, Repr

/-- The logins that have a row, after a request to the module; nothing where it is bound to fail, as no handler is selected, or the
login is taken, or is not there to be read. -/
def EthModule.serve (logins : List (List UInt8)) (req : EthRequest) : Option (List (List UInt8)) :=
  match EthModule.select req with
  | some { handler := .userCreate, params := [login], .. } => if login ∈ logins then none else some (login :: logins)
  | some { handler := .userRemove, params := [login], .. } => some (logins.filter (· ≠ login))
  | some { handler := .userGet, params := [login], .. } => if login ∈ logins then some logins else none
  | some { handler := .checkAddress, params := [login], .. } => if login ∈ logins then some logins else none
  | some { handler := .tokensGet, params := [login], .. } => if login ∈ logins then some logins else none
  | some _ => some logins
  | none => none

/-- The State, the channel into `update_worker`, the logins of the ETH module, and every request there was. -/
structure SignupDesk where
  journal : Journal
  queue : List StateUpdate
  logins : List (List UInt8)
  calls : List SignupCall

/-- One step: of the request with a number, of another sender of updates, or of `update_worker`. -/
inductive SignupAction where
  | request (data : SignupEmail)
  | check (n : Nat)
  | createuser (n : Nat) (outcome : EthOutcome)
  | postTokens (n : Nat) (outcome : EthOutcome)
  | send (n : Nat) (hash : Except String String) (created : NaiveDateTime)
  | other (up : StateUpdate)
  | apply (o : Oracle) (inserted : Bool)

/-- The updates that the rest of the application sends. -/
def UpdateBody.besidesSignups : UpdateBody → Bool
  | .snapshot _ => false
  | .signup _ => false
  | _ => true

/-- The sign-up that an update is. -/
def UpdateBody.signup? : UpdateBody → Option SignupInfo
  | .signup info => some info
  | _ => none

namespace SignupDesk

def setCall (d : SignupDesk) (n : Nat) (call : SignupCall) : SignupDesk := { d with calls := d.calls.set n call }

/-- A request asks the ETH module, and goes on if the module answers. -/
def ask (d : SignupDesk) (n : Nat) (data : SignupEmail) (req : EthRequest) (next : SignupCall) : EthOutcome → Option SignupDesk
  | .done => (EthModule.serve d.logins req).map fun logins => { d.setCall n next with logins := logins }
  | .lost e => (EthModule.serve d.logins req).map fun logins =>
      { d.setCall n (.refused data (.failedEthConnection e)) with logins := logins }
  | .failed e => some (d.setCall n (.refused data (.failedEthConnection e)))

/-- The update that sends a sign-up. -/
def signupUpdate (info : SignupInfo) (created : NaiveDateTime) : StateUpdate := { created := created, body := .signup info }

def step (d : SignupDesk) : SignupAction → Option SignupDesk
  | .request data =>
    match data.checkLengths with
    | .error e => some { d with calls := d.calls ++ [.refused data e] }
    | .ok () => some { d with calls := d.calls ++ [.checking data] }
  | .check n =>
    match d.calls[n]? with
    | some (.checking data) =>
      match data.checkState d.journal.state with
      | .error e => some (d.setCall n (.refused data e))
      | .ok () => some (d.setCall n (.creating data))
    | _ => none
  | .createuser n outcome =>
    match d.calls[n]? with
    | some (.creating data) => d.ask n data (EthClient.createuser data.user) (.posting data) outcome
    | _ => none
  | .postTokens n outcome =>
    match d.calls[n]? with
    | some (.posting data) => d.ask n data (EthClient.postTokens data.user Currency.defaultTokens) (.sending data) outcome
    | _ => none
  | .send n hash created =>
    match d.calls[n]?, hash with
    | some (.sending data), .error e => some (d.setCall n (.refused data (.pwhash e)))
    | some (.sending data), .ok passHash =>
      some { d.setCall n (.succeeded (data.info passHash)) with queue := d.queue ++ [signupUpdate (data.info passHash) created] }
    | _, _ => none
  | .other up => if up.body.besidesSignups then some { d with queue := d.queue ++ [up] } else none
  | .apply o inserted =>
    match d.queue with
    | up :: rest =>
      some { d with queue := rest, journal := if inserted then (d.journal.store o up).getD d.journal else d.journal }
    | [] => none

/-- From the empty State, with nothing under way. -/
def machine : Machine SignupDesk SignupAction where
  init d := ∃ now genesisHash,
    d = { journal := { state := State.new now genesisHash, rows := [] }, queue := [], logins := [], calls := [] }
  step := step

end SignupDesk

end Hexstody
