import Hexstody.Handlers

/-!
# Key login

A user who has no password signs in with a key (`hexstody-public`, `api/auth.rs`): the server issues a challenge for the user
(`get_challenge`), and whoever answers it with a signature gets the user's session (`redeem_challenge`). Each handler looks at
the State first and at the challenges later, without holding the State, so each is two steps here, and everything else that the
hot wallet does goes on in between. The challenges that were issued and the sessions that were opened are logged.
-/

namespace Hexstody

structure ChallengeResponse where
  user : UserId
  challenge : String
  deriving DecidableEq, Repr

/-- A request to redeem a challenge: the response, and the signature that comes with it. -/
structure Redemption where
  resp : ChallengeResponse
  sd : SignatureData
  deriving DecidableEq, Repr

/-- The signature scheme, the server's domain, and how a response is written as JSON. -/
structure LoginCtx where
  verify : Verify
  domain : String
  responseJson : ChallengeResponse → String

def redeemUri : String := "/signin/challenge/redeem"

structure Login where
  world : World
  /-- Runtime cache of challenges to log in with a key. -/
  challenges : AssocMap UserId String
  /-- Users that were looked up for a challenge. -/
  asking : List UserId
  /-- Redemptions whose signature was checked. -/
  checked : List Redemption
  /-- Every challenge that was issued, the last one first. -/
  issued : List (UserId × String)
  /-- Every redemption that opened a session. -/
  sessions : List Redemption

/-- One step of a login, or of anything else. -/
inductive LoginAction (ι : Type) where
  | wallet (a : Action ι)
  | getChallenge (user : UserId)
  | issue (n : Nat) (challenge : String)
  | redeem (r : Redemption)
  | compare (n : Nat)

namespace Login

/-- The text that is signed to redeem a challenge, but for the nonce. -/
def redeemText (Λ : LoginCtx) (resp : ChallengeResponse) : String :=
  joined [Λ.domain ++ redeemUri, Λ.responseJson resp]

/-- (`POST /signin/challenge/get`) The user is looked up. -/
def getChallenge (l : Login) (user : UserId) : Option Login :=
  if l.world.journal.state.users.contains user then some { l with asking := l.asking ++ [user] } else none

/-- The challenge is generated, anew, and kept in place of an earlier one. -/
def issue (l : Login) (n : Nat) (challenge : String) : Option Login :=
  match l.asking[n]? with
  | none => none
  | some user =>
    if ∀ p ∈ l.issued, p.2 ≠ challenge then
      some { l with
        asking := l.asking.eraseIdx n
        challenges := l.challenges.insert user challenge
        issued := (user, challenge) :: l.issued }
    else none

/-- (`POST /signin/challenge/redeem`) The user is looked up, and the signature checked, under the key that comes with it. -/
def redeem (Λ : LoginCtx) (l : Login) (r : Redemption) : Option Login :=
  if l.world.journal.state.users.contains r.resp.user then
    match verifySignature Λ.verify none r.sd.publicKey r.sd.nonce (redeemText Λ r.resp) r.sd.signature with
    | .ok () => some { l with checked := l.checked ++ [r] }
    | .error _ => none
  else none

/-- The challenge is compared; if it is the one that is kept, it is removed, and the session of the user is opened. -/
def compare (l : Login) (n : Nat) : Option Login :=
  match l.checked[n]? with
  | none => none
  | some r =>
    let l' := { l with checked := l.checked.eraseIdx n }
    match l.challenges.get? r.resp.user with
    | some stored =>
      if stored = r.resp.challenge then
        some { l' with challenges := l.challenges.erase r.resp.user, sessions := l.sessions ++ [r] }
      else some l'
    | none => some l'

/-- The hot wallet, with key login. -/
def machine {ι : Type} (Λ : LoginCtx) (C : Client ι) (k : Clock) : Machine Login (LoginAction ι) where
  init l := ∃ w, (World.machine C k).init w ∧ l =
    { world := w, challenges := AssocMap.empty, asking := [], checked := [], issued := [], sessions := [] }
  step l
    | .wallet a => ((World.machine C k).step l.world a).map (fun w => { l with world := w })
    | .getChallenge user => l.getChallenge user
    | .issue n challenge => l.issue n challenge
    | .redeem r => l.redeem Λ r
    | .compare n => l.compare n

/-- The last challenge that was issued to a user. -/
def latest (l : Login) (user : UserId) : Option String := (l.issued.find? (·.1 = user)).map Prod.snd

/-- The key that the State has for a user. -/
def storedKey? (l : Login) (user : UserId) : Option PublicKey := (l.world.journal.state.users.get? user).bind (·.publicKey)

end Login

end Hexstody
