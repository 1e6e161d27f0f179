import Hexstody.Domain

/-!
# Signatures

The two checks of `hexstody-sig`. Whether a signature of a text verifies under a key is a parameter (`Verify`): the scheme is not
part of the program. What is signed is text, joined with colons.
-/

namespace Hexstody

/-- A signature scheme: whether a signature of a text verifies under a key. -/
abbrev Verify := PublicKey → String → Signature → Bool

inductive SignatureError where
  | invalidPublicKey | invalidSignature | invalidDomain
  deriving DecidableEq, Repr

structure SignatureVerificationData where
  url : String
  signature : Signature
  nonce : UInt64
  publicKey : PublicKey
  message : Option String
  deriving DecidableEq, Repr

/-- The parts of a signed text, joined with colons. -/
def joined (parts : List String) : String := String.intercalate ":" parts

/-- The text that is signed is the url, the message if there is one, and the nonce; the key has to be an operator's. -/
def SignatureVerificationData.verify (V : Verify) (d : SignatureVerificationData) (operatorPublicKeys : List PublicKey) :
    Except SignatureError Unit :=
  if !operatorPublicKeys.contains d.publicKey then .error .invalidPublicKey
  else
    let messageItems :=
      match d.message with
      | none => [d.url, toString d.nonce]
      | some msg => [d.url, msg, toString d.nonce]
    if V d.publicKey (joined messageItems) d.signature then .ok () else .error .invalidSignature

/-- The text that is signed is the message and the nonce; the key has to be an operator's if there is a list of them. -/
def verifySignature (V : Verify) (operatorPublicKeys : Option (List PublicKey)) (publicKey : PublicKey) (nonce : UInt64)
    (message : String) (signature : Signature) : Except SignatureError Unit :=
  if (operatorPublicKeys.map (fun pks => !pks.contains publicKey)).getD false then .error .invalidPublicKey
  else if V publicKey (joined [message, toString nonce]) signature then .ok ()
  else .error .invalidSignature

/-- What the check accepts: a signature of the message and the nonce by the key, which is an operator's if there is a list. -/
theorem verifySignature_eq_ok_iff {V : Verify} {keys : Option (List PublicKey)} {k : PublicKey} {nonce : UInt64}
    {msg : String} {sig : Signature} :
    verifySignature V keys k nonce msg sig = .ok () ↔
      (∀ pks ∈ keys, k ∈ pks) ∧ V k (joined [msg, toString nonce]) sig = true := by
  unfold verifySignature
  cases keys with
  | none => simp
  | some pks => by_cases hk : k ∈ pks <;> simp [hk]

namespace SignatureVerificationData

variable {V : Verify} {d : SignatureVerificationData} {keys : List PublicKey}

/-- The text that `verify` takes the signature for. -/
def signedText (d : SignatureVerificationData) : String := joined (d.url :: (d.message.toList ++ [toString d.nonce]))

/-- What the check accepts: a signature of the text by an operator's key. -/
theorem verify_eq_ok_iff_signedText :
    d.verify V keys = .ok () ↔ d.publicKey ∈ keys ∧ V d.publicKey d.signedText d.signature = true := by
  unfold verify signedText
  by_cases hk : d.publicKey ∈ keys
  · cases hm : d.message with
    | none => by_cases hv : V d.publicKey (joined [d.url, toString d.nonce]) d.signature = true <;> simp [hk, hv]
    | some msg => by_cases hv : V d.publicKey (joined [d.url, msg, toString d.nonce]) d.signature = true <;> simp [hk, hv]
  · simp [hk]

/-- What the operators' guard accepts: a signature, by an operator's key, of the url, the message and the nonce. -/
theorem verify_eq_ok_iff {msg : String} (hm : d.message = some msg) :
    d.verify V keys = .ok () ↔
      d.publicKey ∈ keys ∧ V d.publicKey (joined [d.url, msg, toString d.nonce]) d.signature = true := by
  rw [verify_eq_ok_iff_signedText, signedText, hm]
  rfl

end SignatureVerificationData

end Hexstody
