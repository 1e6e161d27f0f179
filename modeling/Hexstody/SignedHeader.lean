import Hexstody.Library.Decimal
import Hexstody.Operator

/-!
# Signed requests, as they are sent

The `Signature-Data` header of a request to the operators' API: a signature, a nonce and a key, with colons between them. It is read
before a handler starts (`SignatureData.fromRequest`). How bytes are written as text, and signatures and keys as bytes, is a parameter
(`Encodings`). A secret key is what signs for a key (`SecretKey`); `ApiClient.genInvite` is the client that asks for an invite.
-/

namespace Hexstody

/-- How bytes are written as a text, and signatures and keys as bytes: base64 and DER. What is written is read back, and no colon is
written. -/
structure Encodings where
  base64Encode : List UInt8 → String
  base64Decode : String → Option (List UInt8)
  signatureToDer : Signature → List UInt8
  signatureFromDer : List UInt8 → Option Signature
  keyToDer : PublicKey → List UInt8
  keyFromDer : List UInt8 → Option PublicKey
  base64Decode_encode : ∀ bs, base64Decode (base64Encode bs) = some bs
  colon_notMem_base64Encode : ∀ bs, ':' ∉ (base64Encode bs).toList
  signatureFromDer_toDer : ∀ sig, signatureFromDer (signatureToDer sig) = some sig
  keyFromDer_toDer : ∀ key, keyFromDer (keyToDer key) = some key

namespace Encodings

variable (E : Encodings)

def signatureText (sig : Signature) : String := E.base64Encode (E.signatureToDer sig)

def keyText (key : PublicKey) : String := E.base64Encode (E.keyToDer key)

def readSignature (text : String) : Option Signature := (E.base64Decode text).bind E.signatureFromDer

def readKey (text : String) : Option PublicKey := (E.base64Decode text).bind E.keyFromDer

theorem readSignature_signatureText (sig : Signature) : E.readSignature (E.signatureText sig) = some sig := by
  rw [readSignature, signatureText, E.base64Decode_encode, Option.bind_some, E.signatureFromDer_toDer]

theorem readKey_keyText (key : PublicKey) : E.readKey (E.keyText key) = some key := by
  rw [readKey, keyText, E.base64Decode_encode, Option.bind_some, E.keyFromDer_toDer]

end Encodings

/-- What is wrong with the header. -/
inductive SignatureHeaderError where
  | missingSignatureData | invalidSignatureDataLength | invalidSignature | invalidNonce | invalidPublicKey | unknownPublicKey
  deriving DecidableEq, Repr

/-- What a route answers in place of its response: the status for a header that is not read, or the error of the handler. -/
inductive RouteError where
  | header (status : Nat) (e : SignatureHeaderError)
  | handler (e : HandlerError)
  deriving DecidableEq, Repr

namespace SignatureData

/-- (`SignatureData::from_request`) The header is read, or answered with the status 400. -/
def fromRequest (E : Encodings) (header : Option String) : Except RouteError SignatureData :=
  match header with
  | none => .error (.header 400 .missingSignatureData)
  | some sigData =>
    match sigData.toList.splitOn ':' with
    | [signatureStr, nonceStr, publicKeyStr] =>
      match E.readSignature (String.ofList signatureStr) with
      | none => .error (.header 400 .invalidSignature)
      | some signature =>
        match parseU64 (String.ofList nonceStr) with
        | none => .error (.header 400 .invalidNonce)
        | some nonce =>
          match E.readKey (String.ofList publicKeyStr) with
          | none => .error (.header 400 .invalidPublicKey)
          | some publicKey => .ok { signature := signature, nonce := nonce, publicKey := publicKey }
    | _ => .error (.header 400 .invalidSignatureDataLength)

/-- The header that is written: `format!("{}:{}:{}", ..)`. -/
def header (E : Encodings) (sd : SignatureData) : String :=
  joined [E.signatureText sd.signature, toString sd.nonce, E.keyText sd.publicKey]

end SignatureData

/-- A secret key: what it signs verifies under its public key. -/
structure SecretKey (V : Verify) where
  publicKey : PublicKey
  sign : String → Signature
  verifies : ∀ text, V publicKey text (sign text) = true

/-- What `hexstody-client` sends to ask for an invite. -/
structure InviteCall where
  endpoint : String
  signatureData : String
  body : InviteRequest

/-- (`gen_invite` of `hexstody-client`) The url of the operators' API is `operator`, and the nonce is 0. -/
def ApiClient.genInvite (E : Encodings) (inviteJson : InviteRequest → String) (operator : String) {V : Verify} (secretKey : SecretKey V)
    (inviteReq : InviteRequest) : InviteCall :=
  let endpoint := operator ++ "/invite/generate"
  let nonce : UInt64 := 0
  let messageToSign := joined [endpoint, inviteJson inviteReq, toString nonce]
  { endpoint := endpoint
    signatureData := SignatureData.header E
      { signature := secretKey.sign messageToSign, nonce := nonce, publicKey := secretKey.publicKey }
    body := inviteReq }

structure InviteResp where
  invite : Invite
  label : String
  deriving DecidableEq, Repr

/-- What is answered with the invite that was generated. -/
def InviteRec.toResp (r : InviteRec) : InviteResp := { invite := r.invite, label := r.label }

/-- The invite of an update that generates one. -/
def UpdateBody.inviteRec? : UpdateBody → Option InviteRec
  | .genInvite r => some r
  | _ => none

namespace Handlers

/-- (`POST /invite/generate`) The route: what is answered, and the update that is sent. There is none when all the identifiers that
were drawn are invites of the State. -/
def genInviteRoute (E : Encodings) (Γ : OpCtx) (s : State) (header : Option String) (req : InviteRequest) (ids : List Uuid) :
    Except RouteError (Option (InviteResp × UpdateBody)) :=
  match SignatureData.fromRequest E header with
  | .error e => .error e
  | .ok sd =>
    match genInvite Γ s sd req ids with
    | .error e => .error (.handler e)
    | .ok sent => .ok (sent.bind fun b => b.inviteRec?.map fun r => (r.toResp, b))

def listOpsInvitesUri : String := "/invite/listmy"

/-- (`GET /invite/listmy`) The invites of the State in the order of the map, if the key that signed is printed as theirs. -/
def listOpsInvites (Γ : OpCtx) (s : State) (sd : SignatureData) (order : IterOrder Invite) : Except HandlerError (List InviteResp) :=
  match guardOpSignatureNomsg Γ.ctx listOpsInvitesUri sd with
  | .error e => .error e
  | .ok () => .ok (((s.invites.iter order).map (·.2)).filterMap fun r =>
      if r.invitor = Γ.keyText sd.publicKey then some r.toResp else none)

end Handlers

end Hexstody
