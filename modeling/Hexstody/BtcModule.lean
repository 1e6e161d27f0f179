import Hexstody.Sig

/-!
# The BTC module: paying withdrawals

The two handlers of the BTC module that pay (`hexstody-btc`, `api/public.rs`): `withdraw_btc`, which counts the operators'
signatures itself before it pays, and `withdraw_btc_under_limit`, which does not; and `get_fees`, which answers the rate of fees. The
Bitcoin node is a parameter: what its wallet answers to each call, and how addresses and transactions are decoded. A handler returns the
payment that it asked the node for, if it came that far, together with its response.
-/

namespace Hexstody

inductive Network where
  | bitcoin | testnet | signet | regtest
  deriving DecidableEq, Repr

/-- Configuration for the withdraw handlers. -/
structure WithdrawCfg where
  minConfirmations : Int16
  opPublicKeys : List PublicKey
  hotDomain : String
  network : Network
  deriving DecidableEq, Repr

/-- The error that a handler returns: the status, and the message with its code. -/
structure ErrorReply where
  status : Nat
  message : String
  code : UInt16
  deriving DecidableEq, Repr

/-- A call of `send_to_address`. -/
structure SendToAddress where
  address : Address
  amount : UInt64
  comment : String
  deriving DecidableEq, Repr

/-- What a transaction of the wallet does to one of its addresses. -/
inductive DetailCategory where
  | send | receive | generate | immature | orphan
  deriving DecidableEq, Repr

structure TxDetail where
  category : DetailCategory
  address : Option Address
  deriving DecidableEq, Repr

/-- A transaction, as the wallet reports it. -/
structure WalletTx where
  fee : Option Int64
  details : List TxDetail
  hex : List UInt8
  deriving DecidableEq, Repr

/-- The Bitcoin node, and the decoding of what it is asked and answers. An output is known by its script. -/
structure BtcNode where
  parseAddress : String → Option Address
  sendToAddress : SendToAddress → Except String Txid
  getTransaction : Txid → Except String WalletTx
  deserialize : List UInt8 → Except String (List (List UInt8))
  fromScript : List UInt8 → Network → Option Address

/-- What a handler of the BTC module works with. -/
structure BtcCtx where
  verify : Verify
  confirmationJson : ConfirmationData → String
  cfg : WithdrawCfg
  node : BtcNode

def WITHDRAWAL_CONFIRM_URI : String := "/confirm"

def WITHDRAWAL_REJECT_URI : String := "/reject"

/-- An identifier, as it is printed. -/
def Uuid.display (u : Uuid) : String :=
  let h := u.bits.toHex.toList
  let part (start len : Nat) : List Char := (h.drop start).take len
  String.ofList (part 0 8 ++ '-' :: part 8 4 ++ '-' :: part 12 4 ++ '-' :: part 16 4 ++ '-' :: part 20 12)

namespace BtcModule

def notBtc : ErrorReply := { status := 400, message := "Not BTC??", code := 500 }

def forbidden : ErrorReply := { status := 403, message := "Signature verification failed", code := 403 }

/-- A failure of the node. -/
def nodeError (what e : String) : ErrorReply := { status := 500, message := what ++ ": " ++ e, code := 500 }

/-- The addresses that a transaction of the wallet takes in at. -/
def inputAddresses (tx : WalletTx) : List CurrencyAddress :=
  tx.details.filterMap fun x =>
    match x.category with
    | .receive | .generate | .immature => x.address.map (fun a => .btc { addr := a.display })
    | _ => none

/-- The response for a payment that the node accepted. -/
def response (node : BtcNode) (network : Network) (cw : ConfirmedWithdrawal) (txid : Txid) :
    Except ErrorReply WithdrawalResponse :=
  match node.getTransaction txid with
  | .error e => .error (nodeError "Tx not found" e)
  | .ok tx =>
    match node.deserialize tx.hex with
    | .error e => .error (nodeError "Failed to deserialize tx" e)
    | .ok outputs =>
      .ok
        { id := cw.id, txid := txid, fee := tx.fee.map (fun f => f.abs.toUInt64), inputAddresses := inputAddresses tx,
          outputAddresses := outputs.filterMap fun out =>
            (node.fromScript out network).map (fun a => .btc { addr := a.display }) }

/-- Have the node pay a withdrawal. -/
def send (node : BtcNode) (network : Network) (cw : ConfirmedWithdrawal) :
    Option SendToAddress × Except ErrorReply WithdrawalResponse :=
  match cw.address with
  | .btc a =>
    match node.parseAddress a.addr with
    | none => (none, .error notBtc)
    | some addr =>
      let call : SendToAddress := { address := addr, amount := cw.amount, comment := cw.id.display }
      match node.sendToAddress call with
      | .error e => (some call, .error (nodeError "Failed to post the tx" e))
      | .ok txid => (some call, response node network cw txid)
  | _ => (none, .error notBtc)

/-- The withdrawal that the operators signed. -/
def confirmationData (cw : ConfirmedWithdrawal) : ConfirmationData where
  id := cw.id
  user := cw.user
  address := cw.address
  createdAt := cw.createdAt
  amount := cw.amount

/-- The text that is signed of a withdrawal, but for the nonce. -/
def signedText (Γ : BtcCtx) (uri : String) (cw : ConfirmedWithdrawal) : String :=
  joined [Γ.cfg.hotDomain ++ uri, Γ.confirmationJson (confirmationData cw)]

/-- The signature is valid, by one of the operators' keys. -/
def isValid (Γ : BtcCtx) (msg : String) (sd : SignatureData) : Bool :=
  match verifySignature Γ.verify (some Γ.cfg.opPublicKeys) sd.publicKey sd.nonce msg sd.signature with
  | .ok () => true
  | .error _ => false

/-- The loop that counts the valid signatures of a list. -/
def countValid (Γ : BtcCtx) (msg : String) (sigs : List SignatureData) : Int16 :=
  sigs.foldl (fun n sd => if isValid Γ msg sd then n + 1 else n) 0

/-- (`POST /withdraw`) -/
def withdrawBtc (Γ : BtcCtx) (cw : ConfirmedWithdrawal) : Option SendToAddress × Except ErrorReply WithdrawalResponse :=
  let validConfirms := countValid Γ (signedText Γ WITHDRAWAL_CONFIRM_URI cw) cw.confirmations
  let validRejections := countValid Γ (signedText Γ WITHDRAWAL_REJECT_URI cw) cw.rejections
  if validConfirms > validRejections ∧ validConfirms - validRejections ≥ Γ.cfg.minConfirmations then
    send Γ.node Γ.cfg.network cw
  else (none, .error forbidden)

/-- (`POST /withdraw/under`) -/
def withdrawBtcUnderLimit (Γ : BtcCtx) (cw : ConfirmedWithdrawal) :
    Option SendToAddress × Except ErrorReply WithdrawalResponse :=
  send Γ.node Γ.cfg.network cw

/-! ## The rate of fees -/

/-- What `estimate_smart_fee` answers: a rate, in satoshi for 1000 bytes, and the block where it was found. -/
structure EstimateSmartFeeResult where
  feeRate : Option UInt64
  blocks : Int64
  deriving DecidableEq, Repr

structure FeeResponse where
  feeRate : UInt64
  /-- Block number where estimate was found. None means that there was an error and a default value was used. -/
  block : Option Int64
  deriving DecidableEq, Repr

/-- (`GET /fees`) The default is 5 satoshi for a byte. -/
def getFees (est : Except String EstimateSmartFeeResult) : FeeResponse :=
  let res : FeeResponse := { feeRate := 5, block := none }
  match est with
  | .error _ => res
  | .ok fe =>
    match fe.feeRate with
    | none => res
    | some val => { feeRate := val, block := some fe.blocks }

end BtcModule

end Hexstody
