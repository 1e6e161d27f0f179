import Hexstody.Library.Codec
import Hexstody.State

/-!
# The stored form of an update

A row of the updates table holds a tag, a version and the body of the update as JSON (`update/mod.rs`). The body is what the
derived encodings of the data types make of it: here is the encoding of each type that an update is made of, under the names
that the derivation takes from the source, then the tags with their texts, and the reading of a row (`UpdateTag.fromTag`). The
types of other libraries are written as texts and read back (`Texts`); a value of one that the program holds was read from such
a text or drawn at random.
-/

namespace Hexstody

open Codec

/-! ## Currencies and addresses -/

abbrev Erc20Token.record : Record Erc20Token where
  fields := Fields.build mk |>.field "ticker" (·.ticker) |>.field "name" (·.name) |>.field "contract" (·.contract)
  value_eq _ := rfl
  nodup := by simp

instance : Codec Erc20Token := Erc20Token.record.codec
instance : Total Erc20Token := Erc20Token.record.total

abbrev Currency.variants : Enum Currency where
  name
    | .btc => "BTC"
    | .eth => "ETH"
    | .erc20 _ => "ERC20"
  write
    | .btc => .ok none
    | .eth => .ok none
    | .erc20 token => some <$> encode token
  read
    | "BTC" => Enum.unit .btc
    | "ETH" => Enum.unit .eth
    | "ERC20" => Enum.newtype .erc20
    | n => fun _ => .error ("unknown variant " ++ n)
  read_write {s c} h := by
    cases s with
    | btc => exact Enum.unit_lossless h
    | eth => exact Enum.unit_lossless h
    | erc20 token => exact Enum.newtype_lossless h

instance : Codec Currency := Currency.variants.codec

instance : Total Currency :=
  Currency.variants.total fun s => by
    cases s with
    | btc => exact ⟨none, rfl⟩
    | eth => exact ⟨none, rfl⟩
    | erc20 token => exact Enum.newtype_total token

/-- Check if the currency is a token. -/
def Currency.isToken : Currency → Bool
  | .erc20 _ => true
  | _ => false

/-- A token is no key of a map: it is a variant around one value. -/
theorem Currency.isKey_iff (c : Currency) : IsKey c ↔ c.isToken = false := by
  rw [Currency.variants.isKey_iff]
  cases c with
  | btc => exact iff_of_true rfl rfl
  | eth => exact iff_of_true rfl rfl
  | erc20 token =>
    refine iff_of_false (fun h => ?_) Bool.true_eq_false.mp
    obtain ⟨j, -, hj⟩ := map_eq_ok h
    cases hj

abbrev BtcAddress.record : Record BtcAddress where
  fields := Fields.build mk |>.field "addr" (·.addr)
  value_eq _ := rfl
  nodup := by simp

abbrev EthAccount.record : Record EthAccount where
  fields := Fields.build mk |>.field "account" (·.account)
  value_eq _ := rfl
  nodup := by simp

instance : Codec EthAccount := EthAccount.record.codec
instance : Total EthAccount := EthAccount.record.total

abbrev Erc20.record : Record Erc20 where
  fields := Fields.build mk |>.field "token" (·.token) |>.field "account" (·.account)
  value_eq _ := rfl
  nodup := by simp

abbrev CurrencyAddress.variants : Tagged "type" CurrencyAddress where
  name
    | .btc _ => "BTC"
    | .eth _ => "ETH"
    | .erc20 _ => "ERC20"
  write
    | .btc a => BtcAddress.record.fields.write a
    | .eth a => EthAccount.record.fields.write a
    | .erc20 a => Erc20.record.fields.write a
  read
    | "BTC" => Tagged.record BtcAddress.record .btc
    | "ETH" => Tagged.record EthAccount.record .eth
    | "ERC20" => Tagged.record Erc20.record .erc20
    | n => fun _ => .error ("unknown variant " ++ n)
  read_write {s o j} h := by
    cases s with
    | btc a => exact Tagged.record_lossless (by simp) h
    | eth a => exact Tagged.record_lossless (by simp) h
    | erc20 a => exact Tagged.record_lossless (by simp) h

instance : Codec CurrencyAddress := CurrencyAddress.variants.codec

instance : Total CurrencyAddress :=
  CurrencyAddress.variants.total fun s => by
    cases s with
    | btc a => exact BtcAddress.record.writes a
    | eth a => exact EthAccount.record.writes a
    | erc20 a => exact Erc20.record.writes a

abbrev BTCTxid.record : Record BTCTxid where
  fields := Fields.build mk |>.field "txid" (·.txid)
  value_eq _ := rfl
  nodup := by simp

abbrev ETHTxid.record : Record ETHTxid where
  fields := Fields.build mk |>.field "txid" (·.txid)
  value_eq _ := rfl
  nodup := by simp

abbrev CurrencyTxId.variants : Tagged "type" CurrencyTxId where
  name
    | .btc _ => "BTC"
    | .eth _ => "ETH"
  write
    | .btc t => BTCTxid.record.fields.write t
    | .eth t => ETHTxid.record.fields.write t
  read
    | "BTC" => Tagged.record BTCTxid.record .btc
    | "ETH" => Tagged.record ETHTxid.record .eth
    | n => fun _ => .error ("unknown variant " ++ n)
  read_write {s o j} h := by
    cases s with
    | btc t => exact Tagged.record_lossless (by simp) h
    | eth t => exact Tagged.record_lossless (by simp) h

instance : Codec CurrencyTxId := CurrencyTxId.variants.codec

instance : Total CurrencyTxId :=
  CurrencyTxId.variants.total fun s => by
    cases s with
    | btc t => exact BTCTxid.record.writes t
    | eth t => exact ETHTxid.record.writes t

def TxDirection.names : Names TxDirection where
  name
    | .deposit => "Deposit"
    | .withdraw => "Withdraw"
  all := [.deposit, .withdraw]
  find a := by cases a <;> rfl

instance : Codec TxDirection := TxDirection.names.codec
instance : Total TxDirection := TxDirection.names.total

/-! ## Limits and statuses -/

def LimitSpan.names : Names LimitSpan where
  name
    | .day => "Day"
    | .week => "Week"
    | .month => "Month"
  all := [.day, .week, .month]
  find a := by cases a <;> rfl

instance : Codec LimitSpan := LimitSpan.names.codec
instance : Total LimitSpan := LimitSpan.names.total

abbrev Limit.record : Record Limit where
  fields := Fields.build mk |>.field "amount" (·.amount) |>.field "span" (·.span)
  value_eq _ := rfl
  nodup := by simp

instance : Codec Limit := Limit.record.codec
instance : Total Limit := Limit.record.total

abbrev LimitInfo.record : Record LimitInfo where
  fields := Fields.build mk |>.field "limit" (·.limit) |>.field "spent" (·.spent)
  value_eq _ := rfl
  nodup := by simp

instance : Codec LimitInfo := LimitInfo.record.codec
instance : Total LimitInfo := LimitInfo.record.total

/-- What `InProgress` holds: the number of confirmations and of rejections. -/
abbrev inProgressRecord : Record (Int16 × Int16) where
  fields := Fields.build Prod.mk |>.field "confirmations" (·.1) |>.field "rejections" (·.2)
  value_eq _ := rfl
  nodup := by simp

abbrev LimitChangeStatus.variants : Tagged "type" LimitChangeStatus where
  name
    | .inProgress .. => "InProgress"
    | .completed => "Completed"
    | .rejected => "Rejected"
  write
    | .inProgress confirmations rejections => inProgressRecord.fields.write (confirmations, rejections)
    | .completed => .ok []
    | .rejected => .ok []
  read
    | "InProgress" => Tagged.record inProgressRecord fun p => .inProgress p.1 p.2
    | "Completed" => fun _ => .ok .completed
    | "Rejected" => fun _ => .ok .rejected
    | n => fun _ => .error ("unknown variant " ++ n)
  read_write {s o j} h := by
    cases s with
    | inProgress confirmations rejections => exact Tagged.record_lossless (by simp) h
    | completed => rfl
    | rejected => rfl

instance : Codec LimitChangeStatus := LimitChangeStatus.variants.codec

instance : Total LimitChangeStatus :=
  LimitChangeStatus.variants.total fun s => by
    cases s with
    | inProgress confirmations rejections => exact inProgressRecord.writes (confirmations, rejections)
    | completed => exact ⟨[], rfl⟩
    | rejected => exact ⟨[], rfl⟩

abbrev ExchangeStatus.variants : Tagged "type" ExchangeStatus where
  name
    | .completed => "Completed"
    | .rejected => "Rejected"
    | .inProgress .. => "InProgress"
  write
    | .completed => .ok []
    | .rejected => .ok []
    | .inProgress confirmations rejections => inProgressRecord.fields.write (confirmations, rejections)
  read
    | "Completed" => fun _ => .ok .completed
    | "Rejected" => fun _ => .ok .rejected
    | "InProgress" => Tagged.record inProgressRecord fun p => .inProgress p.1 p.2
    | n => fun _ => .error ("unknown variant " ++ n)
  read_write {s o j} h := by
    cases s with
    | completed => rfl
    | rejected => rfl
    | inProgress confirmations rejections => exact Tagged.record_lossless (by simp) h

instance : Codec ExchangeStatus := ExchangeStatus.variants.codec

instance : Total ExchangeStatus :=
  ExchangeStatus.variants.total fun s => by
    cases s with
    | completed => exact ⟨[], rfl⟩
    | rejected => exact ⟨[], rfl⟩
    | inProgress confirmations rejections => exact inProgressRecord.writes (confirmations, rejections)

def WithdrawalRequestType.names : Names WithdrawalRequestType where
  name
    | .underLimit => "UnderLimit"
    | .overLimit => "OverLimit"
  all := [.underLimit, .overLimit]
  find a := by cases a <;> rfl

instance : Codec WithdrawalRequestType := WithdrawalRequestType.names.codec
instance : Total WithdrawalRequestType := WithdrawalRequestType.names.total

def WithdrawalRequestDecisionType.names : Names WithdrawalRequestDecisionType where
  name
    | .confirm => "Confirm"
    | .reject => "Reject"
  all := [.confirm, .reject]
  find a := by cases a <;> rfl

instance : Codec WithdrawalRequestDecisionType := WithdrawalRequestDecisionType.names.codec
instance : Total WithdrawalRequestDecisionType := WithdrawalRequestDecisionType.names.total

def LimitChangeDecisionType.names : Names LimitChangeDecisionType where
  name
    | .confirm => "Confirm"
    | .reject => "Reject"
  all := [.confirm, .reject]
  find a := by cases a <;> rfl

instance : Codec LimitChangeDecisionType := LimitChangeDecisionType.names.codec
instance : Total LimitChangeDecisionType := LimitChangeDecisionType.names.total

def ExchangeDecisionType.names : Names ExchangeDecisionType where
  name
    | .confirm => "Confirm"
    | .reject => "Reject"
  all := [.confirm, .reject]
  find a := by cases a <;> rfl

instance : Codec ExchangeDecisionType := ExchangeDecisionType.names.codec
instance : Total ExchangeDecisionType := ExchangeDecisionType.names.total

/-! ## Users and chains -/

def Language.names : Names Language where
  name
    | .english => "English"
    | .russian => "Russian"
  all := [.english, .russian]
  find a := by cases a <;> rfl

instance : Codec Language := Language.names.codec
instance : Total Language := Language.names.total

abbrev Email.record : Record Email where
  fields := Fields.build mk |>.field "email" (·.email)
  value_eq _ := rfl
  nodup := by simp

instance : Codec Email := Email.record.codec
instance : Total Email := Email.record.total
instance : NeverNull Email := Email.record.neverNull

abbrev PhoneNumber.record : Record PhoneNumber where
  fields := Fields.build mk |>.field "number" (·.number)
  value_eq _ := rfl
  nodup := by simp

instance : Codec PhoneNumber := PhoneNumber.record.codec
instance : Total PhoneNumber := PhoneNumber.record.total
instance : NeverNull PhoneNumber := PhoneNumber.record.neverNull

abbrev TgName.record : Record TgName where
  fields := Fields.build mk |>.field "tg_name" (·.tgName)
  value_eq _ := rfl
  nodup := by simp

instance : Codec TgName := TgName.record.codec
instance : Total TgName := TgName.record.total
instance : NeverNull TgName := TgName.record.neverNull

abbrev UserConfig.record : Record UserConfig where
  fields := Fields.build mk |>.field "language" (·.language) |>.field "email" (·.email) |>.field "phone" (·.phone)
    |>.field "tg_name" (·.tgName)
  value_eq _ := rfl
  nodup := by simp

instance : Codec UserConfig := UserConfig.record.codec
instance : Total UserConfig := UserConfig.record.total

abbrev SignupAuth.variants : Enum SignupAuth where
  name
    | .password _ => "Password"
    | .lightning => "Lightning"
  write
    | .password hash => some <$> encode hash
    | .lightning => .ok none
  read
    | "Password" => Enum.newtype .password
    | "Lightning" => Enum.unit .lightning
    | n => fun _ => .error ("unknown variant " ++ n)
  read_write {s c} h := by
    cases s with
    | password hash => exact Enum.newtype_lossless h
    | lightning => exact Enum.unit_lossless h

instance : Codec SignupAuth := SignupAuth.variants.codec

instance : Total SignupAuth :=
  SignupAuth.variants.total fun s => by
    cases s with
    | password hash => exact Enum.newtype_total hash
    | lightning => exact ⟨none, rfl⟩

abbrev BtcState.record : Record BtcState where
  fields := Fields.build mk |>.field "height" (·.height) |>.field "block_hash" (·.blockHash)
  value_eq _ := rfl
  nodup := by simp

instance : Codec BtcState := BtcState.record.codec
instance : Total BtcState := BtcState.record.total

abbrev EthTransaction.record : Record EthTransaction where
  fields := Fields.build mk |>.field "blockNumber" (·.blockNumber) |>.field "timeStamp" (·.timeStamp)
    |>.field "hash" (·.hash) |>.field "from" (·.fromAddress) |>.field "to" (·.toAddress) |>.field "value" (·.value)
    |>.field "tokenName" (·.tokenName) |>.field "gas" (·.gas) |>.field "gasPrice" (·.gasPrice)
    |>.field "contractAddress" (·.contractAddress) |>.field "confirmations" (·.confirmations) |>.field "addr" (·.addr)
  value_eq _ := rfl
  nodup := by simp

instance : Codec EthTransaction := EthTransaction.record.codec
instance : Total EthTransaction := EthTransaction.record.total

/-! ## Updates of chains, tokens and settings -/

abbrev LimitChangeUpd.record : Record LimitChangeUpd where
  fields := Fields.build mk |>.field "user" (·.user) |>.field "currency" (·.currency) |>.field "limit" (·.limit)
  value_eq _ := rfl
  nodup := by simp

instance : Codec LimitChangeUpd := LimitChangeUpd.record.codec
instance : Total LimitChangeUpd := LimitChangeUpd.record.total

abbrev DepositAddress.record : Record DepositAddress where
  fields := Fields.build mk |>.field "user_id" (·.userId) |>.field "address" (·.address)
  value_eq _ := rfl
  nodup := by simp

instance : Codec DepositAddress := DepositAddress.record.codec
instance : Total DepositAddress := DepositAddress.record.total

abbrev BestBtcBlock.record : Record BestBtcBlock where
  fields := Fields.build mk |>.field "height" (·.height) |>.field "block_hash" (·.blockHash)
  value_eq _ := rfl
  nodup := by simp

instance : Codec BestBtcBlock := BestBtcBlock.record.codec
instance : Total BestBtcBlock := BestBtcBlock.record.total

def TokenAction.names : Names TokenAction where
  name
    | .enable => "Enable"
    | .disable => "Disable"
  all := [.enable, .disable]
  find a := by cases a <;> rfl

instance : Codec TokenAction := TokenAction.names.codec
instance : Total TokenAction := TokenAction.names.total

abbrev TokenUpdate.record : Record TokenUpdate where
  fields := Fields.build mk |>.field "user" (·.user) |>.field "token" (·.token) |>.field "action" (·.action)
  value_eq _ := rfl
  nodup := by simp

instance : Codec TokenUpdate := TokenUpdate.record.codec
instance : Total TokenUpdate := TokenUpdate.record.total

abbrev SetLanguage.record : Record SetLanguage where
  fields := Fields.build mk |>.field "user" (·.user) |>.field "language" (·.language)
  value_eq _ := rfl
  nodup := by simp

instance : Codec SetLanguage := SetLanguage.record.codec
instance : Total SetLanguage := SetLanguage.record.total

abbrev ConfigUpdateData.record : Record ConfigUpdateData where
  fields := Fields.build mk |>.field "user" (·.user) |>.field "email" (·.email) |>.field "phone" (·.phone)
    |>.field "tg_name" (·.tgName)
  value_eq _ := rfl
  nodup := by simp

instance : Codec ConfigUpdateData := ConfigUpdateData.record.codec
instance : Total ConfigUpdateData := ConfigUpdateData.record.total

abbrev PasswordChangeUpd.record : Record PasswordChangeUpd where
  fields := Fields.build mk |>.field "user" (·.user) |>.field "new_password" (·.newPassword)
  value_eq _ := rfl
  nodup := by simp

instance : Codec PasswordChangeUpd := PasswordChangeUpd.record.codec
instance : Total PasswordChangeUpd := PasswordChangeUpd.record.total

/-! ## Types of other libraries -/

/-- The texts of the types that other libraries define. -/
class Texts where
  uuid : Text Uuid
  time : Text NaiveDateTime
  publicKey : Text PublicKey
  signature : Text Signature
  txid : Text Txid
  address : Text Address

variable [Texts]

instance : Codec Uuid := Texts.uuid.codec
instance : Total Uuid := Texts.uuid.total
instance : Keyed Uuid := Texts.uuid.keyed

instance : Codec NaiveDateTime := Texts.time.codec
instance : Total NaiveDateTime := Texts.time.total

instance : Codec PublicKey := Texts.publicKey.codec
instance : Total PublicKey := Texts.publicKey.total
instance : NeverNull PublicKey := Texts.publicKey.neverNull

instance : Codec Signature := Texts.signature.codec
instance : Total Signature := Texts.signature.total

instance : Codec Txid := Texts.txid.codec
instance : Total Txid := Texts.txid.total

instance : Codec Address := Texts.address.codec
instance : Total Address := Texts.address.total

abbrev SignatureData.record : Record SignatureData where
  fields := Fields.build mk |>.field "signature" (·.signature) |>.field "nonce" (·.nonce)
    |>.field "public_key" (·.publicKey)
  value_eq _ := rfl
  nodup := by simp

instance : Codec SignatureData := SignatureData.record.codec
instance : Total SignatureData := SignatureData.record.total

abbrev Invite.record : Record Invite where
  fields := Fields.build mk |>.field "invite" (·.invite)
  value_eq _ := rfl
  nodup := by simp

instance : Codec Invite := Invite.record.codec
instance : Total Invite := Invite.record.total

abbrev InviteRec.record : Record InviteRec where
  fields := Fields.build mk |>.field "invite" (·.invite) |>.field "invitor" (·.invitor) |>.field "label" (·.label)
  value_eq _ := rfl
  nodup := by simp

instance : Codec InviteRec := InviteRec.record.codec
instance : Total InviteRec := InviteRec.record.total

abbrev SignupInfo.record : Record SignupInfo where
  fields := Fields.build mk |>.field "username" (·.username) |>.field "invite" (·.invite) |>.field "auth" (·.auth)
  value_eq _ := rfl
  nodup := by simp

instance : Codec SignupInfo := SignupInfo.record.codec
instance : Total SignupInfo := SignupInfo.record.total

abbrev SetPublicKey.record : Record SetPublicKey where
  fields := Fields.build mk |>.field "user" (·.user) |>.field "public_key" (·.publicKey)
  value_eq _ := rfl
  nodup := by simp

instance : Codec SetPublicKey := SetPublicKey.record.codec
instance : Total SetPublicKey := SetPublicKey.record.total

/-! ## Transactions -/

abbrev BtcTransaction.record : Record BtcTransaction where
  fields := Fields.build mk |>.field "txid" (·.txid) |>.field "vout" (·.vout) |>.field "address" (·.address)
    |>.field "confirmations" (·.confirmations) |>.field "amount" (·.amount) |>.field "timestamp" (·.timestamp)
    |>.field "conflicts" (·.conflicts) |>.field "fee" (·.fee)
  value_eq _ := rfl
  nodup := by simp

instance : Codec BtcTransaction := BtcTransaction.record.codec
instance : Total BtcTransaction := BtcTransaction.record.total

abbrev BtcTxCancel.record : Record BtcTxCancel where
  fields := Fields.build mk |>.field "direction" (·.direction) |>.field "txid" (·.txid) |>.field "vout" (·.vout)
    |>.field "address" (·.address) |>.field "amount" (·.amount) |>.field "timestamp" (·.timestamp)
    |>.field "conflicts" (·.conflicts)
  value_eq _ := rfl
  nodup := by simp

instance : Codec BtcTxCancel := BtcTxCancel.record.codec
instance : Total BtcTxCancel := BtcTxCancel.record.total

abbrev Transaction.variants : Enum Transaction where
  name
    | .btc _ => "Btc"
    | .eth _ => "Eth"
  write
    | .btc tx => some <$> encode tx
    | .eth tx => some <$> encode tx
  read
    | "Btc" => Enum.newtype .btc
    | "Eth" => Enum.newtype .eth
    | n => fun _ => .error ("unknown variant " ++ n)
  read_write {s c} h := by
    cases s with
    | btc tx => exact Enum.newtype_lossless h
    | eth tx => exact Enum.newtype_lossless h

instance : Codec Transaction := Transaction.variants.codec

instance : Total Transaction :=
  Transaction.variants.total fun s => by
    cases s with
    | btc tx => exact Enum.newtype_total tx
    | eth tx => exact Enum.newtype_total tx

/-! ## Withdrawals -/

/-- What `Completed` holds. -/
structure WithdrawalRequestStatus.CompletedData where
  confirmedAt : NaiveDateTime
  txid : CurrencyTxId
  fee : Option UInt64
  inputAddresses : List CurrencyAddress
  outputAddresses : List CurrencyAddress

/-- What `NodeRejected` holds. -/
structure WithdrawalRequestStatus.NodeRejectedData where
  reason : String

abbrev WithdrawalRequestStatus.CompletedData.record : Record WithdrawalRequestStatus.CompletedData where
  fields := Fields.build mk |>.field "confirmed_at" (·.confirmedAt) |>.field "txid" (·.txid) |>.field "fee" (·.fee)
    |>.field "input_addresses" (·.inputAddresses) |>.field "output_addresses" (·.outputAddresses)
  value_eq _ := rfl
  nodup := by simp

instance : Codec WithdrawalRequestStatus.CompletedData := WithdrawalRequestStatus.CompletedData.record.codec
instance : Total WithdrawalRequestStatus.CompletedData := WithdrawalRequestStatus.CompletedData.record.total

abbrev WithdrawalRequestStatus.NodeRejectedData.record : Record WithdrawalRequestStatus.NodeRejectedData where
  fields := Fields.build mk |>.field "reason" (·.reason)
  value_eq _ := rfl
  nodup := by simp

instance : Codec WithdrawalRequestStatus.NodeRejectedData := WithdrawalRequestStatus.NodeRejectedData.record.codec
instance : Total WithdrawalRequestStatus.NodeRejectedData := WithdrawalRequestStatus.NodeRejectedData.record.total

abbrev WithdrawalRequestStatus.variants : Enum WithdrawalRequestStatus where
  name
    | .inProgress _ => "InProgress"
    | .confirmed => "Confirmed"
    | .completed .. => "Completed"
    | .opRejected => "OpRejected"
    | .nodeRejected _ => "NodeRejected"
  write
    | .inProgress n => some <$> encode n
    | .confirmed => .ok none
    | .completed confirmedAt txid fee inputAddresses outputAddresses =>
      some <$> encode (⟨confirmedAt, txid, fee, inputAddresses, outputAddresses⟩ : CompletedData)
    | .opRejected => .ok none
    | .nodeRejected reason => some <$> encode (⟨reason⟩ : NodeRejectedData)
  read
    | "InProgress" => Enum.newtype .inProgress
    | "Confirmed" => Enum.unit .confirmed
    | "Completed" =>
      Enum.newtype fun d : CompletedData =>
        .completed d.confirmedAt d.txid d.fee d.inputAddresses d.outputAddresses
    | "OpRejected" => Enum.unit .opRejected
    | "NodeRejected" => Enum.newtype fun d : NodeRejectedData => .nodeRejected d.reason
    | n => fun _ => .error ("unknown variant " ++ n)
  read_write {s c} h := by
    cases s with
    | inProgress n => exact Enum.newtype_lossless h
    | confirmed => exact Enum.unit_lossless h
    | completed confirmedAt txid fee inputAddresses outputAddresses => exact Enum.newtype_lossless h
    | opRejected => exact Enum.unit_lossless h
    | nodeRejected reason => exact Enum.newtype_lossless h

instance : Codec WithdrawalRequestStatus := WithdrawalRequestStatus.variants.codec

instance : Total WithdrawalRequestStatus :=
  WithdrawalRequestStatus.variants.total fun s => by
    cases s with
    | inProgress n => exact Enum.newtype_total n
    | confirmed => exact ⟨none, rfl⟩
    | completed confirmedAt txid fee inputAddresses outputAddresses => exact Enum.newtype_total _
    | opRejected => exact ⟨none, rfl⟩
    | nodeRejected reason => exact Enum.newtype_total _

abbrev WithdrawalRequestInfo.record : Record WithdrawalRequestInfo where
  fields := Fields.build mk |>.field "id" (·.id) |>.field "user" (·.user) |>.field "address" (·.address)
    |>.field "amount" (·.amount) |>.field "request_type" (·.requestType)
  value_eq _ := rfl
  nodup := by simp

instance : Codec WithdrawalRequestInfo := WithdrawalRequestInfo.record.codec
instance : Total WithdrawalRequestInfo := WithdrawalRequestInfo.record.total

abbrev WithdrawalRequestDecisionInfo.record : Record WithdrawalRequestDecisionInfo where
  fields := Fields.build mk |>.field "user_id" (·.userId) |>.field "currency" (·.currency)
    |>.field "request_id" (·.requestId) |>.field "url" (·.url) |>.field "signature" (·.signature) |>.field "nonce" (·.nonce)
    |>.field "public_key" (·.publicKey) |>.field "decision_type" (·.decisionType)
  value_eq _ := rfl
  nodup := by simp

instance : Codec WithdrawalRequestDecisionInfo := WithdrawalRequestDecisionInfo.record.codec
instance : Total WithdrawalRequestDecisionInfo := WithdrawalRequestDecisionInfo.record.total

abbrev WithdrawalRequestDecision.record : Record WithdrawalRequestDecision where
  fields := Fields.build mk |>.field "url" (·.url) |>.field "signature" (·.signature) |>.field "nonce" (·.nonce)
    |>.field "public_key" (·.publicKey)
  value_eq _ := rfl
  nodup := by simp

instance : Codec WithdrawalRequestDecision := WithdrawalRequestDecision.record.codec
instance : Total WithdrawalRequestDecision := WithdrawalRequestDecision.record.total

abbrev WithdrawCompleteInfo.record : Record WithdrawCompleteInfo where
  fields := Fields.build mk |>.field "id" (·.id) |>.field "confirmed_at" (·.confirmedAt) |>.field "txid" (·.txid)
    |>.field "fee" (·.fee) |>.field "input_addresses" (·.inputAddresses) |>.field "output_addresses" (·.outputAddresses)
    |>.field "request_type" (·.requestType)
  value_eq _ := rfl
  nodup := by simp

instance : Codec WithdrawCompleteInfo := WithdrawCompleteInfo.record.codec
instance : Total WithdrawCompleteInfo := WithdrawCompleteInfo.record.total

abbrev WithdrawalRejectInfo.record : Record WithdrawalRejectInfo where
  fields := Fields.build mk |>.field "id" (·.id) |>.field "reason" (·.reason)
  value_eq _ := rfl
  nodup := by simp

instance : Codec WithdrawalRejectInfo := WithdrawalRejectInfo.record.codec
instance : Total WithdrawalRejectInfo := WithdrawalRejectInfo.record.total

abbrev WithdrawalRequest.record : Record WithdrawalRequest where
  fields := Fields.build mk |>.field "id" (·.id) |>.field "user" (·.user) |>.field "address" (·.address)
    |>.field "created_at" (·.createdAt) |>.field "amount" (·.amount) |>.field "status" (·.status)
    |>.field "confirmations" (·.confirmations) |>.field "rejections" (·.rejections) |>.field "request_type" (·.requestType)
  value_eq _ := rfl
  nodup := by simp

instance : Codec WithdrawalRequest := WithdrawalRequest.record.codec
instance : Total WithdrawalRequest := WithdrawalRequest.record.total

/-! ## Limit changes and exchanges -/

abbrev LimitCancelData.record : Record LimitCancelData where
  fields := Fields.build mk |>.field "id" (·.id) |>.field "user" (·.user) |>.field "currency" (·.currency)
  value_eq _ := rfl
  nodup := by simp

instance : Codec LimitCancelData := LimitCancelData.record.codec
instance : Total LimitCancelData := LimitCancelData.record.total

abbrev LimitChangeData.record : Record LimitChangeData where
  fields := Fields.build mk |>.field "id" (·.id) |>.field "user" (·.user) |>.field "created_at" (·.createdAt)
    |>.field "status" (·.status) |>.field "currency" (·.currency) |>.field "limit" (·.limit)
    |>.field "confirmations" (·.confirmations) |>.field "rejections" (·.rejections)
  value_eq _ := rfl
  nodup := by simp

instance : Codec LimitChangeData := LimitChangeData.record.codec
instance : Total LimitChangeData := LimitChangeData.record.total

abbrev LimitChangeDecision.record : Record LimitChangeDecision where
  fields := Fields.build mk |>.field "id" (·.id) |>.field "user" (·.user) |>.field "currency" (·.currency)
    |>.field "created_at" (·.createdAt) |>.field "requested_limit" (·.requestedLimit) |>.field "url" (·.url)
    |>.field "signature" (·.signature) |>.field "nonce" (·.nonce) |>.field "public_key" (·.publicKey)
    |>.field "decision_type" (·.decisionType)
  value_eq _ := rfl
  nodup := by simp

instance : Codec LimitChangeDecision := LimitChangeDecision.record.codec
instance : Total LimitChangeDecision := LimitChangeDecision.record.total

abbrev ExchangeOrderUpd.record : Record ExchangeOrderUpd where
  fields := Fields.build mk |>.field "id" (·.id) |>.field "user" (·.user) |>.field "currency_from" (·.currencyFrom)
    |>.field "currency_to" (·.currencyTo) |>.field "amount_from" (·.amountFrom) |>.field "amount_to" (·.amountTo)
    |>.field "created_at" (·.createdAt)
  value_eq _ := rfl
  nodup := by simp

instance : Codec ExchangeOrderUpd := ExchangeOrderUpd.record.codec
instance : Total ExchangeOrderUpd := ExchangeOrderUpd.record.total

abbrev ExchangeOrder.record : Record ExchangeOrder where
  fields := Fields.build mk |>.field "id" (·.id) |>.field "user" (·.user) |>.field "currency_from" (·.currencyFrom)
    |>.field "currency_to" (·.currencyTo) |>.field "amount_from" (·.amountFrom) |>.field "amount_to" (·.amountTo)
    |>.field "status" (·.status) |>.field "created_at" (·.createdAt) |>.field "confirmations" (·.confirmations)
    |>.field "rejections" (·.rejections)
  value_eq _ := rfl
  nodup := by simp

instance : Codec ExchangeOrder := ExchangeOrder.record.codec
instance : Total ExchangeOrder := ExchangeOrder.record.total

abbrev ExchangeDecision.record : Record ExchangeDecision where
  fields := Fields.build mk |>.field "user" (·.user) |>.field "id" (·.id) |>.field "currency_from" (·.currencyFrom)
    |>.field "currency_to" (·.currencyTo) |>.field "amount_from" (·.amountFrom) |>.field "amount_to" (·.amountTo)
    |>.field "url" (·.url) |>.field "signature" (·.signature) |>.field "nonce" (·.nonce) |>.field "public_key" (·.publicKey)
    |>.field "decision" (·.decision)
  value_eq _ := rfl
  nodup := by simp

instance : Codec ExchangeDecision := ExchangeDecision.record.codec
instance : Total ExchangeDecision := ExchangeDecision.record.total

/-! ## The State -/

abbrev UserCurrencyInfo.record : Record UserCurrencyInfo where
  fields := Fields.build mk |>.field "currency" (·.currency) |>.field "deposit_info" (·.depositInfo)
    |>.field "transactions" (·.transactions) |>.field "withdrawal_requests" (·.withdrawalRequests)
    |>.field "exchange_requests" (·.exchangeRequests) |>.field "incoming_exchange_requests" (·.incomingExchangeRequests)
    |>.field "limit_info" (·.limitInfo)
  value_eq _ := rfl
  nodup := by simp

instance : Codec UserCurrencyInfo := UserCurrencyInfo.record.codec
instance : Total UserCurrencyInfo := UserCurrencyInfo.record.total

abbrev UserInfo.record : Record UserInfo where
  fields := Fields.build mk |>.field "username" (·.username) |>.field "invite" (·.invite) |>.field "auth" (·.auth)
    |>.field "created_at" (·.createdAt) |>.field "withdrawal_requests" (·.withdrawalRequests)
    |>.field "completed_requests" (·.completedRequests) |>.field "currencies" (·.currencies)
    |>.field "limit_change_requests" (·.limitChangeRequests) |>.field "config" (·.config)
    |>.field "public_key" (·.publicKey)
  value_eq _ := rfl
  nodup := by simp

instance : Codec UserInfo := UserInfo.record.codec

abbrev ExchangeState.record : Record ExchangeState where
  fields := Fields.build mk |>.field "exchanges" (·.exchanges) |>.field "addresses" (·.addresses)
    |>.field "deposits" (·.deposits) |>.field "balances" (·.balances)
  value_eq _ := rfl
  nodup := by simp

instance : Codec ExchangeState := ExchangeState.record.codec

abbrev State.record : Record State where
  fields := Fields.build mk |>.field "users" (·.users) |>.field "last_changed" (·.lastChanged)
    |>.field "btc_state" (·.btcState) |>.field "invites" (·.invites) |>.field "exchange_state" (·.exchangeState)
  value_eq _ := rfl
  nodup := by simp

instance : Codec State := State.record.codec

/-! ## Tags and rows -/

inductive UpdateTag where
  | signup
  | snapshot
  | createWithdrawalRequest
  | withdrawalRequestDecision
  | withdrawalRequestConfirm
  | withdrawalRequestNodeRejected
  | depositAddress
  | bestBtcBlock
  | updateBtcTx
  | cancelBtcTx
  | updateTokens
  | genInvite
  | limitsChangeRequest
  | cancelLimitChange
  | limitChangeDecision
  | clearLimits
  | setLanguage
  | configUpdate
  | passwordChange
  | setPublicKey
  | exchangeRequest
  | exchangeDecision
  | exchangeAddress
  deriving DecidableEq, Repr

structure UnknownUpdateTag where
  tag : String
  deriving DecidableEq, Repr

inductive UpdateBodyError where
  | unknownTag (e : UnknownUpdateTag)
  | deserialize (version : UInt16) (tag : UpdateTag) (e : String) (body : Json)
  | unexpectedVersion (version : UInt16)

def CURRENT_BODY_VERSION : UInt16 := 0

/-- `str::to_lowercase`, up to characters that no text of a tag has: apart from the letters it lowers, only the Kelvin sign
becomes an ASCII letter. -/
def toLowercase (s : String) : String :=
  String.ofList (s.toList.map fun c => if c.toNat = 0x212A then 'k' else c.toLower)

namespace UpdateTag

def toText : UpdateTag → String
  | .signup => "signup"
  | .snapshot => "snapshot"
  | .createWithdrawalRequest => "withdrawal request"
  | .withdrawalRequestDecision => "withdrawal request decision"
  | .withdrawalRequestConfirm => "withdrawal request confirm"
  | .withdrawalRequestNodeRejected => "withdrawal request node rejected"
  | .depositAddress => "deposit address"
  | .bestBtcBlock => "best btc block"
  | .updateBtcTx => "update btc tx"
  | .cancelBtcTx => "cancel btc tx"
  | .updateTokens => "update tokens"
  | .genInvite => "gen invite"
  | .limitsChangeRequest => "limits change req"
  | .cancelLimitChange => "cancel limits change"
  | .limitChangeDecision => "limit change decision"
  | .clearLimits => "clear limits"
  | .setLanguage => "set language"
  | .configUpdate => "user config update"
  | .passwordChange => "password change"
  | .setPublicKey => "set public key"
  | .exchangeRequest => "exchange request"
  | .exchangeDecision => "exchange decision"
  | .exchangeAddress => "exchange address"

def fromStr (s : String) : Except UnknownUpdateTag UpdateTag :=
  match toLowercase s with
  | "signup" => .ok .signup
  | "snapshot" => .ok .snapshot
  | "withdrawal request" => .ok .createWithdrawalRequest
  | "withdrawal request decision" => .ok .withdrawalRequestDecision
  | "withdrawal request confirm" => .ok .withdrawalRequestConfirm
  | "withdrawal request node rejected" => .ok .withdrawalRequestNodeRejected
  | "deposit address" => .ok .depositAddress
  | "best btc block" => .ok .bestBtcBlock
  | "update btc tx" => .ok .updateBtcTx
  | "cancel btc tx" => .ok .cancelBtcTx
  | "update tokens" => .ok .updateTokens
  | "gen invite" => .ok .genInvite
  | "limits change req" => .ok .limitsChangeRequest
  | "cancel limits change" => .ok .cancelLimitChange
  | "limit change decision" => .ok .limitChangeDecision
  | "clear limits" => .ok .clearLimits
  | "set language" => .ok .setLanguage
  | "user config update" => .ok .configUpdate
  | "password change" => .ok .passwordChange
  | "set public key" => .ok .setPublicKey
  | "exchange request" => .ok .exchangeRequest
  | "exchange decision" => .ok .exchangeDecision
  | "exchange address" => .ok .exchangeAddress
  | _ => .error ⟨s⟩

/-- The body of a row under its tag. -/
def deserialize (value : Json) : UpdateTag → Except String UpdateBody
  | .signup => .signup <$> decode value
  | .snapshot => .snapshot <$> decode value
  | .createWithdrawalRequest => .createWithdrawalRequest <$> decode value
  | .withdrawalRequestDecision => .withdrawalRequestDecision <$> decode value
  | .withdrawalRequestConfirm => .withdrawalRequestComplete <$> decode value
  | .withdrawalRequestNodeRejected => .withdrawalRequestNodeRejected <$> decode value
  | .depositAddress => .depositAddress <$> decode value
  | .bestBtcBlock => .bestBtcBlock <$> decode value
  | .updateBtcTx => .updateBtcTx <$> decode value
  | .cancelBtcTx => .cancelBtcTx <$> decode value
  | .updateTokens => .updateTokens <$> decode value
  | .genInvite => .genInvite <$> decode value
  | .limitsChangeRequest => .limitsChangeRequest <$> decode value
  | .cancelLimitChange => .cancelLimitChange <$> decode value
  | .limitChangeDecision => .limitChangeDecision <$> decode value
  | .clearLimits => .clearLimits <$> decode value
  | .setLanguage => .setLanguage <$> decode value
  | .configUpdate => .configUpdate <$> decode value
  | .passwordChange => .passwordChange <$> decode value
  | .setPublicKey => .setPublicKey <$> decode value
  | .exchangeRequest => .exchangeRequest <$> decode value
  | .exchangeDecision => .exchangeDecision <$> decode value
  | .exchangeAddress => .exchangeAddress <$> decode value

/-- The update of a row. -/
def fromTag (tag : String) (version : UInt16) (value : Json) : Except UpdateBodyError UpdateBody :=
  match fromStr tag with
  | .error e => .error (.unknownTag e)
  | .ok tag =>
    if version ≠ CURRENT_BODY_VERSION then .error (.unexpectedVersion version)
    else
      match tag.deserialize value with
      | .ok body => .ok body
      | .error e => .error (.deserialize version tag e value)

end UpdateTag

namespace UpdateBody

def tag : UpdateBody → UpdateTag
  | .signup _ => .signup
  | .snapshot _ => .snapshot
  | .createWithdrawalRequest _ => .createWithdrawalRequest
  | .withdrawalRequestDecision _ => .withdrawalRequestDecision
  | .withdrawalRequestComplete _ => .withdrawalRequestConfirm
  | .withdrawalRequestNodeRejected _ => .withdrawalRequestNodeRejected
  | .depositAddress _ => .depositAddress
  | .bestBtcBlock _ => .bestBtcBlock
  | .updateBtcTx _ => .updateBtcTx
  | .cancelBtcTx _ => .cancelBtcTx
  | .updateTokens _ => .updateTokens
  | .genInvite _ => .genInvite
  | .limitsChangeRequest _ => .limitsChangeRequest
  | .cancelLimitChange _ => .cancelLimitChange
  | .limitChangeDecision _ => .limitChangeDecision
  | .clearLimits _ => .clearLimits
  | .setLanguage _ => .setLanguage
  | .configUpdate _ => .configUpdate
  | .passwordChange _ => .passwordChange
  | .setPublicKey _ => .setPublicKey
  | .exchangeRequest _ => .exchangeRequest
  | .exchangeDecision _ => .exchangeDecision
  | .exchangeAddress _ => .exchangeAddress

def json : UpdateBody → Except String Json
  | .signup v => encode v
  | .snapshot v => encode v
  | .createWithdrawalRequest v => encode v
  | .withdrawalRequestDecision v => encode v
  | .withdrawalRequestComplete v => encode v
  | .withdrawalRequestNodeRejected v => encode v
  | .depositAddress v => encode v
  | .bestBtcBlock v => encode v
  | .updateBtcTx v => encode v
  | .cancelBtcTx v => encode v
  | .updateTokens v => encode v
  | .genInvite v => encode v
  | .limitsChangeRequest v => encode v
  | .cancelLimitChange v => encode v
  | .limitChangeDecision v => encode v
  | .clearLimits v => encode v
  | .setLanguage v => encode v
  | .configUpdate v => encode v
  | .passwordChange v => encode v
  | .setPublicKey v => encode v
  | .exchangeRequest v => encode v
  | .exchangeDecision v => encode v
  | .exchangeAddress v => encode v

end UpdateBody

end Hexstody
