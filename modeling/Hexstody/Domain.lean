/-!
# The domain: currencies, addresses, limits, signatures

The data types of `hexstody-api` that the State and the handlers use. Machine integers are Lean's fixed-width types. A time
is only compared and passed on, so it is its number of nanoseconds since the epoch; an elliptic-curve key, a signature and an
identifier are only compared, so they are their bytes.
-/

namespace Hexstody

/-- A 128-bit identifier (`Uuid::new_v4`). -/
structure Uuid where
  bits : BitVec 128
  deriving DecidableEq, Repr

structure NaiveDateTime where
  nanos : Int
  deriving DecidableEq, Repr

structure PublicKey where
  bytes : List UInt8
  deriving DecidableEq, Repr

structure Signature where
  bytes : List UInt8
  deriving DecidableEq, Repr

/-- Signature data that comes with a signed request. -/
structure SignatureData where
  signature : Signature
  nonce : UInt64
  publicKey : PublicKey
  deriving DecidableEq, Repr

/-- Whether a key is among those of some signatures. -/
def hasSigned (sds : List SignatureData) (key : PublicKey) : Bool := sds.any (·.publicKey == key)

/-- Unique user id: an email address or the hex of a key. -/
abbrev UserId := String

/-! ## Currencies -/

structure Erc20Token where
  ticker : String
  name : String
  contract : String
  deriving DecidableEq, Repr

inductive Currency where
  | btc
  | eth
  | erc20 (token : Erc20Token)
  deriving DecidableEq, Repr

namespace Currency

def usdtErc20 : Currency :=
  .erc20 { ticker := "USDT", name := "USDT", contract := "0xdAC17F958D2ee523a2206206994597C13D831ec7" }

def crvErc20 : Currency :=
  .erc20 { ticker := "CRV", name := "CRV", contract := "0xd533a949740bb3306d119cc777fa900ba034cd52" }

def gtechErc20 : Currency :=
  .erc20 { ticker := "GTECH", name := "GTECH", contract := "0x866A4Da32007BA71aA6CcE9FD85454fCF48B140c" }

/-- List supported currencies at the moment. -/
def supported : List Currency := [.btc, .eth, usdtErc20, crvErc20, gtechErc20]

/-- List of currencies active by default for a new user. -/
def defaultCurrencies : List Currency :=
  supported.filterMap fun c =>
    match c with
    | .erc20 token => if token.ticker = "CRV" then none else some c
    | _ => some c

end Currency

/-! ## Addresses and transaction ids -/

structure BtcAddress where
  addr : String
  deriving DecidableEq, Repr

structure EthAccount where
  account : String
  deriving DecidableEq, Repr

structure Erc20 where
  token : Erc20Token
  account : EthAccount
  deriving DecidableEq, Repr

inductive CurrencyAddress where
  | btc (a : BtcAddress)
  | eth (a : EthAccount)
  | erc20 (a : Erc20)
  deriving DecidableEq, Repr

namespace CurrencyAddress

def currency : CurrencyAddress → Currency
  | .btc _ => .btc
  | .eth _ => .eth
  | .erc20 a => .erc20 a.token

def address : CurrencyAddress → String
  | .btc a => a.addr
  | .eth a => a.account
  | .erc20 a => a.account.account

end CurrencyAddress

structure BTCTxid where
  txid : String
  deriving DecidableEq, Repr

structure ETHTxid where
  txid : String
  deriving DecidableEq, Repr

inductive CurrencyTxId where
  | btc (t : BTCTxid)
  | eth (t : ETHTxid)
  deriving DecidableEq, Repr

def CurrencyTxId.currency : CurrencyTxId → Currency
  | .btc _ => .btc
  | .eth _ => .eth

/-- A transaction hash of the Bitcoin node, by the hex digits it is printed as. -/
structure Txid where
  hex : String
  deriving DecidableEq, Repr

/-- An address of the Bitcoin node, by the string it is printed as. -/
structure Address where
  display : String
  deriving DecidableEq, Repr

inductive TxDirection where
  | deposit | withdraw
  deriving DecidableEq, Repr

/-- Unconfirmed tx cancel or even reorg cancel (`TxCancel`, `BtcTxCancel`). -/
structure BtcTxCancel where
  direction : TxDirection
  txid : Txid
  vout : UInt32
  address : Address
  amount : UInt64
  timestamp : UInt64
  conflicts : List Txid
  deriving DecidableEq, Repr

/-! ## Limits -/

inductive LimitSpan where
  | day | week | month
  deriving DecidableEq, Repr

structure Limit where
  amount : UInt64
  span : LimitSpan
  deriving DecidableEq, Repr

structure LimitInfo where
  limit : Limit
  spent : UInt64
  deriving DecidableEq, Repr

/-- `LimitInfo::default`. -/
def LimitInfo.default : LimitInfo := { limit := { amount := 0, span := .day }, spent := 0 }

inductive LimitChangeStatus where
  | inProgress (confirmations rejections : Int16)
  | completed
  | rejected
  deriving DecidableEq, Repr

inductive ExchangeStatus where
  | completed
  | rejected
  | inProgress (confirmations rejections : Int16)
  deriving DecidableEq, Repr

/-! ## Users -/

structure Invite where
  invite : Uuid
  deriving DecidableEq, Repr

inductive Language where
  | english | russian
  deriving DecidableEq, Repr

structure Email where
  email : String
  deriving DecidableEq, Repr

structure PhoneNumber where
  number : String
  deriving DecidableEq, Repr

structure TgName where
  tgName : String
  deriving DecidableEq, Repr

/-- How a user authenticates: by a hashed password, or by a signature for each session. -/
inductive SignupAuth where
  | password (hash : String)
  | lightning
  deriving DecidableEq, Repr

/-! ## What an operator signs about a withdrawal -/

/-- The withdrawal an operator's decision is about, as it is signed. -/
structure ConfirmationData where
  id : Uuid
  user : UserId
  address : CurrencyAddress
  createdAt : String
  amount : UInt64
  deriving DecidableEq, Repr

/-- The confirmed withdrawal that is sent to the BTC module. -/
structure ConfirmedWithdrawal where
  id : Uuid
  user : UserId
  address : CurrencyAddress
  createdAt : String
  amount : UInt64
  confirmations : List SignatureData
  rejections : List SignatureData
  deriving DecidableEq, Repr

/-- What the BTC module answers to a withdrawal that it sent. -/
structure WithdrawalResponse where
  id : Uuid
  txid : Txid
  fee : Option UInt64
  inputAddresses : List CurrencyAddress
  outputAddresses : List CurrencyAddress
  deriving DecidableEq, Repr

/-! ## Errors -/

/-- It is unique withdrawal request ID within the system. -/
abbrev WithdrawalRequestId := Uuid

abbrev ExchangeOrderId := Uuid

/-- Why an update is refused. -/
inductive StateUpdateErr where
  | userAlreadyExists (user : UserId)
  | userNotFound (user : UserId)
  | userMissingCurrency (user : UserId) (currency : Currency)
  | depositAddressAlreadyAllocated (user : UserId) (address : CurrencyAddress)
  | withdrawalRequestNotFound (user : UserId) (id : WithdrawalRequestId)
  | withdrawalRequestConfirmationDuplicate (id : WithdrawalRequestId) (key : PublicKey)
  | withdrawalRequestRejectionDuplicate (id : WithdrawalRequestId) (key : PublicKey)
  | withdrawalRequestAlreadyConfirmed (id : WithdrawalRequestId)
  | withdrawalRequestAlreadyRejected (id : WithdrawalRequestId)
  | tokenAlreadyEnabled (token : Erc20Token)
  | tokenAlreadyDisabled (token : Erc20Token)
  | tokenNonZeroBalance (token : Erc20Token)
  | inviteAlreadyExist
  | inviteNotFound
  | limitChangeNotFound
  | limitAlreadyConfirmed
  | limitAlreadyRejected
  | limitOverflow
  | insufficientFunds (user : UserId) (currency : Currency)
  | userMissingExchange (user : String) (currency : Currency)
  | exchangeAlreadyConfirmed
  | exchangeAlreadyRejected
  deriving DecidableEq, Repr

end Hexstody
