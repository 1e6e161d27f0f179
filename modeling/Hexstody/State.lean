import Hexstody.User

/-!
# The State and the updates of it

The State of the hot wallet (`state/mod.rs`) with what is looked up in it, the 23 kinds of update (`update/mod.rs`), and what an
update may answer (`update/results.rs`). `Oracle` is what the code takes from its surroundings while it applies an update or
searches the State: a fresh identifier, the time of day as it is printed, and the order in which each hash map is iterated over.
-/

namespace Hexstody

/-! ## The State -/

/-- Tracks state of BTC chain. -/
structure BtcState where
  height : UInt64
  blockHash : String
  deriving DecidableEq, Repr

structure InviteRec where
  invite : Invite
  invitor : String
  label : String
  deriving DecidableEq, Repr

structure State where
  /-- All known users of the system. -/
  users : AssocMap UserId UserInfo
  /-- Tracks when the state was last updated. -/
  lastChanged : NaiveDateTime
  btcState : BtcState
  invites : AssocMap Invite InviteRec
  /-- Special wallet for exchanges. -/
  exchangeState : ExchangeState

/-- What is taken from the surroundings: `Uuid::new_v4`, `Utc::now`, and the iteration orders. -/
structure Oracle where
  newId : Uuid
  now : String
  users : IterOrder UserId
  currencies : IterOrder Currency
  requests : IterOrder WithdrawalRequestId

namespace State

/-- The empty State (`State::new`), at a time and on a network with a given genesis block. -/
def new (now : NaiveDateTime) (genesisHash : String) : State where
  users := AssocMap.empty
  lastChanged := now
  btcState := { height := 0, blockHash := genesisHash }
  invites := AssocMap.empty
  exchangeState := ExchangeState.new

/-- The account of a user in a currency. -/
def currency? (s : State) (u : UserId) (c : Currency) : Option UserCurrencyInfo :=
  (s.users.get? u).bind (·.currencies.get? c)

/-- The withdrawal request with an id in an account. -/
def request? (s : State) (u : UserId) (c : Currency) (i : WithdrawalRequestId) : Option WithdrawalRequest :=
  (s.currency? u c).bind (·.withdrawalRequests.get? i)

/-- Change a user, if there is one. -/
def modifyUser (s : State) (u : UserId) (f : UserInfo → UserInfo) : State := { s with users := s.users.modify u f }

/-- Change an account, if there is one. -/
def modifyCurrency (s : State) (u : UserId) (c : Currency) (f : UserCurrencyInfo → UserCurrencyInfo) : State :=
  s.modifyUser u (fun ui => { ui with currencies := ui.currencies.modify c f })

/-- Change every account of every user. -/
def mapCurrencies (s : State) (f : UserCurrencyInfo → UserCurrencyInfo) : State :=
  { s with users := s.users.mapVals fun _ ui => { ui with currencies := ui.currencies.mapVals fun _ info => f info } }

/-- Find user by attached deposit address. -/
def findUserAddress (s : State) (o : Oracle) (address : CurrencyAddress) : Option UserId :=
  s.users.findVal? o.users (fun uid user => if user.hasAddress address then some uid else none)

/-- Check if the address belongs to exchange wallet. -/
def isExchangeAddress (s : State) (address : CurrencyAddress) : Bool :=
  match s.exchangeState.addresses.get? address.currency with
  | some addr => addr.address == address.address
  | none => false

/-- Find withdrawal by tx id. -/
def findWithdrawalByTxId (s : State) (o : Oracle) (txid : CurrencyTxId) : Option WithdrawalRequestId :=
  s.users.findVal? o.users (fun _ user => user.findCompletedRequest o.requests txid)

/-- Find a withdrawal request by its id. -/
def getWithdrawalRequest (s : State) (o : Oracle) (id : WithdrawalRequestId) : Option WithdrawalRequest :=
  s.users.findVal? o.users fun _ user =>
    user.currencies.findVal? o.currencies fun _ info =>
      info.withdrawalRequests.findVal? o.requests fun reqId req => if reqId = id then some req else none

end State

/-! ## The updates -/

structure SignupInfo where
  username : UserId
  invite : Invite
  auth : SignupAuth
  deriving DecidableEq, Repr

structure DepositAddress where
  userId : UserId
  address : CurrencyAddress
  deriving DecidableEq, Repr

structure BestBtcBlock where
  height : UInt64
  blockHash : String
  deriving DecidableEq, Repr

inductive TokenAction where
  | enable | disable
  deriving DecidableEq, Repr

structure TokenUpdate where
  user : UserId
  token : Erc20Token
  action : TokenAction
  deriving DecidableEq, Repr

structure SetLanguage where
  user : String
  language : Language
  deriving DecidableEq, Repr

/-- A change of the user's contacts: of each, nothing, a new one, or none (`Some(Err(()))`). -/
structure ConfigUpdateData where
  user : String
  email : Option (Except Unit Email)
  phone : Option (Except Unit PhoneNumber)
  tgName : Option (Except Unit TgName)

structure PasswordChangeUpd where
  user : String
  newPassword : String
  deriving DecidableEq, Repr

structure SetPublicKey where
  user : String
  publicKey : Option PublicKey
  deriving DecidableEq, Repr

inductive UpdateBody where
  /-- Create new account for user. -/
  | signup (info : SignupInfo)
  /-- Caching current state to database for speeding startup time. -/
  | snapshot (s : State)
  /-- Create new withdrawal request. -/
  | createWithdrawalRequest (info : WithdrawalRequestInfo)
  /-- New operator's decision for the withdrawal request. -/
  | withdrawalRequestDecision (info : WithdrawalRequestDecisionInfo)
  /-- The withdrawal is sent to the node. -/
  | withdrawalRequestComplete (info : WithdrawCompleteInfo)
  /-- Withdrawal request rejected by the node. -/
  | withdrawalRequestNodeRejected (info : WithdrawalRejectInfo)
  /-- Register new deposit address for user. -/
  | depositAddress (req : DepositAddress)
  /-- New best block for BTC. -/
  | bestBtcBlock (btc : BestBtcBlock)
  /-- Update state of BTC transaction. -/
  | updateBtcTx (tx : BtcTransaction)
  /-- Cancel BTC transaction. -/
  | cancelBtcTx (tx : BtcTxCancel)
  /-- Update token list. -/
  | updateTokens (req : TokenUpdate)
  /-- Generate invite. -/
  | genInvite (req : InviteRec)
  /-- Register limits change. -/
  | limitsChangeRequest (req : LimitChangeUpd)
  /-- Cancel limit change request. -/
  | cancelLimitChange (req : LimitCancelData)
  /-- Limit change decision. -/
  | limitChangeDecision (req : LimitChangeDecision)
  /-- Clear limits by span. -/
  | clearLimits (span : LimitSpan)
  | setLanguage (req : SetLanguage)
  /-- Update user's config. -/
  | configUpdate (req : ConfigUpdateData)
  /-- Change user's password. -/
  | passwordChange (req : PasswordChangeUpd)
  | setPublicKey (req : SetPublicKey)
  /-- Request an exchange from operators. -/
  | exchangeRequest (req : ExchangeOrderUpd)
  | exchangeDecision (req : ExchangeDecision)
  /-- Set up exchange deposit address. -/
  | exchangeAddress (req : CurrencyAddress)

/-- A row of the updates table: what is changed, and the time it is stamped with. -/
structure StateUpdate where
  created : NaiveDateTime
  body : UpdateBody

inductive UpdateResult where
  | withdrawConfirmed (id : WithdrawalRequestId)
  | withdrawalUnderlimit (r : WithdrawalRequest)
  deriving DecidableEq, Repr

/-- The update brings a State of its own. -/
def UpdateBody.IsSnapshot : UpdateBody → Prop
  | .snapshot _ => True
  | _ => False

instance (b : UpdateBody) : Decidable b.IsSnapshot := by
  cases b <;> first | exact isTrue trivial | exact isFalse id

end Hexstody
