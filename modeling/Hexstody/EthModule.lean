import Hexstody.Domain
import Hexstody.Library.AssocMap
import Hexstody.Library.Machine

/-!
# The users of the ETH module

The table of `hexstody-eth`, one row a user, and who writes to it. The handlers insert and delete rows, and set the tokens of one
(`tokens_post`). The poller (`update_stage`) reads all rows at once and goes through them: for each it asks the node for the
balance and the history, token by token, and then writes the whole `data` column, with the tokens that it has read. Each statement
of SQL is one step; between two steps of the poller anything else may happen.
-/

namespace Hexstody

structure Erc20HistUnitU where
  blockNumber : String
  timeStamp : String
  hash : String
  from' : String
  to' : String
  value : String
  tokenName : String
  gas : String
  gasPrice : String
  contractAddress : String
  confirmations : String
  addr : String
  deriving DecidableEq, Repr

structure Erc20TokenHistory where
  token : Erc20Token
  history : List Erc20HistUnitU
  deriving DecidableEq, Repr

structure Erc20TokenBalance where
  tokenName : String
  tokenBalance : String
  deriving DecidableEq, Repr

structure UserData where
  tokens : List Erc20Token
  historyEth : List Erc20HistUnitU
  historyTokens : List Erc20TokenHistory
  balanceEth : String
  balanceTokens : List Erc20TokenBalance
  deriving DecidableEq, Repr

/-- The columns of `users_eth`; `login` is the key. -/
structure UserRow where
  address : String
  data : UserData
  deriving DecidableEq, Repr

/-- A row, as it is read. -/
structure UserEth where
  login : String
  address : String
  data : UserData
  deriving DecidableEq, Repr

/-- Where `update_stage` is. -/
inductive Poller where
  /-- It sleeps until the next pass. -/
  | idle
  /-- These rows of those it read are left. -/
  | between (users : List UserEth)
  /-- It scans the tokens of a row, with what the node has answered so far. -/
  | scanning (u : UserEth) (sbaleth : String) (sethhist : List Erc20HistUnitU) (stokens : List Erc20Token)
      (histTokens : List Erc20TokenHistory) (balTokens : List Erc20TokenBalance) (users : List UserEth)
  deriving DecidableEq, Repr

/-- The rows that it has read and not yet written. -/
def Poller.held : Poller → List UserEth
  | .idle => []
  | .between users => users
  | .scanning u _ _ _ _ _ users => u :: users

structure EthModule where
  /-- The table `users_eth`. -/
  rows : AssocMap String UserRow
  poller : Poller
  /-- (ghost) The list of the last `tokens_post` for each user; none was posted when the user is created. -/
  posted : AssocMap String (List Erc20Token)

inductive EthAction where
  | userCreate (login address : String)
  | userRemove (login : String)
  | tokensPost (login : String) (tokens : List Erc20Token)
  /-- The poller reads the rows, in an order of the database. -/
  | queryUsers (order : IterOrder String)
  /-- The node answers for a user. -/
  | queryEth (balance : String) (history : List Erc20HistUnitU)
  /-- The node answers for a token of the user. -/
  | queryToken (history : Erc20TokenHistory) (balance : Erc20TokenBalance)
  /-- The poller writes the row. -/
  | updateUser
  /-- No row is left. -/
  | finish
  /-- The node or the database fails, and the pass ends. -/
  | abort

namespace EthModule

/-! ## Statements -/

def pgQueryUsers (m : EthModule) (order : IterOrder String) : List UserEth :=
  (m.rows.iter order).map fun e => { login := e.1, address := e.2.address, data := e.2.data }

/-- The statement fails if the login is taken. -/
def pgInsertUser (m : EthModule) (login address : String) (data : UserData) : EthModule :=
  if m.rows.contains login then m
  else { m with rows := m.rows.insert login { address := address, data := data } }

def pgRemoveUser (m : EthModule) (login : String) : EthModule := { m with rows := m.rows.erase login }

/-- `jsonb_set(data, '\x7btokens\x7d', tokens)`: the rest of the data is left. -/
def pgUpdateUserTokens (m : EthModule) (login : String) (tokens : List Erc20Token) : EthModule :=
  { m with rows := m.rows.modify login fun u => { u with data := { u.data with tokens := tokens } } }

/-- The tokens that are stored for a user. -/
def pgGetUserTokens (m : EthModule) (login : String) : Option (List Erc20Token) := (m.rows.get? login).map (·.data.tokens)

/-- The data is replaced. -/
def pgUpdateUserOld (m : EthModule) (login : String) (data : UserData) : EthModule :=
  { m with rows := m.rows.modify login fun u => { u with data := data } }

/-! ## Handlers and poller -/

/-- The request is noted, for a login that is free. -/
def userCreate (m : EthModule) (login address : String) : EthModule :=
  let ud : UserData := { tokens := [], historyEth := [], historyTokens := [], balanceEth := "0", balanceTokens := [] }
  let m' := m.pgInsertUser login address ud
  if m.rows.contains login then m' else { m' with posted := m.posted.insert login [] }

def userRemove (m : EthModule) (login : String) : EthModule :=
  { m.pgRemoveUser login with posted := m.posted.erase login }

/-- The request is noted, for a user that there is. -/
def tokensPost (m : EthModule) (login : String) (tokens : List Erc20Token) : EthModule :=
  { m.pgUpdateUserTokens login tokens with posted := m.posted.modify login fun _ => tokens }

/-- A step of the poller; each is made in one place of the loop only. -/
def updateStage (m : EthModule) : EthAction → Option EthModule
  | .queryUsers order =>
    match m.poller with
    | .idle => some { m with poller := .between (m.pgQueryUsers order) }
    | _ => none
  | .queryEth balance history =>
    match m.poller with
    | .between (u :: users) => some { m with poller := .scanning u balance history u.data.tokens [] [] users }
    | _ => none
  | .queryToken history balance =>
    match m.poller with
    | .scanning u sbaleth sethhist (_ :: stokens) histTokens balTokens users =>
      some { m with poller := .scanning u sbaleth sethhist stokens (histTokens ++ [history]) (balTokens ++ [balance]) users }
    | _ => none
  | .updateUser =>
    match m.poller with
    | .scanning u sbaleth sethhist [] histTokens balTokens users =>
      let userDataUpdated : UserData :=
        { tokens := u.data.tokens, historyEth := sethhist, historyTokens := histTokens, balanceEth := sbaleth,
          balanceTokens := balTokens }
      some { m.pgUpdateUserOld u.login userDataUpdated with poller := .between users }
    | _ => none
  | .finish =>
    match m.poller with
    | .between [] => some { m with poller := .idle }
    | _ => none
  | .abort => some { m with poller := .idle }
  | _ => none

def step (m : EthModule) : EthAction → Option EthModule
  | .userCreate login address => some (m.userCreate login address)
  | .userRemove login => some (m.userRemove login)
  | .tokensPost login tokens => some (m.tokensPost login tokens)
  | a => m.updateStage a

/-- The module before the first user. -/
def new : EthModule where
  rows := .empty
  poller := .idle
  posted := .empty

/-- The ETH module, with whoever sends requests to it. -/
def machine : Machine EthModule EthAction where
  init := (· = new)
  step := step

end EthModule

end Hexstody
