import Hexstody.Journal

/-!
# Enabling and disabling tokens

The handlers `enable_token` and `disable_token`. Each works on a clone of the user that it takes when the request arrives: it
checks the clone, sends an update of the State, and then posts a list of tokens, computed from the clone, to the ETH module. The
lock of the State is free again as soon as the clone is taken, so that the requests of a user may overlap; the update may be applied
before the list is posted or after. `TokenApi.machine` is what one user does, with whatever updates the other tasks send.
-/

namespace Hexstody

def filterTokens (curs : List Currency) : List Erc20Token :=
  curs.filterMap fun c =>
    match c with
    | .erc20 token => some token
    | _ => none

/-- What is posted for a user who signs up. -/
def Currency.defaultTokens : List Erc20Token :=
  (filterTokens Currency.supported).filter fun token => ["USDT", "GTECH"].contains token.ticker

/-- The errors of the two handlers, before they send anything. -/
inductive TokenError where
  | tokenAlreadyEnabled (token : Erc20Token)
  | tokenAlreadyDisabled (token : Erc20Token)
  | tokenNonZeroBalance (token : Erc20Token)
  deriving DecidableEq, Repr

/-- A request that was not refused: the update that is sent, and the list that is posted after it. -/
structure TokenTask where
  update : TokenUpdate
  tokens : List Erc20Token
  /-- The update is sent. -/
  sent : Bool
  deriving DecidableEq, Repr

namespace Handlers

/-- (`POST /profile/tokens/enable`) -/
def enableToken (user : UserInfo) (token : Erc20Token) : Except TokenError TokenTask :=
  match user.currencies.get? (.erc20 token) with
  | some _ => .error (.tokenAlreadyEnabled token)
  | none =>
    .ok
      { update := { user := user.username, token := token, action := .enable }
        tokens := filterTokens user.currencies.keys ++ [token]
        sent := false }

/-- (`POST /profile/tokens/disable`) The list has the disabled token once for each other token that is enabled. -/
def disableToken (user : UserInfo) (token : Erc20Token) : Except TokenError TokenTask :=
  match user.currencies.get? (.erc20 token) with
  | none => .error (.tokenAlreadyDisabled token)
  | some info =>
    if info.balance > 0 then .error (.tokenNonZeroBalance token)
    else
      .ok
        { update := { user := user.username, token := token, action := .disable }
          tokens := user.currencies.keys.filterMap fun c =>
            match c with
            | .erc20 tok => if tok.ticker = token.ticker then none else some token
            | _ => none
          sent := false }

/-- Both handlers. -/
def changeToken (user : UserInfo) (token : Erc20Token) : TokenAction → Except TokenError TokenTask
  | .enable => enableToken user token
  | .disable => disableToken user token

variable {user : UserInfo} {token : Erc20Token} {task : TokenTask}

/-- What is enabled was not. -/
theorem enableToken_eq_ok (h : enableToken user token = .ok task) :
    user.currencies.get? (.erc20 token) = none ∧ task =
      { update := { user := user.username, token := token, action := .enable }
        tokens := filterTokens user.currencies.keys ++ [token]
        sent := false } := by
  unfold enableToken at h
  cases hc : user.currencies.get? (.erc20 token) with
  | some info => simp [hc] at h
  | none =>
    simp only [hc] at h
    exact ⟨rfl, (Except.ok.inj h).symm⟩

/-- What a list that is posted after a token is disabled has of another token: the one that is disabled. -/
def disabledTokens (token : Erc20Token) (c : Currency) : Option Erc20Token :=
  match c with
  | .erc20 tok => if tok.ticker = token.ticker then none else some token
  | _ => none

/-- What is disabled was enabled, with a balance of zero. -/
theorem disableToken_eq_ok (h : disableToken user token = .ok task) :
    (∃ info, user.currencies.get? (.erc20 token) = some info ∧ info.balance = 0) ∧ task =
      { update := { user := user.username, token := token, action := .disable }
        tokens := user.currencies.keys.filterMap (disabledTokens token)
        sent := false } := by
  unfold disableToken at h
  cases hc : user.currencies.get? (.erc20 token) with
  | none => simp [hc] at h
  | some info =>
    simp only [hc] at h
    by_cases hbal : info.balance > 0
    · rw [if_pos hbal] at h
      cases h
    · rw [if_neg hbal] at h
      have hzero : info.balance.toNat = 0 := Nat.le_zero.mp (UInt64.le_iff_toNat_le.mp (UInt64.not_lt.mp hbal))
      exact ⟨⟨info, rfl, UInt64.toNat_inj.mp hzero⟩, (Except.ok.inj h).symm⟩

end Handlers

/-- What a user's requests work on. -/
structure TokenApi where
  journal : Journal
  /-- The channel into `update_worker`, with the updates of all tasks. -/
  updates : List StateUpdate
  /-- The requests of the user that are being handled. -/
  tasks : List TokenTask
  /-- The list that was last stored for the user in the ETH module. -/
  stored : List Erc20Token

inductive TokenApiAction where
  /-- A request of the user arrives. -/
  | request (token : Erc20Token) (action : TokenAction)
  /-- A handler sends its update. -/
  | send (n : Nat) (created : NaiveDateTime)
  /-- A handler posts its list; the ETH module may not get it. -/
  | post (n : Nat) (delivered : Bool)
  /-- Another task sends an update. -/
  | other (up : StateUpdate)
  /-- `update_worker` takes the next update; the database may fail to store it. -/
  | apply (o : Oracle) (saved : Bool)

/-- The change of tokens that an update is. -/
def UpdateBody.tokenUpdate? : UpdateBody → Option TokenUpdate
  | .updateTokens req => some req
  | _ => none

/-- The ERC20 tokens that are keys of the user's currencies. -/
def State.userTokens (s : State) (u : UserId) : List Erc20Token :=
  match s.users.get? u with
  | none => []
  | some user => filterTokens user.currencies.keys

namespace TokenApi

/-- `require_auth_user`: the handler gets a clone of the user. -/
def request (u : UserId) (m : TokenApi) (token : Erc20Token) (action : TokenAction) : TokenApi :=
  match m.journal.state.users.get? u with
  | none => m
  | some user =>
    match Handlers.changeToken user token action with
    | .error _ => m
    | .ok task => { m with tasks := m.tasks ++ [task] }

def send (m : TokenApi) (n : Nat) (created : NaiveDateTime) : Option TokenApi :=
  match m.tasks[n]? with
  | none => none
  | some task =>
    if task.sent then none
    else
      some { m with
        updates := m.updates ++ [{ created := created, body := .updateTokens task.update }]
        tasks := m.tasks.set n { task with sent := true } }

def post (m : TokenApi) (n : Nat) (delivered : Bool) : Option TokenApi :=
  match m.tasks[n]? with
  | none => none
  | some task =>
    if task.sent then
      some { m with
        stored := if delivered then task.tokens else m.stored
        tasks := m.tasks.eraseIdx n }
    else none

/-- `update_worker`. -/
def apply (m : TokenApi) (o : Oracle) (saved : Bool) : Option TokenApi :=
  match m.updates with
  | [] => none
  | up :: updates =>
    match m.journal.store o up with
    | none => some { m with updates := updates }
    | some j => some { m with journal := if saved then j else m.journal, updates := updates }

/-- The changes of the user's tokens that are on the way to `update_worker`. -/
def waiting (u : UserId) (m : TokenApi) : List TokenUpdate :=
  m.updates.filterMap fun up => up.body.tokenUpdate?.filter fun req => req.user = u

/-- Nothing that changes the user's tokens is under way. -/
def Quiet (u : UserId) (m : TokenApi) : Prop := m.tasks = [] ∧ m.waiting u = []

/-- The list is, as a set, that of the user's tokens. -/
def Agrees (u : UserId) (m : TokenApi) : Prop := ∀ token, token ∈ m.stored ↔ token ∈ m.journal.state.userTokens u

/-- The updates of the user's tokens are sent by the two handlers only, and snapshots by nobody. -/
def step (u : UserId) (m : TokenApi) : TokenApiAction → Option TokenApi
  | .request token action => some (m.request u token action)
  | .send n created => m.send n created
  | .post n delivered => m.post n delivered
  | .other up =>
    if up.body.IsSnapshot ∨ ∃ req ∈ up.body.tokenUpdate?, req.user = u then none
    else some { m with updates := m.updates ++ [up] }
  | .apply o saved => m.apply o saved

/-- What one user does, from any State that knows the user by the name, when the list is right and nothing is under way. -/
def machine (u : UserId) : Machine TokenApi TokenApiAction where
  init m := (m.journal.state.users.get? u).map (·.username) = some u ∧ m.updates = [] ∧ m.tasks = [] ∧ m.Agrees u
  step := step u

end TokenApi

end Hexstody
