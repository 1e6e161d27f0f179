import Hexstody.Balances
import Hexstody.Listing
import Hexstody.Profile
import Hexstody.Routes

/-!
# The book of limits

What the users are shown of their limits (`get_user_limits`) and of the changes that they ask for (`get_user_limit_changes`), both in
whatever order the hash maps have. Beside it, what limits are for: a book with a page for each account, on which the limit in force
stands and the change that is asked for, with the votes for and against it. A change is made or dropped as soon as one side is two
ahead. The book knows neither statuses nor counters, and is written from the rows of the journal alone (`Journal.limitPage`).
-/

namespace Hexstody

/-! ## What the users are shown -/

structure LimitApiResp where
  currency : Currency
  limitInfo : LimitInfo
  deriving DecidableEq, Repr

structure LimitChangeResponse where
  id : Uuid
  user : String
  createdAt : String
  currency : Currency
  limit : Limit
  status : LimitChangeStatus
  deriving DecidableEq, Repr

namespace LimitChangeData

/-- `Into<LimitChangeResponse>` -/
def toResponse (l : LimitChangeData) : LimitChangeResponse where
  id := l.id
  user := l.user
  createdAt := l.createdAt
  currency := l.currency
  limit := l.limit
  status := l.status

def matchesFilter (l : LimitChangeData) (filter : LimitChangeFilter) : Bool :=
  filter == .all ||
    match l.status with
    | .inProgress _ _ => filter == .pending
    | .completed => filter == .completed
    | .rejected => filter == .rejected

end LimitChangeData

namespace Profile

/-- (`GET /profile/limits/get`) The limits of the user who is signed in; nothing where the handler sends to the sign-in page. -/
def getUserLimits (s : State) (cookie : Option UserId) (o : Oracle) : Option (List LimitApiResp) :=
  (requireAuthUser s cookie).toOption.map fun user =>
    let infos : List LimitApiResp := (user.currencies.iter o.currencies).map fun e =>
      { limitInfo := e.2.limitInfo, currency := e.2.currency }
    infos.mergeSort fun l₁ l₂ => l₁.currency.le l₂.currency

/-- (`GET /profile/limits/changes?<filter>`) The changes that the user who is signed in asks for; no filter is that for all. -/
def getUserLimitChanges (s : State) (cookie : Option UserId) (filter : Option LimitChangeFilter) (o : Oracle) :
    Option (List LimitChangeResponse) :=
  (requireAuthUser s cookie).toOption.map fun user =>
    (user.limitChangeRequests.iter o.currencies).filterMap fun e =>
      if e.2.matchesFilter (filter.getD .all) then some e.2.toResponse else none

end Profile

/-! ## The book -/

/-- A change that is asked for, and the votes for and against it. -/
structure LimitAsk where
  id : Uuid
  createdAt : String
  limit : Limit
  confirmations : List SignatureData
  rejections : List SignatureData
  deriving DecidableEq, Repr

/-- The page of an account. -/
structure LimitPage where
  limit : Limit
  asked : Option LimitAsk
  deriving DecidableEq, Repr

/-- The vote, as it is kept. -/
def LimitChangeDecision.signatureData (lcd : LimitChangeDecision) : SignatureData where
  signature := lcd.signature
  nonce := lcd.nonce
  publicKey := lcd.publicKey

namespace LimitPage

/-- The page of a new account. -/
def new : LimitPage := { limit := LimitInfo.default.limit, asked := none }

/-- One vote more, of whichever change is asked for. The side that is two ahead with it decides; the limit is the one that the last
vote names. -/
def vote (p : LimitPage) (lcd : LimitChangeDecision) : LimitPage :=
  match p.asked, lcd.decisionType with
  | none, _ => p
  | some a, .confirm =>
    if a.rejections.length < a.confirmations.length then { limit := lcd.requestedLimit, asked := none }
    else { p with asked := some { a with confirmations := a.confirmations ++ [lcd.signatureData] } }
  | some a, .reject =>
    if a.confirmations.length < a.rejections.length then { p with asked := none }
    else { p with asked := some { a with rejections := a.rejections ++ [lcd.signatureData] } }

/-- What a row of the journal does to the page of the account of `u` in `c`, if there is one. -/
def next (u : UserId) (c : Currency) (page : Option LimitPage) (row : Row) : Option LimitPage :=
  match row.update.body with
  | .signup info => if info.username = u ∧ c ∈ Currency.defaultCurrencies then some new else page
  | .updateTokens req =>
    if req.user = u ∧ .erc20 req.token = c then
      match req.action with
      | .enable => some new
      | .disable => none
    else page
  | .limitsChangeRequest req =>
    if req.user = u ∧ req.currency = c then
      page.map fun p =>
        { p with
          asked := some
            { id := row.oracle.newId, createdAt := row.oracle.now, limit := req.limit, confirmations := [], rejections := [] } }
    else page
  | .cancelLimitChange req => if req.user = u ∧ req.currency = c then page.map fun p => { p with asked := none } else page
  | .limitChangeDecision lcd => if lcd.user = u ∧ lcd.currency = c then page.map fun p => p.vote lcd else page
  | _ => page

end LimitPage

/-- The page that the rows of the journal have written, of the account of `u` in `c`. -/
def Journal.limitPage (j : Journal) (u : UserId) (c : Currency) : Option LimitPage := j.rows.foldl (LimitPage.next u c) none

end Hexstody
