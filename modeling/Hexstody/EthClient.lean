import Hexstody.Domain
import Hexstody.Library.Url

/-!
# The client of the ETH module, and the routes of the module

The six requests of `EthClient` that name a user, as `format!` writes their URLs, and the handlers that `hexstody-eth` mounts. The
module selects a handler by the method and the segments of the path. `self.server` is left out: it is an origin, and the path begins
behind it. So are the pages of the API's description, which take no part in it.
-/

namespace Hexstody

inductive HttpMethod where
  | get | post
  deriving DecidableEq, Repr

/-- A request to the ETH module; of the URL, what follows `self.server`. -/
structure EthRequest where
  method : HttpMethod
  endpoint : String
  body : Option (List Erc20Token)
  deriving DecidableEq, Repr

/-! ## The client -/

namespace EthClient

def createuser (user : String) : EthRequest :=
  let path := "/createuser"
  { method := .get, endpoint := path ++ "/" ++ user, body := none }

def allocateAddress (user : String) : EthRequest :=
  let path := "/check_address"
  { method := .get, endpoint := path ++ "/" ++ user, body := none }

def postTokens (user : String) (tokens : List Erc20Token) : EthRequest :=
  let path := "/tokens"
  { method := .post, endpoint := path ++ "/" ++ user, body := some tokens }

def getUserData (user : String) : EthRequest :=
  let path := "/userdata"
  { method := .get, endpoint := path ++ "/" ++ user, body := none }

def sendTx (user addr amount : String) : EthRequest :=
  let path := "/signingsend/eth/login/"
  { method := .get, endpoint := path ++ "/" ++ user ++ "/" ++ addr ++ "/" ++ amount, body := none }

def sendTxErc20 (user addr tokenAddr amount : String) : EthRequest :=
  let path := "/signingsend/erc20/login/"
  { method := .get, endpoint := path ++ "/" ++ user ++ "/" ++ addr ++ "/" ++ tokenAddr ++ "/" ++ amount, body := none }

end EthClient

/-- A request of the client, with what it is called with. -/
inductive EthCall where
  | createuser (user : String)
  | allocateAddress (user : String)
  | postTokens (user : String) (tokens : List Erc20Token)
  | getUserData (user : String)
  | sendTx (user addr amount : String)
  | sendTxErc20 (user addr tokenAddr amount : String)
  deriving DecidableEq, Repr

namespace EthCall

def request : EthCall → EthRequest
  | .createuser user => EthClient.createuser user
  | .allocateAddress user => EthClient.allocateAddress user
  | .postTokens user tokens => EthClient.postTokens user tokens
  | .getUserData user => EthClient.getUserData user
  | .sendTx user addr amount => EthClient.sendTx user addr amount
  | .sendTxErc20 user addr tokenAddr amount => EthClient.sendTxErc20 user addr tokenAddr amount

def user : EthCall → String
  | .createuser user => user
  | .allocateAddress user => user
  | .postTokens user _ => user
  | .getUserData user => user
  | .sendTx user _ _ => user
  | .sendTxErc20 user _ _ _ => user

/-- What it is called with besides the user, in the order of the URL. -/
def others : EthCall → List String
  | .sendTx _ addr amount => [addr, amount]
  | .sendTxErc20 _ addr tokenAddr amount => [addr, tokenAddr, amount]
  | _ => []

end EthCall

/-! ## The module -/

inductive EthHandler where
  | getversion
  | userCreate | userRemove | userGet | allocateAddress | checkAddress | accountsGet | tokensGet | tokensPost
  | balanceEthTotal | balanceErc20Total | balanceEthLogin | balanceEthAddress | balanceErc20Login | balanceErc20Address
  | sendEthFromLogin | sendEthFromAddress | sendErc20FromAddress | unlockEth | oldsend
  | senddummyEthFromAddress | senddummyEthFromLogin | signsend | signsendErc20
  deriving DecidableEq, Repr

/-- A segment of the URI of a route. -/
inductive RouteSegment where
  | static (text : String)
  | dynamic (name : String)
  deriving DecidableEq, Repr

structure EthRoute where
  method : HttpMethod
  uri : List RouteSegment
  handler : EthHandler
  deriving DecidableEq, Repr

/-- The bytes of a text. -/
def utf8 (s : String) : List UInt8 := s.toUTF8.data.toList

/-- The parameters that the segments of a path give to a route, if it matches. -/
def RouteSegment.matchAll : List RouteSegment → List (List UInt8) → Option (List (List UInt8))
  | [], [] => some []
  | .static text :: uri, segment :: segments => if utf8 text = segment then matchAll uri segments else none
  | .dynamic _ :: uri, segment :: segments => (matchAll uri segments).map (segment :: ·)
  | _, _ => none

/-- A handler, with the parameters of the path and the body that it is called with. -/
structure EthSelection where
  handler : EthHandler
  params : List (List UInt8)
  body : Option (List Erc20Token)
  deriving DecidableEq, Repr

namespace EthModule

def routes : List EthRoute :=
  [{ method := .get, uri := [.static "version"], handler := .getversion },
    { method := .get, uri := [.static "createuser", .dynamic "login"], handler := .userCreate },
    { method := .get, uri := [.static "removeuser", .dynamic "login"], handler := .userRemove },
    { method := .get, uri := [.static "userdata", .dynamic "login"], handler := .userGet },
    { method := .get, uri := [.static "allocate_address", .dynamic "login"], handler := .allocateAddress },
    { method := .get, uri := [.static "check_address", .dynamic "login"], handler := .checkAddress },
    { method := .get, uri := [.static "accounts"], handler := .accountsGet },
    { method := .get, uri := [.static "tokens", .dynamic "login"], handler := .tokensGet },
    { method := .post, uri := [.static "tokens", .dynamic "login"], handler := .tokensPost },
    { method := .get, uri := [.static "balance", .static "eth", .static "total"], handler := .balanceEthTotal },
    { method := .get, uri := [.static "balance", .static "erc20", .static "total"], handler := .balanceErc20Total },
    { method := .get, uri := [.static "balance", .static "eth", .static "login", .dynamic "login"], handler := .balanceEthLogin },
    { method := .get, uri := [.static "balance", .static "eth", .static "address", .dynamic "address"],
      handler := .balanceEthAddress },
    { method := .get, uri := [.static "balance", .static "erc20", .static "login", .dynamic "login", .dynamic "token_address"],
      handler := .balanceErc20Login },
    { method := .get, uri := [.static "balance", .static "erc20", .static "address", .dynamic "address", .dynamic "token_address"],
      handler := .balanceErc20Address },
    { method := .get,
      uri := [.static "send", .static "eth", .static "login", .dynamic "login", .dynamic "recipient", .dynamic "volume"],
      handler := .sendEthFromLogin },
    { method := .get,
      uri := [.static "send", .static "eth", .static "address", .dynamic "address", .dynamic "recipient", .dynamic "volume"],
      handler := .sendEthFromAddress },
    { method := .get,
      uri := [.static "senderc20tx", .static "address", .dynamic "address", .dynamic "token_address", .dynamic "recipient",
        .dynamic "volume"],
      handler := .sendErc20FromAddress },
    { method := .get, uri := [.static "unlock", .dynamic "login"], handler := .unlockEth },
    { method := .get, uri := [.static "oldsend", .dynamic "login", .dynamic "recipient", .dynamic "volume"], handler := .oldsend },
    { method := .get,
      uri := [.static "senddummy", .static "eth", .static "address", .dynamic "address", .dynamic "recipient", .dynamic "volume"],
      handler := .senddummyEthFromAddress },
    { method := .get,
      uri := [.static "senddummy", .static "eth", .static "login", .dynamic "login", .dynamic "recipient", .dynamic "volume"],
      handler := .senddummyEthFromLogin },
    { method := .get,
      uri := [.static "signingsend", .static "eth", .static "login", .dynamic "login", .dynamic "recipient", .dynamic "volume"],
      handler := .signsend },
    { method := .get,
      uri := [.static "signingsend", .static "erc20", .static "login", .dynamic "login", .dynamic "recipient",
        .dynamic "token_address", .dynamic "volume"],
      handler := .signsendErc20 }]

/-- The handler that a request is given to. No two routes of one method match the same path. -/
def select (req : EthRequest) : Option EthSelection :=
  routes.findSome? fun route =>
    if route.method = req.method then
      (RouteSegment.matchAll route.uri (Url.segments (utf8 req.endpoint))).map
        fun params => { handler := route.handler, params := params, body := req.body }
    else none

end EthModule

end Hexstody
