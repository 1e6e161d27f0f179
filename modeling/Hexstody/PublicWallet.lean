import Hexstody.Handlers
import Hexstody.Tokens

/-!
# The public handlers that take a currency

The handlers of `hexstody-public` in which a user names a currency: a token to enable or disable, the currencies of an exchange order, the
address of a withdrawal. What they name is decoded from the request as it is; a token is a struct of three texts. `publicWallet` is the
client that has these handlers, and lets every other handler and background task send what it likes of its own kinds of update.
-/

namespace Hexstody

/-- A request to one of the handlers, or an update of another one or of a background task. -/
inductive PublicCall where
  | enableToken (user : UserId) (token : Erc20Token)
  | disableToken (user : UserId) (token : Erc20Token)
  | orderExchange (user : UserId) (req : ExchangeRequest) (id : Uuid) (createdAt : String)
  | postWithdraw (user : UserId) (req : UserWithdrawRequest) (feeRate : Option UInt64) (id : Uuid)
  | other (b : UpdateBody)

/-- The kinds of update that neither these handlers nor the workers send. -/
def UpdateBody.isElsewhere : UpdateBody → Bool
  | .updateTokens _ => false
  | .exchangeRequest _ => false
  | .createWithdrawalRequest _ => false
  | .withdrawalRequestComplete _ => false
  | .withdrawalRequestNodeRejected _ => false
  | .snapshot _ => false
  | _ => true

/-- The update that a call makes, if it makes one. -/
def PublicCall.update? (s : State) : PublicCall → Option UpdateBody
  | .enableToken user token =>
    (Handlers.requireAuthUser s user).toOption.bind fun u =>
      (Handlers.enableToken u token).toOption.map fun task => .updateTokens task.update
  | .disableToken user token =>
    (Handlers.requireAuthUser s user).toOption.bind fun u =>
      (Handlers.disableToken u token).toOption.map fun task => .updateTokens task.update
  | .orderExchange user req id createdAt =>
    (Handlers.requireAuthUser s user).toOption.bind fun u => (Handlers.orderExchange u req id createdAt).toOption
  | .postWithdraw user req feeRate id =>
    (Handlers.requireAuthUser s user).toOption.bind fun u => (Handlers.postWithdraw u req feeRate id).toOption
  | .other b => if b.isElsewhere then some b else none

namespace Handlers

variable {user : UserInfo} {b : UpdateBody}

theorem toOption_eq_some {ε α : Type} {x : Except ε α} {a : α} (h : x.toOption = some a) : x = .ok a := by
  cases x with
  | error e => cases h
  | ok y => exact congrArg _ (Option.some.inj h)

/-- An order names the currencies of the request. -/
theorem orderExchange_currencies {req : ExchangeRequest} {id : Uuid} {createdAt : String}
    (h : orderExchange user req id createdAt = .ok b) :
    ∃ upd, b = .exchangeRequest upd ∧ upd.currencyFrom = req.currencyFrom ∧ upd.currencyTo = req.currencyTo := by
  unfold orderExchange at h
  split at h
  · cases h
  · split at h
    · cases h
    · exact ⟨_, (Except.ok.inj h).symm, rfl, rfl⟩

end Handlers

/-- What a call makes. -/
inductive PublicCall.Makes : PublicCall → UpdateBody → Prop where
  | enabled (user name : UserId) (token : Erc20Token) :
      Makes (.enableToken user token) (.updateTokens { user := name, token := token, action := .enable })
  | disabled (user name : UserId) (token : Erc20Token) :
      Makes (.disableToken user token) (.updateTokens { user := name, token := token, action := .disable })
  | ordered (user : UserId) (req : ExchangeRequest) (id : Uuid) (createdAt : String) (upd : ExchangeOrderUpd) :
      upd.currencyFrom = req.currencyFrom → upd.currencyTo = req.currencyTo →
      Makes (.orderExchange user req id createdAt) (.exchangeRequest upd)
  | withdrawn (user : UserId) (req : UserWithdrawRequest) (feeRate : Option UInt64) (id : Uuid) (info : WithdrawalRequestInfo) :
      Makes (.postWithdraw user req feeRate id) (.createWithdrawalRequest info)
  | other (b : UpdateBody) : b.isElsewhere = true → Makes (.other b) b

open Handlers in
theorem PublicCall.makes {s : State} {call : PublicCall} {b : UpdateBody} (h : call.update? s = some b) : call.Makes b := by
  cases call with
  | enableToken user token =>
    obtain ⟨u, -, h⟩ := Option.bind_eq_some_iff.mp h
    obtain ⟨task, htask, rfl⟩ := Option.map_eq_some_iff.mp h
    obtain ⟨-, rfl⟩ := enableToken_eq_ok (toOption_eq_some htask)
    exact .enabled ..
  | disableToken user token =>
    obtain ⟨u, -, h⟩ := Option.bind_eq_some_iff.mp h
    obtain ⟨task, htask, rfl⟩ := Option.map_eq_some_iff.mp h
    obtain ⟨-, rfl⟩ := disableToken_eq_ok (toOption_eq_some htask)
    exact .disabled ..
  | orderExchange user req id createdAt =>
    obtain ⟨u, -, h⟩ := Option.bind_eq_some_iff.mp h
    obtain ⟨upd, rfl, hfrom, hto⟩ := orderExchange_currencies (toOption_eq_some h)
    exact .ordered _ _ _ _ _ hfrom hto
  | postWithdraw user req feeRate id =>
    obtain ⟨u, -, h⟩ := Option.bind_eq_some_iff.mp h
    obtain ⟨t, rfl, -⟩ := postWithdraw_eq_ok (toOption_eq_some h)
    exact .withdrawn ..
  | other b' =>
    have hif : (if b'.isElsewhere then some b' else none) = some b := h
    split at hif
    · obtain rfl := Option.some.inj hif
      exact .other _ ‹_›
    · cases hif

/-- The handlers, as a client of the hot wallet. -/
def publicWallet : Client PublicCall where
  handle s call := call.update? s
  fromHandler := by
    intro s call b h
    cases PublicCall.makes h with
    | other _ helse => cases b <;> trivial
    | _ => trivial

end Hexstody
