import Hexstody.Library.Delimited
import Hexstody.Routes

/-!
# What operators sign is unambiguous

The parts of a signed text are joined with colons, and urls and bodies have colons of their own. The nonce is what follows the last
one: it is digits. What is left begins with the domain and the fixed text of the route, up to its first parameter, or with the colon
after it where there is a body: these beginnings are a prefix code (`Endpoint.stem_prefixFree`; the uri of `confirm` begins that of
`getRequiredConfrimations`, but the colon is not an `a`). So the route, the body and the nonce can be read off the text
(`Route.signed_texts_unambiguous`).
-/

namespace Hexstody

/-! ## Nonces -/

/-- A nonce is written in digits. -/
theorem colon_notMem_nonce (n : UInt64) : ':' ∉ (toString n).toList := by
  intro h
  have hdigit := Nat.isDigit_of_mem_toDigits (b := 10) (n := n.toNat) (c := ':') (by decide) (by decide)
    (by simpa [toString, Nat.repr] using h)
  exact absurd hdigit (by decide)

theorem nonce_toString_injective {m n : UInt64} (h : toString m = toString n) : m = n := by
  have hd : Nat.toDigits 10 m.toNat = Nat.toDigits 10 n.toNat := by
    simpa [toString, Nat.repr] using congrArg String.toList h
  have hval := congrArg (fun l => Nat.ofDigitChars 10 l 0) hd
  simp only [Nat.ofDigitChars_toDigits (b := 10) (by decide) (by decide)] at hval
  exact UInt64.toNat_inj.mp hval

/-! ## Routes -/

/-- The endpoints without their parameters. -/
inductive Endpoint where
  | list | confirm | reject | getHotWalletBalance | getSupportedCurrencies | getRequiredConfrimations | genInvite | listOpsInvites
  | getAllChanges | confirmLimits | rejectLimits | confirmExchange | rejectExchange | getExchangeRequests | getExchangeBalances
  | getExchangeAddress | getUserInfo
  deriving DecidableEq, Repr

namespace Endpoint

def all : List Endpoint :=
  [list, confirm, reject, getHotWalletBalance, getSupportedCurrencies, getRequiredConfrimations, genInvite, listOpsInvites,
    getAllChanges, confirmLimits, rejectLimits, confirmExchange, rejectExchange, getExchangeRequests, getExchangeBalances,
    getExchangeAddress, getUserInfo]

theorem mem_all (e : Endpoint) : e ∈ all := by
  cases e <;> decide

/-- What every signed text of the endpoint begins with, after the domain. -/
def stem : Endpoint → String
  | list => "/request/"
  | confirm => "/confirm:"
  | reject => "/reject:"
  | getHotWalletBalance => "/hot-wallet-balance/"
  | getSupportedCurrencies => "/currencies"
  | getRequiredConfrimations => "/confirmations"
  | genInvite => "/invite/generate:"
  | listOpsInvites => "/invite/listmy"
  | getAllChanges => "/changes?filter="
  | confirmLimits => "/limits/confirm:"
  | rejectLimits => "/limits/reject:"
  | confirmExchange => "/exchange/confirm:"
  | rejectExchange => "/exchange/reject:"
  | getExchangeRequests => "/exchange/list?filter="
  | getExchangeBalances => "/exchange/balances"
  | getExchangeAddress => "/exchange/address:"
  | getUserInfo => "/user/info/"

/-- No beginning begins another. -/
theorem stem_prefixFree : Delimited.PrefixFree (fun e : Endpoint => e.stem.toList) := by
  have key : ∀ e ∈ all, ∀ e' ∈ all, e.stem.toList <+: e'.stem.toList → e = e' := by decide +kernel
  exact fun e e' => key e (mem_all e) e' (mem_all e')

end Endpoint

theorem WithdrawalFilter.text_injective {f g : WithdrawalFilter} (h : f.text = g.text) : f = g := by
  cases f <;> cases g <;> first | rfl | exact absurd h (by decide)

theorem LimitChangeFilter.text_injective {f g : LimitChangeFilter} (h : f.text = g.text) : f = g := by
  cases f <;> cases g <;> first | rfl | exact absurd h (by decide)

theorem ExchangeFilter.text_injective {f g : ExchangeFilter} (h : f.text = g.text) : f = g := by
  cases f <;> cases g <;> first | rfl | exact absurd h (by decide)

namespace Route

variable {E : SegmentEncoding}

def endpoint : Route → Endpoint
  | list _ _ => .list
  | confirm => .confirm
  | reject => .reject
  | getHotWalletBalance _ => .getHotWalletBalance
  | getSupportedCurrencies => .getSupportedCurrencies
  | getRequiredConfrimations => .getRequiredConfrimations
  | genInvite => .genInvite
  | listOpsInvites => .listOpsInvites
  | getAllChanges _ => .getAllChanges
  | confirmLimits => .confirmLimits
  | rejectLimits => .rejectLimits
  | confirmExchange => .confirmExchange
  | rejectExchange => .rejectExchange
  | getExchangeRequests _ => .getExchangeRequests
  | getExchangeBalances => .getExchangeBalances
  | getExchangeAddress => .getExchangeAddress
  | getUserInfo _ => .getUserInfo

/-- What a signed text has between the beginning of the endpoint and the nonce: the parameters, or the body. -/
def rest (E : SegmentEncoding) (ρ : Route) (body : String) : String :=
  match ρ with
  | list currencyName filter => E.encode currencyName ++ ("?filter=" ++ filter.text)
  | getHotWalletBalance currencyName => E.encode currencyName
  | getAllChanges filter => filter.text
  | getExchangeRequests filter => filter.text
  | getUserInfo userId => E.encode userId
  | ρ => (ρ.message body).getD ""

theorem joined_pair (a b : String) : joined [a, b] = a ++ ":" ++ b := by
  rw [joined, String.intercalate_cons_cons, String.intercalate_singleton]

theorem joined_triple (a b c : String) : joined [a, b, c] = a ++ ":" ++ b ++ ":" ++ c := by
  rw [joined, String.intercalate_cons_cons, String.intercalate_cons_cons, String.intercalate_singleton, String.append_assoc]
  simp only [String.append_assoc]

/-- A route without a body is written as the beginning of its endpoint and the rest. -/
theorem uri_eq {ρ : Route} (hb : ρ.hasBody = false) (body : String) : ρ.uri E = ρ.endpoint.stem ++ ρ.rest E body := by
  cases ρ with
  | list c f => exact String.append_assoc.trans String.append_assoc
  | getSupportedCurrencies => exact (String.append_empty).symm
  | getRequiredConfrimations => exact (String.append_empty).symm
  | listOpsInvites => exact (String.append_empty).symm
  | getExchangeBalances => exact (String.append_empty).symm
  | getHotWalletBalance c => rfl
  | getAllChanges f => rfl
  | getExchangeRequests f => rfl
  | getUserInfo u => rfl
  | _ => cases hb

/-- A route with a body is written, up to the colon after it, as the beginning of its endpoint; the rest is the body. -/
theorem uri_colon {ρ : Route} (hb : ρ.hasBody = true) (body : String) :
    ρ.uri E ++ ":" = ρ.endpoint.stem ∧ ρ.rest E body = body := by
  cases ρ with
  | list c f => cases hb
  | getSupportedCurrencies => cases hb
  | getRequiredConfrimations => cases hb
  | listOpsInvites => cases hb
  | getExchangeBalances => cases hb
  | getHotWalletBalance c => cases hb
  | getAllChanges f => cases hb
  | getExchangeRequests f => cases hb
  | getUserInfo u => cases hb
  | _ => exact ⟨rfl, rfl⟩

/-- A signed text is the domain, the beginning of the endpoint, the rest, and after a colon the nonce. -/
theorem signedText_eq (domain : String) (ρ : Route) (body : String) (nonce : UInt64) :
    ρ.signedText E domain body nonce = domain ++ (ρ.endpoint.stem ++ ρ.rest E body) ++ ":" ++ toString nonce := by
  unfold signedText message
  by_cases hb : ρ.hasBody = true
  · obtain ⟨huri, hrest⟩ := uri_colon (E := E) hb body
    rw [if_pos hb, ← huri, hrest]
    exact (joined_triple _ _ _).trans (by simp only [String.append_assoc])
  · rw [if_neg hb, uri_eq (Bool.eq_false_iff.mpr hb) body]
    exact joined_pair _ _

/-- The parameters of a listing are determined: the first is written without a question mark. -/
theorem list_rest_injective {c c' : String} {f f' : WithdrawalFilter}
    (h : (list c f).rest E "" = (list c' f').rest E "") : c = c' ∧ f = f' := by
  have hl : (E.encode c).toList ++ '?' :: ("filter=".toList ++ f.text.toList) =
      (E.encode c').toList ++ '?' :: ("filter=".toList ++ f'.text.toList) := by
    simpa [rest] using congrArg String.toList h
  obtain ⟨hc, hf⟩ := Delimited.separated_left (E.noQuery c) (E.noQuery c') hl
  exact ⟨E.injective (String.toList_injective hc),
    WithdrawalFilter.text_injective (String.toList_injective (List.append_cancel_left hf))⟩

/-- Between the same beginning and the nonce, the route and the body are determined. -/
theorem eq_of_rest {ρ ρ' : Route} {body body' : String} (he : ρ.endpoint = ρ'.endpoint)
    (hr : ρ.rest E body = ρ'.rest E body') : ρ = ρ' ∧ ρ.message body = ρ'.message body' := by
  cases ρ with
  | list c f =>
    cases ρ' with
    | list c' f' =>
      obtain ⟨rfl, rfl⟩ := list_rest_injective hr
      exact ⟨rfl, rfl⟩
    | _ => cases he
  | getHotWalletBalance c =>
    cases ρ' with
    | getHotWalletBalance c' =>
      obtain rfl := E.injective hr
      exact ⟨rfl, rfl⟩
    | _ => cases he
  | getUserInfo u =>
    cases ρ' with
    | getUserInfo u' =>
      obtain rfl := E.injective hr
      exact ⟨rfl, rfl⟩
    | _ => cases he
  | getAllChanges f =>
    cases ρ' with
    | getAllChanges f' =>
      obtain rfl := LimitChangeFilter.text_injective hr
      exact ⟨rfl, rfl⟩
    | _ => cases he
  | getExchangeRequests f =>
    cases ρ' with
    | getExchangeRequests f' =>
      obtain rfl := ExchangeFilter.text_injective hr
      exact ⟨rfl, rfl⟩
    | _ => cases he
  | _ =>
    -- the other endpoints are one route each; what is posted has its body for the rest
    cases ρ' <;> first | exact ⟨rfl, congrArg some hr⟩ | exact ⟨rfl, rfl⟩ | cases he

/-- Two texts that are the same are of one route, one body and one nonce. -/
theorem eq_of_signedText {domain : String} {ρ ρ' : Route} {body body' : String} {n n' : UInt64}
    (h : ρ.signedText E domain body n = ρ'.signedText E domain body' n') :
    ρ = ρ' ∧ ρ.message body = ρ'.message body' ∧ n = n' := by
  rw [signedText_eq, signedText_eq] at h
  have hl : (domain.toList ++ (ρ.endpoint.stem.toList ++ (ρ.rest E body).toList)) ++ ':' :: (toString n).toList =
      (domain.toList ++ (ρ'.endpoint.stem.toList ++ (ρ'.rest E body').toList)) ++ ':' :: (toString n').toList := by
    simpa using congrArg String.toList h
  obtain ⟨hbefore, hnonce⟩ := Delimited.separated_right (colon_notMem_nonce n) (colon_notMem_nonce n') hl
  obtain ⟨hend, hrest⟩ := Endpoint.stem_prefixFree.eq_of_append (List.append_cancel_left hbefore)
  obtain ⟨hroute, hbody⟩ := eq_of_rest hend (String.toList_injective hrest)
  exact ⟨hroute, hbody, nonce_toString_injective (String.toList_injective hnonce)⟩

/-- Equal bytes are signed for one route, one body and one nonce only; so a signature that verifies for no other text than the one
it was made for is accepted for no other request. -/
theorem signed_texts_unambiguous (E : SegmentEncoding) (domain : String) (ρ ρ' : Route) (body body' : String) (n n' : UInt64) :
    ((ρ.signedText E domain body n).toUTF8 = (ρ'.signedText E domain body' n').toUTF8 →
        ρ = ρ' ∧ ρ.message body = ρ'.message body' ∧ n = n') ∧
      ∀ (Γ : Ctx) (k : PublicKey) (sig : Signature), Γ.domain = domain →
        (∀ t t', Γ.verify k t sig = true → Γ.verify k t' sig = true → t = t') →
          ρ.guard Γ E { signature := sig, nonce := n, publicKey := k } body = .ok () →
            ρ'.guard Γ E { signature := sig, nonce := n', publicKey := k } body' = .ok () →
              ρ = ρ' ∧ ρ.message body = ρ'.message body' ∧ n = n' := by
  constructor
  · intro h
    exact eq_of_signedText (String.toByteArray_inj.mp h)
  · rintro Γ k sig rfl hbinds hg hg'
    exact eq_of_signedText (hbinds _ _ (guard_eq_ok_iff.mp hg).2 (guard_eq_ok_iff.mp hg').2)

end Route

namespace Sample

/-- A path parameter is written with its percent and question marks escaped. -/
def escape (c : Char) : List Char := if c = '%' then ['%', '2', '5'] else if c = '?' then ['%', '3', 'F'] else [c]

theorem escape_prefixFree : Delimited.PrefixFree escape := by
  intro c c' h
  by_cases hp : c = '%' <;> by_cases hq : c = '?' <;> by_cases hp' : c' = '%' <;> by_cases hq' : c' = '?' <;>
    simp_all [escape]

theorem escape_ne_nil (c : Char) : escape c ≠ [] := by
  unfold escape
  split
  · exact List.cons_ne_nil _ _
  · split <;> exact List.cons_ne_nil _ _

theorem question_notMem_escape (c : Char) : '?' ∉ escape c := by
  unfold escape
  split
  · decide
  · split
    · decide
    · rename_i hq
      exact fun h => hq (List.mem_singleton.mp h).symm

def segments : SegmentEncoding where
  encode s := String.ofList (s.toList.flatMap escape)
  injective s s' h := by
    have hl : s.toList.flatMap escape = s'.toList.flatMap escape := by simpa using congrArg String.toList h
    exact String.toList_injective (escape_prefixFree.flatMap_injective escape_ne_nil hl)
  noQuery s h := by
    obtain ⟨c, -, hc⟩ := List.mem_flatMap.mp (by simpa using h)
    exact question_notMem_escape c hc

/-- A scheme whose signatures are the key and the text. -/
def textSigning : Ctx where
  verify k t sig := sig.bytes == k.bytes ++ t.toUTF8.data.toList
  domain := "http://localhost:8080"
  operatorPublicKeys := [key 1, key 2, key 3]
  confirmationJson _ := "json"

def sign (k : PublicKey) (t : String) : Signature := { bytes := k.bytes ++ t.toUTF8.data.toList }

theorem textSigning_binds {k : PublicKey} {sig : Signature} (t t' : String) (h : textSigning.verify k t sig = true)
    (h' : textSigning.verify k t' sig = true) : t = t' := by
  have hbytes := List.append_cancel_left ((eq_of_beq h).symm.trans (eq_of_beq h'))
  exact String.toByteArray_inj.mp (ByteArray.ext (Array.toList_inj.mp hbytes))

/-- The body and the signature of a confirmation. -/
def confirmBody : String := "\x7b\"id\":7,\"user\":\"alice\"\x7d"

def confirmSigned : SignatureData where
  signature := sign (key 1) (Route.confirm.signedText segments textSigning.domain confirmBody 1)
  nonce := 1
  publicKey := key 1

end Sample

open Sample in
/-- The signature of a confirmation is accepted for it, and for no other route or body. -/
theorem Route.signed_texts_unambiguous_confirm :
    confirm.guard textSigning segments confirmSigned confirmBody = .ok () ∧
      ∀ (ρ : Route) (body : String), ρ.guard textSigning segments confirmSigned body = .ok () →
        ρ = confirm ∧ ρ.message body = some confirmBody := by
  have hg : confirm.guard textSigning segments confirmSigned confirmBody = .ok () :=
    guard_eq_ok_iff.mpr ⟨List.mem_cons_self, beq_self_eq_true _⟩
  refine ⟨hg, fun ρ body h => ?_⟩
  obtain ⟨hroute, hbody, -⟩ := (signed_texts_unambiguous segments textSigning.domain ρ confirm body confirmBody 1 1).2
    textSigning (key 1) confirmSigned.signature rfl textSigning_binds h hg
  exact ⟨hroute, hbody⟩

end Hexstody
