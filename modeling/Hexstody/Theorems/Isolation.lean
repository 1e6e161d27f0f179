import Hexstody.Lemmas.Addresses
import Hexstody.Lemmas.Confined
import Hexstody.Lemmas.Invites
import Hexstody.Handlers
import Hexstody.Library.Unwinding
import Hexstody.Theorems.AddressOwners
import Hexstody.World

/-!
# Isolation of the users

What becomes of a user, and how his own updates are answered, does not depend on the updates of other users: it is what would become
of him if he were the only user, and only his own updates came and those that are for everyone (`user_isolated`). Two kinds of update
are searched an owner for among all users, the bitcoin transactions and their cancellations; there the user has to share no address,
no id of a request and no transaction with another (`State.Private`).
-/

namespace Hexstody

/-- An update that is not about one user, but may change any. -/
def UpdateBody.common : UpdateBody → Bool
  | .withdrawalRequestComplete _ => true
  | .withdrawalRequestNodeRejected _ => true
  | .updateBtcTx _ => true
  | .cancelBtcTx _ => true
  | .clearLimits _ => true
  | .exchangeAddress _ => true
  | _ => false

/-- An update for which an owner is searched. -/
def UpdateBody.isBtcTx : UpdateBody → Bool
  | .updateBtcTx _ => true
  | .cancelBtcTx _ => true
  | _ => false

theorem UpdateBody.owner?_of_common {b : UpdateBody} (h : b.common = true) : b.owner? = none := by
  cases b <;> first | rfl | cases h

/-- The update is the user's own. -/
def owned (u : UserId) (a : Oracle × StateUpdate) : Bool := decide (a.2.body.owner? = some u)

/-- The update is the user's own, or for everyone. -/
def concerns (u : UserId) (a : Oracle × StateUpdate) : Bool := owned u a || a.2.body.common

namespace State

/-- (`update_worker`) What an update makes of the State, and how it is answered: nothing happens when it is refused. -/
def absorb (s : State) (a : Oracle × StateUpdate) : Outcome (Option UpdateResult) :=
  match s.applyUpdate a.1 a.2 with
  | (s', .ok res) => (s', .ok res)
  | (_, .error e) => (s, .error e)

/-- `update_worker`, as it answers one update after another. -/
def worker : Responder State (Oracle × StateUpdate) (Except StateUpdateErr (Option UpdateResult)) where
  respond := absorb

/-- The State with one of its users only. -/
def alone (s : State) (u : UserId) : State :=
  { s with users := match s.users.get? u with
      | some ui => AssocMap.empty.insert u ui
      | none => AssocMap.empty }

/-- No other user shares an address with the user, an id of a request, or a transaction that completed one. -/
structure Private (s : State) (u : UserId) : Prop where
  addresses : ∀ a u', s.Owns u a → s.Owns u' a → u' = u
  requests : ∀ u' c c' k r r', s.request? u' c k = some r → s.request? u c' r.id = some r' → u' = u
  transactions : ∀ u' c c' k k' r r' t, s.request? u c k = some r → r.completedBy t = true → s.request? u' c' k' = some r' →
    r'.completedBy t = true → u' = u

/-- A State, and another that has one of its users only. -/
structure Secludes (u : UserId) (s t : State) : Prop where
  same : s.users.get? u = t.users.get? u
  there : s.users.get? u ≠ none
  others : ∀ u', u' ≠ u → t.users.get? u' = none
  addresses : t.exchangeState.addresses = s.exchangeState.addresses

variable {s t s' : State} {o : Oracle} {up : StateUpdate} {u : UserId} {res : Option UpdateResult}

theorem secludes_alone (hu : s.users.get? u ≠ none) : Secludes u s (s.alone u) := by
  obtain ⟨ui, hui⟩ := Option.ne_none_iff_exists'.mp hu
  refine ⟨?_, hu, ?_, rfl⟩
  · simp only [alone, hui, AssocMap.get?_insert_self]
  · intro u' hne
    simp only [alone, hui, AssocMap.get?_insert, if_neg hne, AssocMap.get?_empty]

/-- One who is alone shares nothing. -/
theorem private_of_others (h : ∀ u', u' ≠ u → t.users.get? u' = none) : t.Private u := by
  have hnone : ∀ u' c, t.currency? u' c ≠ none → u' = u := by
    intro u' c hc
    by_contra hne
    exact hc (by rw [currency?, h u' hne]; rfl)
  have howns : ∀ u' a, t.Owns u' a → u' = u := by
    rintro u' a ⟨i, hi, -⟩
    exact hnone u' .btc (by rw [hi]; exact Option.some_ne_none i)
  have hrequest : ∀ u' c k r, t.request? u' c k = some r → u' = u := by
    intro u' c k r hr
    obtain ⟨i, hi, -⟩ := request?_eq_some hr
    exact hnone u' c (by rw [hi]; exact Option.some_ne_none i)
  exact ⟨fun a u' _ hu' => howns u' a hu', fun u' c c' k r r' hr _ => hrequest u' c k r hr,
    fun u' c c' k k' r r' t' _ _ hr' _ => hrequest u' c' k' r' hr'⟩

/-! ## The search for an owner -/

theorem owns_congr (h : s.users.get? u = t.users.get? u) (a : Address) : s.Owns u a ↔ t.Owns u a := by
  unfold Owns currency?
  rw [h]

/-- A user who has not the address is left as he is. -/
theorem get?_withDepositOwner_of_not_owns {a : Address} (hu : ¬s.Owns u a) (f : UserCurrencyInfo → UserCurrencyInfo) :
    (s.withDepositOwner o (btcAddress a) f).1.users.get? u = s.users.get? u := by
  generalize hout : s.withDepositOwner o (btcAddress a) f = out
  obtain ⟨s₁, r⟩ := out
  rcases withDepositOwner_eq hout with rfl | ⟨owner, hfound, rfl⟩
  · rfl
  · obtain ⟨i, hi, ha⟩ := findUserAddress_eq_some hfound
    have hne : u ≠ owner := by
      rintro rfl
      exact hu ⟨i, hi, ha⟩
    exact (Confined.modifyCurrency .btc f (.ok ())).other s u hne

/-- The search never fails: who is found by a bitcoin address has an account in bitcoins. -/
theorem withDepositOwner_ok (s : State) (o : Oracle) (a : Address) (f : UserCurrencyInfo → UserCurrencyInfo) :
    (s.withDepositOwner o (btcAddress a) f).2 = .ok () := by
  unfold withDepositOwner
  cases hf : s.findUserAddress o (btcAddress a) with
  | none => rfl
  | some owner =>
    obtain ⟨i, hi, -⟩ := findUserAddress_eq_some hf
    obtain ⟨ui, hui, hc⟩ := Option.bind_eq_some_iff.mp hi
    rw [show (btcAddress a).currency = .btc from rfl] at hc
    simp only [hui, hc]

/-- What the change of an owner makes of the user depends on the user alone. -/
theorem get?_withDepositOwner_congr (h : s.users.get? u = t.users.get? u) {a : Address}
    (hs : ∀ u', s.Owns u a → s.Owns u' a → u' = u) (ht : ∀ u', t.Owns u a → t.Owns u' a → u' = u)
    (f : UserCurrencyInfo → UserCurrencyInfo) :
    (s.withDepositOwner o (btcAddress a) f).1.users.get? u = (t.withDepositOwner o (btcAddress a) f).1.users.get? u := by
  by_cases hu : s.Owns u a
  · have hu' := (owns_congr h a).mp hu
    rw [withDepositOwner_of_owns hu (fun u' => hs u' hu), withDepositOwner_of_owns hu' (fun u' => ht u' hu')]
    exact ((Confined.modifyCurrency .btc f (.ok ())).same s t h).2
  · have hu' := mt (owns_congr h a).mpr hu
    rw [get?_withDepositOwner_of_not_owns hu, get?_withDepositOwner_of_not_owns hu', h]

/-! ## The search for a withdrawal -/

/-- A request that a transaction completed is found by it. -/
theorem completedBy_of_findCompletedRequest {ui : UserInfo} {c : BtcTxCancel} {id : WithdrawalRequestId}
    (hui : s.users.get? u = some ui) (hf : ui.findCompletedRequest o.requests (.btc { txid := c.txid.hex }) = some id) :
    ∃ cur k r, s.request? u cur k = some r ∧ r.completedBy c.txid = true ∧ r.id = id := by
  unfold UserInfo.findCompletedRequest at hf
  cases hc : ui.currencies.get? (CurrencyTxId.btc { txid := c.txid.hex }).currency with
  | none =>
    rw [hc] at hf
    cases hf
  | some i =>
    rw [hc] at hf
    obtain ⟨k, r, ca, fee, ins, outs, hk, hst, hid⟩ := findCompletedRequest_eq_some hf
    refine ⟨(CurrencyTxId.btc { txid := c.txid.hex }).currency, k, r, ?_, ?_, hid⟩
    · rw [request?_of_currency? (i := i) (by rw [currency?_of_get? hui, hc]), hk]
    · rw [WithdrawalRequest.completedBy, hst]
      simp

/-- A rejection that finds a withdrawal of the user, or none that is his, depends on the user alone. -/
theorem get?_afterReject (hreq : ∀ u' c c' k r r', s.request? u' c k = some r → s.request? u c' r.id = some r' → u' = u)
    (htx : ∀ u' c c' k k' r r' t, s.request? u c k = some r → r.completedBy t = true → s.request? u' c' k' = some r' →
      r'.completedBy t = true → u' = u) (c : BtcTxCancel) :
    (s.afterReject o c).users.get? u = (s.users.get? u).map (fun ui =>
      (ui.findCompletedRequest o.requests (.btc { txid := c.txid.hex })).elim ui fun id =>
        { ui with currencies := ui.currencies.mapVals fun _ i => i.setRequestStatus id (.nodeRejected "Tx canceled") }) := by
  unfold afterReject
  cases hui : s.users.get? u with
  | none =>
    cases s.findWithdrawalByTxId o (.btc { txid := c.txid.hex }) with
    | none => exact hui
    | some id =>
      rw [Option.elim_some, mapCurrencies, AssocMap.get?_mapVals, hui]
      rfl
  | some ui =>
    rw [Option.map_some]
    cases hf : s.findWithdrawalByTxId o (.btc { txid := c.txid.hex }) with
    | none =>
      have hnone := AssocMap.findVal?_eq_none_iff.mp hf u ui hui
      rw [hnone]
      exact hui
    | some id =>
      obtain ⟨u', ui', hui', hf'⟩ := AssocMap.findVal?_eq_some hf
      obtain ⟨cur', k', r', hr', ht', rfl⟩ := completedBy_of_findCompletedRequest hui' hf'
      rw [Option.elim_some, mapCurrencies, AssocMap.get?_mapVals, hui, Option.map_some]
      cases hown : ui.findCompletedRequest o.requests (.btc { txid := c.txid.hex }) with
      | none =>
        have hne : u' ≠ u := by
          rintro rfl
          obtain rfl := Option.some.inj (hui'.symm.trans hui)
          rw [hown] at hf'
          cases hf'
        refine congrArg some (mapCurrencies_eq_self hui ?_)
        intro cur r hr
        exact absurd (hreq u' cur' cur k' r' r hr' hr) hne
      | some id' =>
        obtain ⟨cur, k, r, hr, ht, hid⟩ := completedBy_of_findCompletedRequest hui hown
        obtain rfl := htx u' cur cur' k k' r r' c.txid hr ht hr' ht'
        obtain rfl := Option.some.inj (hui'.symm.trans hui)
        obtain rfl := Option.some.inj (hf'.symm.trans hown)
        rfl

theorem get?_withBtcTxUpdate_congr (h : s.users.get? u = t.users.get? u) (hs : s.Private u) (ht : t.Private u)
    (haddr : t.exchangeState.addresses = s.exchangeState.addresses) (tx : BtcTransaction) :
    (s.withBtcTxUpdate o tx).1.users.get? u = (t.withBtcTxUpdate o tx).1.users.get? u := by
  have hxt := isExchangeAddress_congr haddr (btcAddress tx.address)
  unfold withBtcTxUpdate
  by_cases hx : s.isExchangeAddress (btcAddress tx.address) = true
  · rw [hx] at hxt
    simp only [hx, hxt, if_true]
    exact h
  · simp only [hxt, hx]
    exact get?_withDepositOwner_congr h (hs.addresses tx.address) (ht.addresses tx.address) _

theorem withBtcTxUpdate_ok (s : State) (o : Oracle) (tx : BtcTransaction) : (s.withBtcTxUpdate o tx).2 = .ok () := by
  unfold withBtcTxUpdate
  by_cases hx : s.isExchangeAddress (btcAddress tx.address) = true
  · simp only [hx, if_true]
  · simp only [hx]
    exact withDepositOwner_ok s o tx.address _

/-- The change of an owner's deposits leaves the requests as they are. -/
theorem request?_withDepositOwner {a : Address} {c : BtcTxCancel} (u' : UserId) (cur : Currency) (k : WithdrawalRequestId) :
    (s.withDepositOwner o (btcAddress a) (·.cancelBtcTx c)).1.request? u' cur k = s.request? u' cur k := by
  generalize hout : s.withDepositOwner o (btcAddress a) (·.cancelBtcTx c) = out
  obtain ⟨s₁, r⟩ := out
  rcases withDepositOwner_eq hout with rfl | ⟨owner, -, rfl⟩
  · rfl
  · exact request?_modifyCurrency_same s u' owner cur .btc k (·.cancelBtcTx c) (fun _ => rfl)

theorem withBtcTxCancel_eq_of_not_exchange {c : BtcTxCancel} (hx : ¬s.isExchangeAddress (btcAddress c.address) = true) :
    s.withBtcTxCancel o c = ((s.withDepositOwner o (btcAddress c.address) (·.cancelBtcTx c)).1.afterReject o c, .ok ()) := by
  refine withBtcTxCancel_eq_afterReject hx ?_
  rw [← withDepositOwner_ok s o c.address (·.cancelBtcTx c)]

theorem get?_withBtcTxCancel_congr (h : s.users.get? u = t.users.get? u) (hs : s.Private u) (ht : t.Private u)
    (haddr : t.exchangeState.addresses = s.exchangeState.addresses) (c : BtcTxCancel) :
    (s.withBtcTxCancel o c).1.users.get? u = (t.withBtcTxCancel o c).1.users.get? u := by
  have hreject : ∀ s : State, s.Private u →
      ((s.withDepositOwner o (btcAddress c.address) (·.cancelBtcTx c)).1.afterReject o c).users.get? u =
        ((s.withDepositOwner o (btcAddress c.address) (·.cancelBtcTx c)).1.users.get? u).map (fun ui =>
          (ui.findCompletedRequest o.requests (.btc { txid := c.txid.hex })).elim ui fun id =>
            { ui with currencies := ui.currencies.mapVals fun _ i => i.setRequestStatus id (.nodeRejected "Tx canceled") }) := by
    intro s hs
    refine get?_afterReject ?_ ?_ c
    · simp only [request?_withDepositOwner]
      exact hs.requests
    · simp only [request?_withDepositOwner]
      exact hs.transactions
  by_cases hx : s.isExchangeAddress (btcAddress c.address) = true
  · have hx' : t.isExchangeAddress (btcAddress c.address) = true := (isExchangeAddress_congr haddr _).trans hx
    unfold withBtcTxCancel
    simp only [hx, hx', if_true]
    exact h
  · have hx' : ¬t.isExchangeAddress (btcAddress c.address) = true := by rwa [isExchangeAddress_congr haddr]
    rw [withBtcTxCancel_eq_of_not_exchange hx, withBtcTxCancel_eq_of_not_exchange hx']
    have howner := get?_withDepositOwner_congr (o := o) h (hs.addresses c.address) (ht.addresses c.address) (·.cancelBtcTx c)
    rw [hreject s hs, hreject t ht, howner]

theorem withBtcTxCancel_ok (s : State) (o : Oracle) (c : BtcTxCancel) : (s.withBtcTxCancel o c).2 = .ok () := by
  by_cases hx : s.isExchangeAddress (btcAddress c.address) = true
  · unfold withBtcTxCancel
    simp only [hx, if_true]
  · rw [withBtcTxCancel_eq_of_not_exchange hx]

/-! ## One update -/

/-- An accepted update is applied; a refused one leaves the State. -/
theorem absorb_cases (s : State) (a : Oracle × StateUpdate) :
    (∃ s' res, s.applyUpdate a.1 a.2 = (s', .ok res) ∧ s.absorb a = (s', .ok res)) ∨
      ∃ e, (s.applyUpdate a.1 a.2).2 = .error e ∧ s.absorb a = (s, .error e) := by
  unfold absorb
  generalize s.applyUpdate a.1 a.2 = out
  obtain ⟨s', r⟩ := out
  cases r with
  | ok res => exact Or.inl ⟨s', res, rfl, rfl⟩
  | error e => exact Or.inr ⟨e, rfl, rfl⟩

/-- What is confined to a user stays so when the refused updates are undone. -/
theorem Confined.absorb {a : Oracle × StateUpdate} (h : Confined u (fun s => s.applyUpdate a.1 a.2)) :
    Confined u (fun s => s.absorb a) where
  same s t hst := by
    obtain ⟨hres, huser⟩ := h.same s t hst
    rcases absorb_cases s a with ⟨s', res, hs, heq⟩ | ⟨e, hs, heq⟩
    · rcases absorb_cases t a with ⟨t', res', ht, heq'⟩ | ⟨e, ht, heq'⟩
      · rw [hs, ht] at hres huser
        rw [heq, heq']
        exact ⟨hres, huser⟩
      · rw [hs, ht] at hres
        cases hres
    · rcases absorb_cases t a with ⟨t', res', ht, heq'⟩ | ⟨e', ht, heq'⟩
      · rw [hs, ht] at hres
        cases hres
      · rw [hs, ht] at hres
        rw [heq, heq']
        exact ⟨by rw [Except.error.inj hres], hst⟩
  other s u' hne := by
    have hother := h.other s u' hne
    rcases absorb_cases s a with ⟨s', res, hs, heq⟩ | ⟨e, hs, heq⟩
    · rw [hs] at hother
      rw [heq]
      exact hother
    · rw [heq]

/-- The name of a user who is there is not signed up again. -/
theorem absorb_signup {a : Oracle × StateUpdate} {info : SignupInfo} (hb : a.2.body = .signup info)
    (hu : s.users.get? info.username ≠ none) : s.absorb a = (s, .error (.userAlreadyExists info.username)) := by
  have hc : s.users.contains info.username = true := by
    obtain ⟨ui, hui⟩ := Option.ne_none_iff_exists'.mp hu
    rw [AssocMap.contains, hui]
    rfl
  simp only [absorb, applyUpdate, hb, withSignup, hc, if_true, stamped]

/-- An update that does not concern the user leaves him as he is. -/
theorem get?_absorb_of_not_concerns {a : Oracle × StateUpdate} (hsnap : ¬a.2.body.IsSnapshot) (hc : concerns u a = false) :
    (s.absorb a).1.users.get? u = s.users.get? u := by
  simp only [concerns, owned, Bool.or_eq_false_iff, decide_eq_false_iff_not] at hc
  obtain ⟨hown, hcommon⟩ := hc
  rcases absorb_cases s a with ⟨s', res, happly, heq⟩ | ⟨e, -, heq⟩
  · cases ho : a.2.body.owner? with
    | some u' =>
      have hne : u ≠ u' := by
        rintro rfl
        exact hown ho
      by_cases hsign : ∃ info, a.2.body = .signup info
      · obtain ⟨info, hb⟩ := hsign
        obtain ⟨-, -, rfl⟩ := applyUpdate_signup happly hb
        rw [hb] at ho
        obtain rfl := Option.some.inj ho
        rw [heq]
        exact (AssocMap.get?_insert ..).trans (if_neg hne)
      · exact (applyUpdate_confined a.1 ho (fun info hb => hsign ⟨info, hb⟩)).absorb.other s u hne
    | none =>
      have husers : s'.users = s.users := by
        unfold applyUpdate at happly
        cases hb : a.2.body <;> rw [hb] at happly ho hcommon hsnap <;> try cases ho
        case snapshot s₀ => exact absurd trivial hsnap
        case bestBtcBlock btc =>
          obtain ⟨s₁, r, hout, rfl, -⟩ := stamped_eq_ok happly
          obtain rfl := (Prod.mk.inj hout).1
          rfl
        case genInvite req =>
          obtain ⟨s₁, r, hout, rfl, -⟩ := stamped_eq_ok happly
          obtain ⟨-, rfl⟩ := genInvite_eq_ok hout
          rfl
        all_goals cases hcommon
      rw [heq, husers]
  · rw [heq]

/-- An update whose method succeeds is absorbed. -/
theorem users_absorb {a : Oracle × StateUpdate} {out : Outcome Unit}
    (happly : s.applyUpdate a.1 a.2 = stamped a.2.created out noResult) (hok : out.2 = .ok ()) : (s.absorb a).1.users = out.1.users := by
  obtain ⟨s₁, r⟩ := out
  obtain rfl : r = .ok () := hok
  unfold absorb
  rw [happly]
  rfl

/-- An update for everyone makes of the user what depends on him alone. -/
theorem get?_absorb_of_common {a : Oracle × StateUpdate} (hc : a.2.body.common = true) (h : s.users.get? u = t.users.get? u)
    (hbtc : a.2.body.isBtcTx = true → s.Private u ∧ t.Private u) (haddr : t.exchangeState.addresses = s.exchangeState.addresses) :
    (s.absorb a).1.users.get? u = (t.absorb a).1.users.get? u := by
  have hmap : ∀ f : UserCurrencyInfo → UserCurrencyInfo, (s.mapCurrencies f).users.get? u = (t.mapCurrencies f).users.get? u := by
    intro f
    simp only [mapCurrencies, AssocMap.get?_mapVals, h]
  have hmethod : ∀ m : State → Outcome Unit, (∀ s, s.applyUpdate a.1 a.2 = stamped a.2.created (m s) noResult) →
      (∀ s, (m s).2 = .ok ()) → (m s).1.users.get? u = (m t).1.users.get? u →
      (s.absorb a).1.users.get? u = (t.absorb a).1.users.get? u := by
    intro m happly hok hm
    rw [users_absorb (happly s) (hok s), users_absorb (happly t) (hok t)]
    exact hm
  cases hb : a.2.body <;> rw [hb] at hc hbtc <;> try cases hc
  case withdrawalRequestComplete info =>
    exact hmethod (·.setWithdrawalRequestCompleted info) (fun s => by simp only [applyUpdate, hb]) (fun _ => rfl) (hmap _)
  case withdrawalRequestNodeRejected info =>
    exact hmethod (·.setWithdrawalRequestNodeRejected info) (fun s => by simp only [applyUpdate, hb]) (fun _ => rfl) (hmap _)
  case clearLimits span => exact hmethod (·.clearLimits span) (fun s => by simp only [applyUpdate, hb]) (fun _ => rfl) (hmap _)
  case exchangeAddress req => exact hmethod (·.setExchangeAddress req) (fun s => by simp only [applyUpdate, hb]) (fun _ => rfl) h
  case updateBtcTx tx =>
    obtain ⟨hs, ht⟩ := hbtc rfl
    exact hmethod (·.withBtcTxUpdate a.1 tx) (fun s => by simp only [applyUpdate, hb]) (fun s => withBtcTxUpdate_ok s a.1 tx)
      (get?_withBtcTxUpdate_congr h hs ht haddr tx)
  case cancelBtcTx c =>
    obtain ⟨hs, ht⟩ := hbtc rfl
    exact hmethod (·.withBtcTxCancel a.1 c) (fun s => by simp only [applyUpdate, hb]) (fun s => withBtcTxCancel_ok s a.1 c)
      (get?_withBtcTxCancel_congr h hs ht haddr c)

/-- The addresses of the exchange after an update depend on the update and on those before. -/
theorem addresses_absorb {a : Oracle × StateUpdate} (hsnap : ¬a.2.body.IsSnapshot) :
    (s.absorb a).1.exchangeState.addresses = s.exchangeState.addresses ∧ (∀ req, a.2.body ≠ .exchangeAddress req) ∨
      ∃ req, a.2.body = .exchangeAddress req ∧
        (s.absorb a).1.exchangeState.addresses = s.exchangeState.addresses.insert req.currency req := by
  by_cases hset : ∃ req, a.2.body = .exchangeAddress req
  · obtain ⟨req, hb⟩ := hset
    refine Or.inr ⟨req, hb, ?_⟩
    simp only [absorb, applyUpdate, hb, setExchangeAddress, stamped]
  · refine Or.inl ⟨?_, fun req hb => hset ⟨req, hb⟩⟩
    rcases absorb_cases s a with ⟨s', res, happly, heq⟩ | ⟨e, -, heq⟩
    · rw [heq]
      rcases applyUpdate_addresses happly hsnap with hsame | ⟨req, hb, -⟩
      · exact hsame
      · exact absurd ⟨req, hb⟩ hset
    · rw [heq]

/-- Nobody appears but by his sign-up. -/
theorem get?_absorb_none {a : Oracle × StateUpdate} (hsnap : ¬a.2.body.IsSnapshot) (hu : s.users.get? u = none)
    (hown : a.2.body.owner? ≠ some u) : (s.absorb a).1.users.get? u = none := by
  rcases absorb_cases s a with ⟨s', res, happly, heq⟩ | ⟨e, -, heq⟩
  · rw [heq]
    refine applyUpdate_absent happly hsnap ?_ hu
    rintro info hb rfl
    exact hown (by rw [hb]; rfl)
  · rw [heq]
    exact hu

/-- Nobody disappears. -/
theorem get?_absorb_ne_none {a : Oracle × StateUpdate} (hsnap : ¬a.2.body.IsSnapshot) (hu : s.users.get? u ≠ none) :
    (s.absorb a).1.users.get? u ≠ none := by
  rcases absorb_cases s a with ⟨s', res, happly, heq⟩ | ⟨e, -, heq⟩
  · rw [heq]
    intro hnone
    have hpart : s'.part u (·.username) = none := by rw [part, hnone]; rfl
    rcases applyUpdate_username happly hsnap u with hsame | ⟨hsome, -⟩
    · exact hu (Option.map_eq_none_iff.mp (hsame.symm.trans hpart))
    · rw [hpart] at hsome
      cases hsome
  · rw [heq]
    exact hu

/-- What is asked of an update: that it is no snapshot, and that the user shares nothing with another where an owner is searched. -/
def Separated (u : UserId) (s : State) (a : Oracle × StateUpdate) : Prop :=
  ¬a.2.body.IsSnapshot ∧ (a.2.body.isBtcTx = true → s.Private u)

/-- (step) The whole State follows the State of the user alone. -/
theorem follows_alone (u : UserId) : worker.Follows worker (concerns u) (owned u) (Separated u) (Secludes u) where
  kept s t a hR hP hk := by
    obtain ⟨hsnap, hbtc⟩ := hP
    have hprivate : t.Private u := private_of_others hR.others
    refine ⟨?_, get?_absorb_ne_none hsnap hR.there, ?_, ?_⟩
    · simp only [concerns, owned, Bool.or_eq_true, decide_eq_true_eq] at hk
      rcases hk with hown | hcommon
      · by_cases hsign : ∃ info, a.2.body = .signup info
        · obtain ⟨info, hb⟩ := hsign
          rw [hb] at hown
          obtain rfl := Option.some.inj hown
          change (s.absorb a).1.users.get? _ = (t.absorb a).1.users.get? _
          rw [absorb_signup hb hR.there, absorb_signup hb (hR.same ▸ hR.there)]
          exact hR.same
        · exact ((applyUpdate_confined a.1 hown fun info hb => hsign ⟨info, hb⟩).absorb.same s t hR.same).2
      · exact get?_absorb_of_common hcommon hR.same (fun h => ⟨hbtc h, hprivate⟩) hR.addresses
    · intro u' hne
      refine get?_absorb_none hsnap (hR.others u' hne) ?_
      intro hown
      simp only [concerns, owned, Bool.or_eq_true, decide_eq_true_eq] at hk
      rcases hk with hk | hk
      · exact hne (Option.some.inj (hown.symm.trans hk))
      · rw [UpdateBody.owner?_of_common hk] at hown
        cases hown
    · change (t.absorb a).1.exchangeState.addresses = (s.absorb a).1.exchangeState.addresses
      rcases addresses_absorb (s := s) hsnap with ⟨hs, hno⟩ | ⟨req, hb, hs⟩
      · rcases addresses_absorb (s := t) hsnap with ⟨ht, -⟩ | ⟨req, hb, -⟩
        · rw [hs, ht, hR.addresses]
        · exact absurd hb (hno req)
      · rcases addresses_absorb (s := t) hsnap with ⟨-, hno⟩ | ⟨req', hb', ht⟩
        · exact absurd hb (hno req)
        · obtain rfl : req = req' := by
            rw [hb] at hb'
            exact UpdateBody.exchangeAddress.inj hb'
          rw [hs, ht, hR.addresses]
  dropped s t a hR hP hk := by
    obtain ⟨hsnap, -⟩ := hP
    refine ⟨(get?_absorb_of_not_concerns hsnap hk).trans hR.same, get?_absorb_ne_none hsnap hR.there, hR.others, ?_⟩
    change t.exchangeState.addresses = (s.absorb a).1.exchangeState.addresses
    rcases addresses_absorb (s := s) hsnap with ⟨hs, -⟩ | ⟨req, hb, -⟩
    · rw [hs, hR.addresses]
    · simp [concerns, hb, UpdateBody.common] at hk
  answer s t a hR hP hown := by
    refine ⟨by rw [concerns, hown]; rfl, ?_⟩
    have howner : a.2.body.owner? = some u := of_decide_eq_true hown
    by_cases hsign : ∃ info, a.2.body = .signup info
    · obtain ⟨info, hb⟩ := hsign
      rw [hb] at howner
      obtain rfl := Option.some.inj howner
      change (s.absorb a).2 = (t.absorb a).2
      rw [absorb_signup hb hR.there, absorb_signup hb (hR.same ▸ hR.there)]
    · exact ((applyUpdate_confined a.1 howner fun info hb => hsign ⟨info, hb⟩).absorb.same s t hR.same).1

/-- (run) What becomes of a user, and how his updates are answered, is the same when he is the only user, and the updates of the others
are left out. -/
theorem user_isolated (s : State) (u : UserId) (as : List (Oracle × StateUpdate)) (hu : s.users.get? u ≠ none)
    (h : worker.Along (Separated u) s as) :
    (worker.run s as).users.get? u = (worker.run (s.alone u) (as.filter (concerns u))).users.get? u ∧
      worker.answers (owned u) s as = worker.answers (owned u) (s.alone u) (as.filter (concerns u)) :=
  ⟨((follows_alone u).run (secludes_alone hu) h).same, (follows_alone u).answers (secludes_alone hu) h⟩

end State

/-- The hot wallet's own worker absorbs the updates of the channel, as long as they are stored. -/
theorem World.apply_absorb {w w' : World} {o : Oracle} {up : StateUpdate} {ups : List StateUpdate} (hw : w.updates = up :: ups)
    (h : w.apply o true = some w') : w'.journal.state = (w.journal.state.absorb (o, up)).1 ∧ w'.updates = ups := by
  rcases hout : w.journal.state.applyUpdate o up with ⟨s', r⟩
  cases r with
  | ok res =>
    simp only [World.apply, hw, Journal.store, hout, if_true, Option.some.injEq] at h
    simp only [← h, State.absorb, hout, and_self]
  | error e =>
    simp only [World.apply, hw, Journal.store, hout, Option.some.injEq] at h
    simp only [← h, State.absorb, hout, and_self]

namespace Sample

/-- Alice, who has an address, and bob, who has done nothing yet. -/
def aliceAndBob : State := State.worker.run (State.new ⟨0⟩ "genesis") twoUsers

/-- The other users have neither addresses nor requests. -/
def idleBut (u : UserId) (s : State) : Bool :=
  s.users.toList.all fun e => decide (e.1 = u) ||
    e.2.currencies.values.all fun i => i.depositInfo.isEmpty && i.withdrawalRequests.keys.isEmpty

theorem private_of_idleBut {u : UserId} {s : State} (h : idleBut u s = true) : s.Private u := by
  have hidle : ∀ u' c i, s.currency? u' c = some i → u' = u ∨ i.depositInfo = [] ∧ i.withdrawalRequests.keys = [] := by
    intro u' c i hi
    obtain ⟨ui, hui, hc⟩ := Option.bind_eq_some_iff.mp hi
    have hall := List.all_eq_true.mp h (u', ui) ((AssocMap.mem_toList_iff ..).mpr hui)
    simp only [Bool.or_eq_true, decide_eq_true_eq, List.all_eq_true, Bool.and_eq_true, List.isEmpty_iff] at hall
    exact hall.imp_right fun hv => hv i ((AssocMap.mem_values_iff ..).mpr ⟨c, hc⟩)
  have howns : ∀ u' a, s.Owns u' a → u' = u := by
    rintro u' a ⟨i, hi, ha⟩
    rcases hidle u' .btc i hi with rfl | ⟨hnil, -⟩
    · rfl
    · rw [hnil] at ha
      cases ha
  have hrequest : ∀ u' c k r, s.request? u' c k = some r → u' = u := by
    intro u' c k r hr
    obtain ⟨i, hi, hk⟩ := State.request?_eq_some hr
    rcases hidle u' c i hi with rfl | ⟨-, hnil⟩
    · rfl
    · have hmem := AssocMap.mem_keys_of_get? hk
      rw [hnil] at hmem
      cases hmem
  exact ⟨fun a u' _ hu' => howns u' a hu', fun u' c c' k r r' hr _ => hrequest u' c k r hr,
    fun u' c c' k k' r r' t _ _ hr' _ => hrequest u' c' k' r' hr'⟩

/-- A deposit of alice's among updates of bob's. -/
def amongOthers : List (Oracle × StateUpdate) :=
  [upd 6 (.setLanguage { user := bob, language := .russian }), upd 7 (.updateBtcTx (deposit 100)),
    upd 8 (.passwordChange { user := bob, newPassword := "secret" }), upd 9 (.setLanguage { user := alice, language := .russian })]

end Sample

open Sample in
theorem user_isolated_alice :
    aliceAndBob.users.get? alice ≠ none ∧ (amongOthers.filter (concerns alice)).length = 2 ∧
      (State.worker.run aliceAndBob amongOthers).users.get? alice =
        (State.worker.run (aliceAndBob.alone alice) (amongOthers.filter (concerns alice))).users.get? alice ∧
      State.worker.answers (owned alice) aliceAndBob amongOthers =
        State.worker.answers (owned alice) (aliceAndBob.alone alice) (amongOthers.filter (concerns alice)) := by
  have hthere : aliceAndBob.users.get? alice ≠ none := by
    rw [← Option.isSome_iff_ne_none]
    decide
  refine ⟨hthere, by decide, State.user_isolated aliceAndBob alice amongOthers hthere ?_⟩
  refine ⟨⟨by decide, fun h => by cases h⟩, ⟨by decide, fun _ => private_of_idleBut (by decide)⟩, ⟨by decide, fun h => by cases h⟩,
    ⟨by decide, fun h => by cases h⟩, trivial⟩

end Hexstody
