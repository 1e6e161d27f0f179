import Hexstody.History
import Hexstody.Lemmas.Invites
import Hexstody.Lemmas.Ledger
import Hexstody.Lemmas.World
import Hexstody.PublicWallet

/-!
# The currencies of the State

Whether only supported currencies enter the State. The accounts of a new user and the balances of the exchange account are in supported
currencies, and every update but two looks for an account that is there already; but a token is enabled, and an order paid out, in
whatever currency the request names, and neither the handlers nor the State compare it with the supported ones.
`supported_only_of_requests` says that nothing else can go wrong: where the requests name supported currencies, so does the State, in
every run of the hot wallet, and a ticker then stands for one contract.
-/

namespace Hexstody

/-- Every currency of the State is supported, and no two tokens that users have accounts in go by one ticker. -/
structure State.OnlySupported (s : State) : Prop where
  accounts : ∀ u ui, s.users.get? u = some ui → ∀ c ∈ ui.currencies.keys, c ∈ Currency.supported
  orders : ∀ u c i ex, s.order? u c i = some ex → ex.currencyFrom ∈ Currency.supported ∧ ex.currencyTo ∈ Currency.supported
  settled : ∀ i order, s.exchangeState.exchanges.get? i = some order →
    order.currencyFrom ∈ Currency.supported ∧ order.currencyTo ∈ Currency.supported
  balances : ∀ c ∈ s.exchangeState.balances.keys, c ∈ Currency.supported
  tickers : ∀ u ui u' ui', s.users.get? u = some ui → s.users.get? u' = some ui' → ∀ t t' : Erc20Token,
    .erc20 t ∈ ui.currencies.keys → .erc20 t' ∈ ui'.currencies.keys → t.ticker = t'.ticker → t = t'

/-- A request names a supported currency, where it names one that need not be an account's. -/
def PublicCall.Supported : PublicCall → Prop
  | .enableToken _ token => .erc20 token ∈ Currency.supported
  | .orderExchange _ req _ _ => req.currencyTo ∈ Currency.supported
  | _ => True

instance (call : PublicCall) : Decidable call.Supported := by
  cases call <;> unfold PublicCall.Supported <;> infer_instance

/-- An update brings in only supported currencies. -/
def UpdateBody.NamesSupported : UpdateBody → Prop
  | .updateTokens req => req.action = .enable → .erc20 req.token ∈ Currency.supported
  | .exchangeRequest req => req.currencyTo ∈ Currency.supported
  | _ => True

/-- A supported token is known by its ticker. -/
theorem supported_ticker {t t' : Erc20Token} (h : .erc20 t ∈ Currency.supported) (h' : .erc20 t' ∈ Currency.supported)
    (heq : t.ticker = t'.ticker) : t = t' := by
  have htokens : ∀ c ∈ Currency.supported, ∀ c' ∈ Currency.supported, ∀ t ∈ filterTokens [c], ∀ t' ∈ filterTokens [c'],
    t.ticker = t'.ticker → t = t' := by decide
  exact htokens _ h _ h' t List.mem_cons_self t' List.mem_cons_self heq

namespace State

variable {s s' : State} {o : Oracle} {up : StateUpdate} {res : Option UpdateResult}

/-- The invariant, by accounts. -/
structure Supports (s : State) : Prop where
  accounts : ∀ u c i, s.currency? u c = some i → c ∈ Currency.supported
  orders : ∀ u c i ex, s.order? u c i = some ex → ex.currencyFrom ∈ Currency.supported ∧ ex.currencyTo ∈ Currency.supported
  settled : ∀ i order, s.exchangeState.exchanges.get? i = some order →
    order.currencyFrom ∈ Currency.supported ∧ order.currencyTo ∈ Currency.supported
  balances : ∀ c v, s.exchangeState.balances.get? c = some v → c ∈ Currency.supported

/-! ## The accounts -/

/-- A new user's accounts are in supported currencies. -/
theorem supported_of_new {username : UserId} {invite : Invite} {auth : SignupAuth} {t : NaiveDateTime} {c : Currency}
    {i : UserCurrencyInfo} (h : (UserInfo.new username invite auth t).currencies.get? c = some i) : c ∈ Currency.supported := by
  obtain ⟨c', hc', heq⟩ := List.mem_map.mp (AssocMap.mem_of_get?_ofList h)
  obtain ⟨rfl, -⟩ := Prod.mk.inj heq
  have hdefault : ∀ c ∈ Currency.defaultCurrencies, c ∈ Currency.supported := by decide
  exact hdefault _ hc'

/-- A user who was not there is signed up. -/
theorem supported_of_signup (h : s.applyUpdate o up = (s', .ok res)) (hs : ¬up.body.IsSnapshot) {u : UserId}
    (habs : s.users.get? u = none) {c : Currency} {i : UserCurrencyInfo} (hi : s'.currency? u c = some i) :
    c ∈ Currency.supported := by
  obtain ⟨ui, hui, hc⟩ := Option.bind_eq_some_iff.mp hi
  have hsign : ∃ info, up.body = .signup info ∧ info.username = u := by
    by_contra hno
    have hnone := applyUpdate_absent h hs (fun info hb hu => hno ⟨info, hb, hu⟩) habs
    rw [hui] at hnone
    cases hnone
  obtain ⟨info, hb, rfl⟩ := hsign
  obtain ⟨-, -, rfl⟩ := State.applyUpdate_signup h hb
  obtain rfl := Option.some.inj (hui.symm.trans (AssocMap.get?_insert_self ..))
  exact supported_of_new hc

/-- (step) -/
theorem Supports.account (hsup : s.Supports) (hnames : up.body.NamesSupported) (hs : ¬up.body.IsSnapshot)
    (h : s.applyUpdate o up = (s', .ok res)) {u : UserId} {c : Currency} {i : UserCurrencyInfo}
    (hi : s'.currency? u c = some i) : c ∈ Currency.supported := by
  have hchange := applyUpdate_account h hs u c
  cases ha : s.currency? u c with
  | some j => exact hsup.accounts u c j ha
  | none =>
    rw [ha, hi] at hchange
    cases hchange with
    | opened hopen =>
      rcases hopen with habs | ⟨token, hb, rfl⟩
      · exact supported_of_signup h hs habs hi
      · rw [hb] at hnames
        exact hnames rfl

/-! ## The orders -/

/-- (step) -/
theorem Supports.order (hsup : s.Supports) (hnames : up.body.NamesSupported) (hs : ¬up.body.IsSnapshot)
    (h : s.applyUpdate o up = (s', .ok res)) {u : UserId} {c : Currency} {i : ExchangeOrderId} {ex : ExchangeOrder}
    (hex : s'.order? u c i = some ex) : ex.currencyFrom ∈ Currency.supported ∧ ex.currencyTo ∈ Currency.supported := by
  have hchange := applyUpdate_order h hs u c i
  rw [hex] at hchange
  generalize ha : s.order? u c i = a at hchange
  cases hchange with
  | same => exact hsup.orders u c i ex ha
  | created _ req hb _ _ hfrom =>
    obtain ⟨info, hinfo, -⟩ := Option.bind_eq_some_iff.mp hex
    rw [hb] at hnames
    have haccount := hsup.account (by rw [hb]; exact hnames) hs h hinfo
    exact ⟨by rwa [← hfrom] at haccount, hnames⟩
  | decided ex₀ _ req completes _ _ _ _ hd =>
    -- a vote leaves the currencies of the order
    have hinto := ExchangeOrder.applyDecision_intoExchangeUpd hd
    have hfrom' : ex.currencyFrom = ex₀.currencyFrom := congrArg ExchangeOrderUpd.currencyFrom hinto
    have hto' : ex.currencyTo = ex₀.currencyTo := congrArg ExchangeOrderUpd.currencyTo hinto
    rw [hfrom', hto']
    exact hsup.orders u c i ex₀ ha

/-! ## The exchange account -/

/-- A balance that is changed, or opened, in a supported currency. -/
theorem supported_modifyOrInsert {m : AssocMap Currency Int64} (h : ∀ c v, m.get? c = some v → c ∈ Currency.supported)
    {k : Currency} (hk : k ∈ Currency.supported) (f : Int64 → Int64) (v : Int64) :
    ∀ c w, (m.modifyOrInsert k f v).get? c = some w → c ∈ Currency.supported := by
  intro c w hw
  rw [AssocMap.get?_modifyOrInsert] at hw
  split at hw
  · rename_i hc
    exact hc ▸ hk
  · exact h c w hw

/-- (step) -/
theorem Supports.exchange (hsup : s.Supports) {e : ExchangeState} (h : ExchangeChange s up e) :
    (∀ i order, e.exchanges.get? i = some order → order.currencyFrom ∈ Currency.supported ∧ order.currencyTo ∈ Currency.supported) ∧
      ∀ c v, e.balances.get? c = some v → c ∈ Currency.supported := by
  have hbtc : Currency.btc ∈ Currency.supported := List.mem_cons_self
  cases h with
  | same => exact ⟨hsup.settled, hsup.balances⟩
  | addressed => exact ⟨hsup.settled, hsup.balances⟩
  | deposited tx =>
    unfold ExchangeState.processIncomingBtcTx
    split
    · split
      · exact ⟨hsup.settled, hsup.balances⟩
      · exact ⟨hsup.settled, supported_modifyOrInsert hsup.balances hbtc _ _⟩
    · exact ⟨hsup.settled, hsup.balances⟩
  | canceled tx =>
    unfold ExchangeState.cancelBtcTx
    split
    · exact ⟨hsup.settled, supported_modifyOrInsert hsup.balances hbtc _ _⟩
    · exact ⟨hsup.settled, hsup.balances⟩
  | settled req order _ hdone =>
    obtain ⟨ex, -, hord, -, rfl⟩ := completedOrder?_eq_some hdone
    obtain ⟨hfrom, hto⟩ := hsup.orders _ _ _ ex hord
    refine ⟨fun i order' ho => ?_, supported_modifyOrInsert (supported_modifyOrInsert hsup.balances hfrom _ _) hto _ _⟩
    rw [ExchangeState.processOrder, AssocMap.get?_insert] at ho
    split at ho
    · obtain rfl := Option.some.inj ho
      exact ⟨hfrom, hto⟩
    · exact hsup.settled i order' ho

/-! ## Runs -/

theorem Supports.new (now : NaiveDateTime) (genesisHash : String) : (State.new now genesisHash).Supports where
  accounts := by
    intro u c i h
    have hnone : (State.new now genesisHash).currency? u c = none := rfl
    rw [hnone] at h
    cases h
  orders := by
    intro u c i ex h
    have hnone : (State.new now genesisHash).order? u c i = none := rfl
    rw [hnone] at h
    cases h
  settled := by
    intro i order h
    have hnone : (State.new now genesisHash).exchangeState.exchanges.get? i = none := rfl
    rw [hnone] at h
    cases h
  balances := by
    intro c v h
    obtain ⟨c', hc', heq⟩ := List.mem_map.mp (AssocMap.mem_of_get?_ofList h)
    exact (Prod.mk.inj heq).1 ▸ hc'

/-- (step) -/
theorem Supports.applyUpdate (hsup : s.Supports) (hnames : up.body.NamesSupported) (hs : ¬up.body.IsSnapshot)
    (h : s.applyUpdate o up = (s', .ok res)) : s'.Supports := by
  obtain ⟨hsettled, hbalances⟩ := hsup.exchange (applyUpdate_exchangeState h hs)
  exact ⟨fun _ _ _ hi => hsup.account hnames hs h hi, fun _ _ _ _ hex => hsup.order hnames hs h hex, hsettled, hbalances⟩

/-- (run) -/
theorem Reached.supports (h : s.Reached fun _ b => b.NamesSupported) : s.Supports :=
  h.invariant Supports.new (fun _ _ hsup => ⟨hsup.accounts, hsup.orders, hsup.settled, hsup.balances⟩)
    (fun _ hsup hnames hs happly => hsup.applyUpdate hnames hs happly)

theorem Supports.onlySupported (h : s.Supports) : s.OnlySupported := by
  have haccounts : ∀ u ui, s.users.get? u = some ui → ∀ c ∈ ui.currencies.keys, c ∈ Currency.supported := by
    intro u ui hu c hc
    obtain ⟨i, hi⟩ := AssocMap.mem_keys_iff.mp hc
    exact h.accounts u c i (Option.bind_eq_some_iff.mpr ⟨ui, hu, hi⟩)
  refine ⟨haccounts, h.orders, h.settled, fun c hc => ?_, fun u ui u' ui' hu hu' t t' ht ht' heq => ?_⟩
  · obtain ⟨v, hv⟩ := AssocMap.mem_keys_iff.mp hc
    exact h.balances c v hv
  · exact supported_ticker (haccounts u ui hu _ ht) (haccounts u' ui' hu' _ ht') heq

end State

/-! ## The hot wallet -/

namespace World

variable {k : Clock} {w w' : World}

/-- The request of the step, if it is one, names supported currencies. -/
def AsksSupported (_ : World) : Action PublicCall → Prop
  | .request call _ => call.Supported
  | _ => True

instance (w : World) (a : Action PublicCall) : Decidable (AsksSupported w a) := by
  cases a <;> unfold AsksSupported <;> infer_instance

/-- What a request makes names the currencies of the request. -/
theorem namesSupported_of_makes {call : PublicCall} {b : UpdateBody} (h : call.Makes b) (hcall : call.Supported) :
    b.NamesSupported := by
  cases h with
  | enabled => exact fun _ => hcall
  | disabled => exact nofun
  | ordered _ _ _ _ upd _ hto => exact (hto ▸ hcall : upd.currencyTo ∈ Currency.supported)
  | withdrawn => trivial
  | other b helse => cases b <;> trivial

/-- The updates on their way name supported currencies. -/
def Sends (w : World) : Prop := ∀ u ∈ w.updates ++ w.pending, u.body.NamesSupported

/-- (step) -/
theorem Sends.step {a : Action PublicCall} (h : w.Sends) (hissued : w.Issued) (ha : AsksSupported w a)
    (hs : Step publicWallet k w a w') : w'.Sends := by
  cases hs with
  | requested call created b hb =>
    intro u hu
    rw [← List.append_assoc] at hu
    rcases List.mem_append.mp hu with hu | hu
    · exact h u hu
    · obtain rfl := List.mem_singleton.mp hu
      exact namesSupported_of_makes (PublicCall.makes hb) ha
  | delivered n u hu =>
    intro v hv
    rw [List.append_assoc] at hv
    rcases List.mem_append.mp hv with hv | hv
    · exact h v (List.mem_append_left _ hv)
    · refine h v (List.mem_append_right _ ?_)
      rcases List.mem_append.mp hv with hv | hv
      · obtain rfl := List.mem_singleton.mp hv
        exact List.mem_of_getElem? hu
      · exact List.mem_of_mem_eraseIdx hv
  | applied o u us j hu => exact fun v hv => h v (by rw [hu]; exact List.mem_cons_of_mem _ hv)
  | dropped o stored u us hu => exact fun v hv => h v (by rw [hu]; exact List.mem_cons_of_mem _ hv)
  | sent u hu =>
    intro v hv
    rw [List.append_assoc] at hv
    rcases List.mem_append.mp hv with hv | hv
    · exact h v (List.mem_append_left _ hv)
    · rcases List.mem_append.mp hv with hv | hv
      · obtain rfl := List.mem_singleton.mp hv
        rcases hissued.sending v hu with ⟨info, hb⟩ | ⟨info, hb⟩ <;> rw [hb] <;> trivial
      · exact h v (List.mem_append_right _ hv)
  | took => exact h
  | skipped => exact h
  | returned => exact h
  | paidEth => exact h

/-- (run) -/
theorem sends_of_reachable (h : (machine publicWallet k).Reachable AsksSupported w) : w.Sends := by
  refine h.invariant ?_ (fun w a w' hr hsends ha hs => hsends.step (issued_of_reachable hr) ha (step_eq_some hs))
  rintro _ ⟨now, genesisHash, rfl⟩
  exact List.forall_mem_nil _

/-- (run) -/
theorem supports_of_reachable (h : (machine publicWallet k).Reachable AsksSupported w) : w.journal.state.Supports := by
  have hrun := journal_reachable (Q := fun _ a => a.2.body.NamesSupported) h fun w o u us j hr _ hu _ =>
    sends_of_reachable hr u (List.mem_append_left _ (hu ▸ List.mem_cons_self))
  exact State.Reached.supports ⟨_, Journal.madeBy_updates (fun _ _ hq => ⟨hq.2, hq.1.1⟩) hrun⟩

/-- Where every token that is enabled and every currency that an order is paid out in is supported, so is every currency of the State. -/
theorem supported_only_of_requests (k : Clock) (w : World) (h : (machine publicWallet k).Reachable AsksSupported w) :
    w.journal.state.OnlySupported := (supports_of_reachable h).onlySupported

end World

namespace Sample

/-- A call whose update is sent at once, and applied. -/
def publicDone (t : Int) (call : PublicCall) : List (Action PublicCall) := [.request call ⟨t⟩, .deliver 0, .apply oracle true]

/-- Alice signs up, and enables a token. -/
def enabling (token : Erc20Token) : List (Action PublicCall) :=
  publicDone 1 (.other (.genInvite { invite := ⟨uuid 1⟩, invitor := "op", label := "" })) ++
    publicDone 2 (.other (.signup { username := alice, invite := ⟨uuid 1⟩, auth := .lightning })) ++
    publicDone 3 (.enableToken alice token)

def curveToken : Erc20Token := { ticker := "CRV", name := "CRV", contract := "0xd533a949740bb3306d119cc777fa900ba034cd52" }

/-- Another contract that goes by the ticker of a supported one. -/
def forgedToken : Erc20Token := { ticker := "USDT", name := "USDT", contract := "0x0" }

theorem publicWorld_init : (World.machine publicWallet clock).init world := ⟨_, _, rfl⟩

/-- The token is one of alice's. -/
def holdsToken (token : Erc20Token) (w : World) : Bool :=
  (w.journal.state.users.get? alice).any fun ui => decide (.erc20 token ∈ ui.currencies.keys)

end Sample

namespace World

open Sample in
/-- Alice enables CRV. -/
theorem supported_only_of_requests_curve : ∃ w : World, holdsToken curveToken w = true ∧ w.journal.state.OnlySupported := by
  obtain ⟨w, hw, hq⟩ := Machine.exists_reachable (P := AsksSupported) (enabling curveToken) (q := holdsToken curveToken)
    publicWorld_init (by decide +kernel)
  exact ⟨w, hq, supported_only_of_requests clock w hw⟩

open Sample in
/-- Alice enables a contract of her own, which goes by the ticker of a supported one. -/
theorem unsupported_token_enters : ¬∀ (k : Clock) (w : World),
    (machine publicWallet k).Reachable (fun _ _ => True) w → w.journal.state.OnlySupported := by
  intro hall
  obtain ⟨w, hw, hq⟩ := Machine.exists_reachable (P := fun (_ : World) (_ : Action PublicCall) => True) (enabling forgedToken)
    (q := holdsToken forgedToken) publicWorld_init (by decide +kernel)
  obtain ⟨ui, hui, hkey⟩ := (Option.any_eq_true _ _).mp hq
  have hsupported := (hall clock w hw).accounts alice ui hui _ (of_decide_eq_true hkey)
  exact absurd hsupported (by decide)

end World

end Hexstody
