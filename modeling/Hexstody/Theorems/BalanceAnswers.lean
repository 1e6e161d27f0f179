import Hexstody.Balances
import Hexstody.Library.Lists

/-!
# The two balances

Whether the handler that answers all balances of a user and the one that answers a single one say the same. For a token the first reads
the last entry of its ticker, and falls back on the account, or on zero; the second reads the first entry, and has no fallback.
`balances_agree_iff` says for which answers of the ETH module they agree on every currency of the user.
-/

namespace Hexstody

open Handlers

/-- The balances that are reported under the ticker of a token. -/
def UserData.entriesOf (data : UserData) (token : Erc20Token) : List Erc20TokenBalance :=
  data.balanceTokens.filter fun tok => tok.tokenName = token.ticker

/-- The balance of a currency that is reported is a number of 64 bits; of a token there is one, and the first and the last that there
are give one number (zero, where the last is none). -/
def UserData.Legible (data : UserData) : Currency → Prop
  | .btc => True
  | .eth => ∃ v, parseU64 data.balanceEth = some v
  | .erc20 token => ∃ first last v, (data.entriesOf token).head? = some first ∧ (data.entriesOf token).getLast? = some last ∧
      parseU64 first.tokenBalance = some v ∧ (parseU64 last.tokenBalance).getD 0 = v

/-- The ETH module answers what both handlers read alike; or it does not answer, and the user has no BTC, for which only one asks it. -/
def UserInfo.Readable (user : UserInfo) : Except String UserEth → Prop
  | .error _ => user.currencies.get? .btc = none
  | .ok u => ∀ cur info, user.currencies.get? cur = some info → u.data.Legible cur

/-- The two handlers agree on a currency: neither panics, one fails just when the other does, and the currency is listed once, with
the item that is answered for it alone. -/
structure AgreeOn (user : UserInfo) (userData : Except String UserEth) (order : IterOrder Currency) (cur : Currency) : Prop where
  all : getBalance user userData order ≠ .panicked
  single : getBalanceByCurrency user userData cur ≠ .panicked
  fails : (∃ e, getBalance user userData order = .error e) ↔ ∃ e, getBalanceByCurrency user userData cur = .error e
  same : ∀ balances, getBalance user userData order = .ok balances →
    ∃ item, (balances.filter fun b => b.currency = cur) = [item] ∧ getBalanceByCurrency user userData cur = .ok item

variable {user : UserInfo} {u : UserEth} {order : IterOrder Currency} {cur : Currency} {info : UserCurrencyInfo}

/-! ## One currency -/

/-- The loop over the tokens ends with the last entry of the ticker. -/
theorem listedValue_erc20 (data : UserData) (token : Erc20Token) (info : UserCurrencyInfo) :
    listedValue data (.erc20 token) info =
      some (((data.entriesOf token).getLast?.map fun tok => (parseU64 tok.tokenBalance).getD 0).getD info.balance) := by
  have hloop := foldl_overwrite (fun tok : Erc20TokenBalance => decide (tok.tokenName = token.ticker))
    (fun tok => (parseU64 tok.tokenBalance).getD 0) data.balanceTokens info.balance
  simp only [decide_eq_true_eq] at hloop
  exact congrArg some hloop

/-- The other handler answers the first. -/
theorem getBalanceByCurrency_erc20 {token : Erc20Token} (hinfo : user.currencies.get? (.erc20 token) = some info) :
    getBalanceByCurrency user (.ok u) (.erc20 token) =
      match (u.data.entriesOf token).head? with
      | some tok => (parseU64 tok.tokenBalance).elim .panicked fun v =>
          .ok { currency := .erc20 token, value := v, limitInfo := info.limitInfo }
      | none => .error (.noUserCurrency (.erc20 token)) := by
  unfold getBalanceByCurrency UserData.entriesOf
  rw [hinfo, List.head?_filter]
  exact if_neg Currency.noConfusion

/-- A reported balance is legible just when the item that is listed is the one that is answered. -/
theorem legible_iff (hinfo : user.currencies.get? cur = some info) :
    u.data.Legible cur ↔ ∃ item, balanceItem u.data (cur, info) = some item ∧ getBalanceByCurrency user (.ok u) cur = .ok item := by
  cases cur with
  | btc =>
    refine iff_of_true trivial ⟨_, rfl, ?_⟩
    unfold getBalanceByCurrency
    rw [hinfo]
    exact if_pos rfl
  | eth =>
    have hanswer : getBalanceByCurrency user (.ok u) .eth = (parseU64 u.data.balanceEth).elim .panicked fun v =>
        .ok { currency := .eth, value := v, limitInfo := info.limitInfo } := by
      unfold getBalanceByCurrency
      rw [hinfo]
      exact if_neg Currency.noConfusion
    rw [hanswer, balanceItem, listedValue, UserData.Legible]
    cases parseU64 u.data.balanceEth with
    | none =>
      constructor
      · rintro ⟨_, hv⟩
        cases hv
      · rintro ⟨_, hitem, -⟩
        cases hitem
    | some v => exact iff_of_true ⟨v, rfl⟩ ⟨_, rfl, rfl⟩
  | erc20 token =>
    rw [getBalanceByCurrency_erc20 hinfo, balanceItem, listedValue_erc20, UserData.Legible]
    cases hfirst : (u.data.entriesOf token).head? with
    | none =>
      constructor
      · rintro ⟨_, _, _, hf, -⟩
        cases hf
      · rintro ⟨_, -, hitem⟩
        cases hitem
    | some first =>
      have hne : u.data.entriesOf token ≠ [] := fun hnil => by rw [hnil] at hfirst; cases hfirst
      rw [List.getLast?_eq_some_getLast hne]
      dsimp only [Option.map_some, Option.getD_some]
      cases hparse : parseU64 first.tokenBalance with
      | none =>
        constructor
        · rintro ⟨_, _, v, hf, -, hv, -⟩
          cases hf
          rw [hparse] at hv
          cases hv
        · rintro ⟨_, -, hitem⟩
          cases hitem
      | some v =>
        constructor
        · rintro ⟨_, _, _, hf, hl, hv, hsame⟩
          cases hf
          cases hl
          rw [hparse] at hv
          cases hv
          exact ⟨_, rfl, congrArg (fun v => Answer.ok (BalanceItem.mk _ v _)) hsame.symm⟩
        · rintro ⟨item, hitem, hanswer⟩
          refine ⟨first, _, v, rfl, rfl, hparse, ?_⟩
          have hsame := (Option.some.inj hitem).trans (Answer.ok.inj hanswer).symm
          exact congrArg BalanceItem.value hsame

/-! ## All of them -/

theorem getBalance_eq (user : UserInfo) (u : UserEth) (order : IterOrder Currency) : getBalance user (.ok u) order =
    ((user.currencies.iter order).mapM (balanceItem u.data)).elim .panicked fun balances =>
      .ok (balances.mergeSort fun b1 b2 => b1.currency.le b2.currency) := by
  unfold getBalance
  dsimp only
  cases (user.currencies.iter order).mapM (balanceItem u.data) <;> rfl

theorem balanceItem_currency {e : Currency × UserCurrencyInfo} {item : BalanceItem} (h : balanceItem u.data e = some item) :
    item.currency = e.1 := by
  obtain ⟨v, -, rfl⟩ := Option.map_eq_some_iff.mp h
  rfl

/-- The items of a list of balances are those of the user's accounts, one for each. -/
theorem getBalance_items {balances : List BalanceItem} (h : getBalance user (.ok u) order = .ok balances) :
    (balances.map (·.currency)).Nodup ∧
      ∀ item, item ∈ balances ↔ ∃ cur info, user.currencies.get? cur = some info ∧ balanceItem u.data (cur, info) = some item := by
  rw [getBalance_eq] at h
  cases hitems : (user.currencies.iter order).mapM (balanceItem u.data) with
  | none =>
    rw [hitems] at h
    cases h
  | some items =>
    rw [hitems] at h
    obtain rfl := Answer.ok.inj h
    have hperm := items.mergeSort_perm fun b1 b2 => b1.currency.le b2.currency
    constructor
    · have hkeys : items.map (·.currency) = (user.currencies.iter order).map (·.1) :=
        map_of_mapM hitems fun e item hitem => balanceItem_currency hitem
      rw [(hperm.map _).nodup_iff, hkeys]
      exact user.currencies.iter_keys_nodup order
    · intro item
      rw [hperm.mem_iff, mem_of_mapM hitems]
      constructor
      · rintro ⟨⟨cur, info⟩, he, hitem⟩
        exact ⟨cur, info, AssocMap.mem_iter_iff.mp he, hitem⟩
      · rintro ⟨cur, info, hinfo, hitem⟩
        exact ⟨(cur, info), AssocMap.mem_iter_iff.mpr hinfo, hitem⟩

/-- All balances are listed when each of them can be. -/
theorem getBalance_ok (h : ∀ cur info, user.currencies.get? cur = some info → ∃ item, balanceItem u.data (cur, info) = some item) :
    ∃ balances, getBalance user (.ok u) order = .ok balances := by
  have hall : ∀ e ∈ user.currencies.iter order, ∃ item, balanceItem u.data e = some item :=
    fun e he => h e.1 e.2 (AssocMap.mem_iter_iff.mp he)
  obtain ⟨items, hitems⟩ := mapM_isSome_iff.mpr hall
  exact ⟨_, by rw [getBalance_eq, hitems]; rfl⟩

/-- An answer that is legible for every currency is read alike by the two handlers. -/
theorem agreeOn_of_legible (h : user.Readable (.ok u)) (hinfo : user.currencies.get? cur = some info) :
    AgreeOn user (.ok u) order cur := by
  have hlegible : ∀ cur info, user.currencies.get? cur = some info →
      ∃ item, balanceItem u.data (cur, info) = some item ∧ getBalanceByCurrency user (.ok u) cur = .ok item :=
    fun cur info hinfo => (legible_iff hinfo).mp (h cur info hinfo)
  obtain ⟨balances, hbalances⟩ : ∃ balances, getBalance user (.ok u) order = .ok balances := getBalance_ok fun cur info hinfo =>
    let ⟨item, hitem, _⟩ := hlegible cur info hinfo
    ⟨item, hitem⟩
  obtain ⟨item, hitem, hanswer⟩ := hlegible cur info hinfo
  obtain ⟨hnodup, hmem⟩ := getBalance_items hbalances
  have hcur : item.currency = cur := balanceItem_currency hitem
  refine ⟨by rw [hbalances]; nofun, by rw [hanswer]; nofun, ?_, fun balances' hbalances' => ?_⟩
  · rw [hbalances, hanswer]
    exact iff_of_false nofun nofun
  · obtain rfl := Answer.ok.inj (hbalances.symm.trans hbalances')
    refine ⟨item, ?_, hanswer⟩
    rw [← hcur]
    exact filter_key_eq_singleton hnodup ((hmem item).mpr ⟨cur, info, hinfo, hitem⟩)

/-- Without an answer both handlers fail on a currency, unless it is BTC. -/
theorem agreeOn_error_iff (e : String) (hinfo : user.currencies.get? cur = some info) :
    AgreeOn user (.error e) order cur ↔ cur ≠ .btc := by
  have hall : getBalance user (.error e) order = .error (.failedEthConnection e) := rfl
  constructor
  · rintro h rfl
    obtain ⟨e', he'⟩ := h.fails.mp ⟨_, hall⟩
    unfold getBalanceByCurrency at he'
    rw [hinfo] at he'
    exact absurd ((if_pos rfl).symm.trans he') nofun
  · intro hne
    have hsingle : getBalanceByCurrency user (.error e) cur = .error (.failedEthConnection e) := by
      unfold getBalanceByCurrency
      rw [hinfo]
      exact if_neg hne
    refine ⟨by rw [hall]; nofun, by rw [hsingle]; nofun, ?_, by rw [hall]; nofun⟩
    rw [hall, hsingle]
    exact iff_of_true ⟨_, rfl⟩ ⟨_, rfl⟩

/-- Handlers that agree on all currencies read the answer alike. -/
theorem readable_of_agreeOn (h : ∀ cur info, user.currencies.get? cur = some info → AgreeOn user (.ok u) order cur) :
    user.Readable (.ok u) := by
  intro cur info hinfo
  have hagree := h cur info hinfo
  cases hbalances : getBalance user (.ok u) order with
  | panicked => exact absurd hbalances hagree.all
  | error e =>
    rw [getBalance_eq] at hbalances
    cases hitems : (user.currencies.iter order).mapM (balanceItem u.data) <;> rw [hitems] at hbalances <;> cases hbalances
  | ok balances =>
    obtain ⟨item, hlisted, hanswer⟩ := hagree.same balances hbalances
    obtain ⟨hitem, hcur⟩ := List.mem_filter.mp (hlisted ▸ List.mem_singleton_self item)
    obtain ⟨cur', info', hinfo', hitem'⟩ := ((getBalance_items hbalances).2 item).mp hitem
    obtain rfl : cur' = cur := (balanceItem_currency hitem').symm.trans (of_decide_eq_true hcur)
    obtain rfl := Option.some.inj (hinfo'.symm.trans hinfo)
    exact (legible_iff hinfo).mpr ⟨_, hitem', hanswer⟩

/-- Whatever the ETH module answers, the two handlers agree on every currency of the user just when they can read the answer alike. -/
theorem balances_agree_iff (user : UserInfo) (userData : Except String UserEth) (order : IterOrder Currency) :
    (∀ cur info, user.currencies.get? cur = some info → AgreeOn user userData order cur) ↔ user.Readable userData := by
  cases userData with
  | error e =>
    constructor
    · intro h
      refine Option.eq_none_iff_forall_ne_some.mpr fun info hinfo => ?_
      exact (agreeOn_error_iff e hinfo).mp (h .btc info hinfo) rfl
    · intro h cur info hinfo
      refine (agreeOn_error_iff e hinfo).mpr ?_
      rintro rfl
      rw [UserInfo.Readable, hinfo] at h
      cases h
  | ok u => exact ⟨readable_of_agreeOn, fun h cur info hinfo => agreeOn_of_legible h hinfo⟩

namespace Sample

/-- A user who has just signed up, and the row that is inserted for the user. -/
def newcomer : UserInfo := UserInfo.new "alice" ⟨⟨0⟩⟩ (.password "") ⟨0⟩

def freshRow : UserEth where
  login := "alice"
  address := "0x01"
  data := { tokens := [], historyEth := [], historyTokens := [], balanceEth := "0", balanceTokens := [] }

end Sample

open Sample in
/-- A new user has the token USDT, of which the ETH module reports nothing before it has polled. -/
theorem balances_disagree : ¬∀ (user : UserInfo) (u : UserEth) (order : IterOrder Currency) (cur : Currency) (info : UserCurrencyInfo),
    user.currencies.get? cur = some info → AgreeOn user (.ok u) order cur := by
  intro hall
  have hinfo : newcomer.currencies.get? Currency.usdtErc20 = some (UserCurrencyInfo.new Currency.usdtErc20) := rfl
  have hreadable := readable_of_agreeOn (hall newcomer freshRow .stored)
  obtain ⟨first, -, -, hfirst, -⟩ := hreadable _ _ hinfo
  cases hfirst

end Hexstody
