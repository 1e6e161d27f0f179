import Hexstody.EthBalances
import Mathlib.Algebra.Order.Ring.Nat

/-!
# The totals of the hot wallet

Whether the totals that the ETH module answers are the sums of the balances of its users. A balance is read as a number of 64 bits,
and so is the sum: a balance in wei does not fit from 18.4 ETH on. `totals_exact_iff` says that this is all that goes wrong: the total
in ETH is exact just when it is below 2^64, and the totals of the tokens, each name once, just when each of them is.
-/

namespace Hexstody

/-- The number that a balance stands for. -/
def amountOf (s : String) : Nat := (decimal? s.toList).getD 0

/-- The sum of the balances under a name. -/
def tokenSum (ts : List Erc20TokenBalance) (name : String) : Nat :=
  ((ts.filter fun t => t.tokenName = name).map fun t => amountOf t.tokenBalance).sum

namespace EthModule

/-- The sum of all users' balances in ETH. -/
def ethSum (m : EthModule) : Nat := (m.rows.values.map fun u => amountOf u.data.balanceEth).sum

/-- The balances of tokens of all users. -/
def tokenBalances (m : EthModule) : List Erc20TokenBalance := m.rows.values.flatMap (·.data.balanceTokens)

/-- The balances are what the explorer reports: decimal texts of numbers below 2^256. -/
structure Reported (m : EthModule) : Prop where
  eth : ∀ u ∈ m.rows.values, ∃ n < 2 ^ 256, IsDecimal u.data.balanceEth n
  tokens : ∀ t ∈ m.tokenBalances, ∃ n < 2 ^ 256, IsDecimal t.tokenBalance n

/-- The total in ETH is answered, and is the sum. -/
def EthTotalExact (m : EthModule) (order : IterOrder String) : Prop :=
  ∃ res, m.balanceEthTotal order = some res ∧ res.balance.toNat = m.ethSum

/-- The totals of the tokens are answered: each name that there is once, with its sum. -/
def TokenTotalsExact (m : EthModule) (order : IterOrder String) : Prop :=
  ∃ res, m.balanceErc20Total order = some res ∧ (res.balance.map (·.tokenName)).Nodup ∧
    (∀ name, name ∈ res.balance.map (·.tokenName) ↔ ∃ t ∈ m.tokenBalances, t.tokenName = name) ∧
    ∀ t ∈ res.balance, t.tokenBalance.toNat = tokenSum m.tokenBalances t.tokenName

/-! ## Reading a balance -/

theorem amountOf_eq {s : String} {n : Nat} (h : IsDecimal s n) : amountOf s = n := by
  have hdec : decimal? s.toList = some n := h
  rw [amountOf, hdec, Option.getD_some]

/-- A decimal text is read just when its number fits, and as that number. -/
theorem parseU64_amountOf {s : String} (h : ∃ n, IsDecimal s n) :
    parseU64 s = if amountOf s < UInt64.size then some (UInt64.ofNat (amountOf s)) else none := by
  obtain ⟨n, hn⟩ := h
  rw [amountOf_eq hn, parseU64_of_decimal hn]

theorem toNat_add_ofNat (a : UInt64) (n : Nat) : (a + UInt64.ofNat n).toNat = (a.toNat + n) % UInt64.size := by
  rw [UInt64.toNat_add, UInt64.toNat_ofNat']
  exact Nat.add_mod_mod _ _ _

/-! ## The total in ETH -/

/-- The loop adds up what it reads, modulo 2^64; and reads everything just when everything fits. -/
theorem addBalances_eq (bals : List String) (total : UInt64) (h : ∀ b ∈ bals, ∃ n, IsDecimal b n) :
    (∀ res, addBalances total bals = some res → res.toNat = (total.toNat + (bals.map amountOf).sum) % UInt64.size) ∧
      ((∃ res, addBalances total bals = some res) ↔ ∀ b ∈ bals, amountOf b < UInt64.size) := by
  induction bals generalizing total with
  | nil =>
    refine ⟨fun res hres => ?_, iff_of_true ⟨total, rfl⟩ (List.forall_mem_nil _)⟩
    obtain rfl := Option.some.inj hres
    exact (Nat.mod_eq_of_lt total.toNat_lt).symm
  | cons bal bals ih =>
    have hread := parseU64_amountOf (h bal List.mem_cons_self)
    obtain ⟨hsum, hall⟩ := ih (total + UInt64.ofNat (amountOf bal)) (fun b hb => h b (List.mem_cons_of_mem _ hb))
    rw [List.forall_mem_cons]
    by_cases hfits : amountOf bal < UInt64.size
    · rw [if_pos hfits] at hread
      simp only [addBalances, hread, Option.bind_some]
      refine ⟨fun res hres => ?_, hall.trans (and_iff_right hfits).symm⟩
      rw [hsum res hres, toNat_add_ofNat, List.map_cons, List.sum_cons, Nat.mod_add_mod, Nat.add_assoc]
    · rw [if_neg hfits] at hread
      simp only [addBalances, hread, Option.bind_none]
      refine ⟨nofun, iff_of_false ?_ (fun hn => hfits hn.1)⟩
      rintro ⟨_, hn⟩
      cases hn

theorem ethTotalExact_iff {m : EthModule} (order : IterOrder String) (h : m.Reported) :
    m.EthTotalExact order ↔ m.ethSum < UInt64.size := by
  have hperm := (m.rows.iter_values_perm order).map (fun u : UserRow => amountOf u.data.balanceEth)
  have hsum : ((m.pgQueryTotalEth order).map amountOf).sum = m.ethSum := by
    rw [ethSum, ← hperm.sum_eq, pgQueryTotalEth, List.map_map, List.map_map]
    rfl
  have hdec : ∀ b ∈ m.pgQueryTotalEth order, ∃ n, IsDecimal b n := by
    intro b hb
    obtain ⟨e, he, rfl⟩ := List.mem_map.mp hb
    obtain ⟨n, -, hn⟩ := h.eth e.2 ((m.rows.iter_values_perm order).mem_iff.mp (List.mem_map_of_mem he))
    exact ⟨n, hn⟩
  obtain ⟨htotal, hall⟩ := addBalances_eq (m.pgQueryTotalEth order) 0 hdec
  rw [hsum, UInt64.toNat_zero, Nat.zero_add] at htotal
  constructor
  · rintro ⟨res, -, hres⟩
    exact hres ▸ res.balance.toNat_lt
  · intro hlt
    obtain ⟨total, hres⟩ := hall.mpr fun b hb => by
      refine lt_of_le_of_lt ?_ (hsum.trans_lt hlt)
      exact List.single_le_sum (fun _ _ => Nat.zero_le _) _ (List.mem_map_of_mem hb)
    refine ⟨{ balance := total }, by rw [balanceEthTotal, hres]; rfl, ?_⟩
    exact (htotal total hres).trans (Nat.mod_eq_of_lt hlt)

/-! ## The totals of the tokens -/

/-- The entries are those of some balances: each name once, with its sum modulo 2^64. -/
structure Tallies (ts : List Erc20TokenBalance) (total : List Erc20TokenBalanceU64) : Prop where
  nodup : (total.map (·.tokenName)).Nodup
  names : ∀ name, name ∈ total.map (·.tokenName) ↔ ∃ t ∈ ts, t.tokenName = name
  sums : ∀ t ∈ total, t.tokenBalance.toNat = tokenSum ts t.tokenName % UInt64.size

theorem tokenSum_append (ts : List Erc20TokenBalance) (t : Erc20TokenBalance) (name : String) :
    tokenSum (ts ++ [t]) name = tokenSum ts name + if t.tokenName = name then amountOf t.tokenBalance else 0 := by
  unfold tokenSum
  rw [List.filter_append, List.map_append, List.sum_append]
  by_cases h : t.tokenName = name <;> simp [h]

/-- Nothing is counted under a name that does not occur. -/
theorem tokenSum_eq_zero {ts : List Erc20TokenBalance} {name : String} (h : ¬∃ t ∈ ts, t.tokenName = name) : tokenSum ts name = 0 := by
  have hnone : ts.filter (fun t => t.tokenName = name) = [] :=
    List.filter_eq_nil_iff.mpr fun t ht => by simpa using fun hname => h ⟨t, ht, hname⟩
  rw [tokenSum, hnone]
  rfl

theorem occurs_append (ts : List Erc20TokenBalance) (tkn : Erc20TokenBalance) (name : String) :
    (∃ t ∈ ts ++ [tkn], t.tokenName = name) ↔ (∃ t ∈ ts, t.tokenName = name) ∨ tkn.tokenName = name := by
  simp [or_and_right, exists_or]

/-- A name that has an entry: the amount is added there, and the others stay. -/
theorem Tallies.raise {ts : List Erc20TokenBalance} {total : List Erc20TokenBalanceU64} {tkn : Erc20TokenBalance}
    (h : Tallies ts total) (hany : tkn.tokenName ∈ total.map (·.tokenName)) :
    Tallies (ts ++ [tkn]) (total.map fun t => if tkn.tokenName = t.tokenName
      then { t with tokenBalance := t.tokenBalance + UInt64.ofNat (amountOf tkn.tokenBalance) } else t) := by
  have hkeep : (total.map fun t => if tkn.tokenName = t.tokenName
      then { t with tokenBalance := t.tokenBalance + UInt64.ofNat (amountOf tkn.tokenBalance) } else t).map (·.tokenName) =
      total.map (·.tokenName) := by
    rw [List.map_map]
    refine List.map_congr_left fun t _ => ?_
    rw [Function.comp_apply]
    split <;> rfl
  refine ⟨hkeep ▸ h.nodup, fun name => ?_, fun t ht => ?_⟩
  · rw [hkeep, occurs_append, h.names]
    refine (or_iff_left_of_imp ?_).symm
    rintro rfl
    exact (h.names _).mp hany
  · obtain ⟨t₀, ht₀, rfl⟩ := List.mem_map.mp ht
    rw [tokenSum_append]
    by_cases hname : tkn.tokenName = t₀.tokenName
    · simp only [if_pos hname]
      rw [toNat_add_ofNat, h.sums t₀ ht₀, Nat.mod_add_mod]
    · simp only [if_neg hname]
      rw [h.sums t₀ ht₀, Nat.add_zero]

/-- A name that is new: it gets an entry of its own. -/
theorem Tallies.enter {ts : List Erc20TokenBalance} {total : List Erc20TokenBalanceU64} {tkn : Erc20TokenBalance}
    (h : Tallies ts total) (hnew : tkn.tokenName ∉ total.map (·.tokenName)) :
    Tallies (ts ++ [tkn])
      (total ++ [{ tokenName := tkn.tokenName, tokenBalance := UInt64.ofNat (amountOf tkn.tokenBalance) }]) := by
  refine ⟨?_, fun name => ?_, fun t ht => ?_⟩
  · rw [List.map_append]
    exact h.nodup.append (List.nodup_singleton _) (List.disjoint_singleton.mpr hnew)
  · rw [List.map_append, List.mem_append, h.names, occurs_append]
    exact or_congr Iff.rfl (List.mem_singleton.trans eq_comm)
  · rw [tokenSum_append]
    rcases List.mem_append.mp ht with ht | ht
    · have hname : tkn.tokenName ≠ t.tokenName := fun hname => hnew (List.mem_map.mpr ⟨t, ht, hname.symm⟩)
      rw [h.sums t ht, if_neg hname, Nat.add_zero]
    · obtain rfl := List.mem_singleton.mp ht
      rw [tokenSum_eq_zero fun hex => hnew ((h.names _).mpr hex), if_pos rfl, Nat.zero_add, UInt64.toNat_ofNat']

/-- (step) -/
theorem Tallies.addToken {ts : List Erc20TokenBalance} {total total' : List Erc20TokenBalanceU64} {tkn : Erc20TokenBalance}
    (h : Tallies ts total) (hdec : ∃ n, IsDecimal tkn.tokenBalance n) (hadd : addToken total tkn = some total') :
    Tallies (ts ++ [tkn]) total' := by
  unfold EthModule.addToken at hadd
  rw [parseU64_amountOf hdec] at hadd
  by_cases hfits : amountOf tkn.tokenBalance < UInt64.size
  · rw [if_pos hfits, Option.map_some] at hadd
    by_cases hany : total.any (fun t => tkn.tokenName == t.tokenName) = true
    · rw [if_pos hany] at hadd
      obtain rfl := Option.some.inj hadd
      obtain ⟨t, ht, hname⟩ := List.any_eq_true.mp hany
      exact h.raise (List.mem_map.mpr ⟨t, ht, (eq_of_beq hname).symm⟩)
    · rw [if_neg hany] at hadd
      obtain rfl := Option.some.inj hadd
      refine h.enter fun hm => hany ?_
      obtain ⟨t, ht, hname⟩ := List.mem_map.mp hm
      exact List.any_eq_true.mpr ⟨t, ht, beq_iff_eq.mpr hname.symm⟩
  · rw [if_neg hfits] at hadd
    cases hadd

/-- (run) The loop keeps the tallies, and reads everything just when everything fits. -/
theorem Tallies.addTokens {ts : List Erc20TokenBalance} {total : List Erc20TokenBalanceU64} (h : Tallies ts total)
    (more : List Erc20TokenBalance) (hdec : ∀ t ∈ more, ∃ n, IsDecimal t.tokenBalance n) :
    (∀ res, addTokens total more = some res → Tallies (ts ++ more) res) ∧
      ((∃ res, addTokens total more = some res) ↔ ∀ t ∈ more, amountOf t.tokenBalance < UInt64.size) := by
  induction more generalizing ts total with
  | nil =>
    refine ⟨fun res hres => ?_, iff_of_true ⟨total, rfl⟩ (List.forall_mem_nil _)⟩
    obtain rfl := Option.some.inj hres
    rwa [List.append_nil]
  | cons tkn more ih =>
    have hread := parseU64_amountOf (hdec tkn List.mem_cons_self)
    rw [List.forall_mem_cons, EthModule.addTokens]
    by_cases hfits : amountOf tkn.tokenBalance < UInt64.size
    · obtain ⟨total', hadd⟩ : ∃ total', EthModule.addToken total tkn = some total' := by
        unfold EthModule.addToken
        rw [hread, if_pos hfits]
        exact ⟨_, rfl⟩
      obtain ⟨htally, hall⟩ := ih (h.addToken (hdec tkn List.mem_cons_self) hadd) (fun t ht => hdec t (List.mem_cons_of_mem _ ht))
      rw [hadd, Option.bind_some]
      refine ⟨fun res hres => ?_, hall.trans (and_iff_right hfits).symm⟩
      have hres' := htally res hres
      rwa [List.append_assoc, List.singleton_append] at hres'
    · have hadd : EthModule.addToken total tkn = none := by
        unfold EthModule.addToken
        rw [hread, if_neg hfits]
        rfl
      rw [hadd, Option.bind_none]
      refine ⟨nofun, iff_of_false ?_ (fun hn => hfits hn.1)⟩
      rintro ⟨_, hn⟩
      cases hn

/-- The two loops are one over all the balances. -/
theorem addTokens_append (total : List Erc20TokenBalanceU64) (xs ys : List Erc20TokenBalance) :
    addTokens total (xs ++ ys) = (addTokens total xs).bind fun total' => addTokens total' ys := by
  induction xs generalizing total with
  | nil => rfl
  | cons x xs ih =>
    rw [List.cons_append, addTokens, addTokens]
    cases addToken total x with
    | none => rfl
    | some total' => exact ih total'

theorem addAllTokens_eq (total : List Erc20TokenBalanceU64) (bals : List (List Erc20TokenBalance)) :
    addAllTokens total bals = addTokens total bals.flatten := by
  induction bals generalizing total with
  | nil => rfl
  | cons bal bals ih =>
    rw [List.flatten_cons, addTokens_append, addAllTokens]
    exact congrArg _ (funext fun total' => ih total')

theorem perm_tokenBalances (m : EthModule) (order : IterOrder String) :
    (m.pgQueryTotalTokens order).flatten.Perm m.tokenBalances := by
  have hperm := (m.rows.iter_values_perm order).flatMap_right (fun u : UserRow => u.data.balanceTokens)
  refine (List.Perm.of_eq ?_).trans hperm
  rw [pgQueryTotalTokens, ← List.flatMap_def, List.flatMap_map]

theorem tokenSum_perm {ts ts' : List Erc20TokenBalance} (h : ts.Perm ts') (name : String) : tokenSum ts name = tokenSum ts' name :=
  ((h.filter _).map _).sum_eq

theorem amountOf_le_tokenSum {ts : List Erc20TokenBalance} {t : Erc20TokenBalance} (ht : t ∈ ts) :
    amountOf t.tokenBalance ≤ tokenSum ts t.tokenName := by
  refine List.single_le_sum (fun _ _ => Nat.zero_le _) _ (List.mem_map_of_mem ?_)
  exact List.mem_filter.mpr ⟨ht, decide_eq_true rfl⟩

theorem tokenTotalsExact_iff {m : EthModule} (order : IterOrder String) (h : m.Reported) :
    m.TokenTotalsExact order ↔ ∀ name, tokenSum m.tokenBalances name < UInt64.size := by
  have hperm := m.perm_tokenBalances order
  have hdec : ∀ t ∈ (m.pgQueryTotalTokens order).flatten, ∃ n, IsDecimal t.tokenBalance n := by
    intro t ht
    obtain ⟨n, -, hn⟩ := h.tokens t (hperm.mem_iff.mp ht)
    exact ⟨n, hn⟩
  have hempty : Tallies [] [] := ⟨List.nodup_nil, fun name => by simp, List.forall_mem_nil _⟩
  obtain ⟨htally, hall⟩ := hempty.addTokens _ hdec
  constructor
  · rintro ⟨res, -, -, hnames, hsums⟩ name
    by_cases hoccurs : ∃ t ∈ m.tokenBalances, t.tokenName = name
    · obtain ⟨t, ht, rfl⟩ := List.mem_map.mp ((hnames name).mpr hoccurs)
      exact hsums t ht ▸ t.tokenBalance.toNat_lt
    · rw [tokenSum_eq_zero hoccurs]
      decide
  · intro hlt
    obtain ⟨total, hres⟩ := hall.mpr fun t ht => (amountOf_le_tokenSum (hperm.mem_iff.mp ht)).trans_lt (hlt _)
    have htotal := htally total hres
    rw [List.nil_append] at htotal
    refine ⟨{ balance := total }, by rw [balanceErc20Total, addAllTokens_eq, hres]; rfl, htotal.nodup, fun name => ?_,
      fun t ht => ?_⟩
    · rw [htotal.names]
      simp only [hperm.mem_iff]
    · rw [htotal.sums t ht, tokenSum_perm hperm]
      exact Nat.mod_eq_of_lt (hlt _)

/-- Whatever is in the table, the total in ETH is exact just when it is below 2^64, and so are the totals of the tokens. -/
theorem totals_exact_iff (m : EthModule) (order : IterOrder String) (h : m.Reported) :
    (m.EthTotalExact order ↔ m.ethSum < UInt64.size) ∧
      (m.TokenTotalsExact order ↔ ∀ name, tokenSum m.tokenBalances name < UInt64.size) :=
  ⟨ethTotalExact_iff order h, tokenTotalsExact_iff order h⟩

end EthModule

namespace Sample

/-- A user of the ETH module with a balance in wei, and one of a token. -/
def ethRow (wei units : String) : UserRow where
  address := "0x01"
  data := { tokens := [], historyEth := [], historyTokens := [], balanceEth := wei,
            balanceTokens := [{ tokenName := "USDT", tokenBalance := units }] }

def ethTable (rows : List (String × UserRow)) : EthModule :=
  { rows := AssocMap.ofList rows, poller := .idle, posted := AssocMap.empty }

def twoBalances : EthModule := ethTable [("alice", ethRow "5" "7"), ("bob", ethRow "6" "8")]

def whale : EthModule := ethTable [("alice", ethRow "20000000000000000000" "1")]

theorem values_twoBalances : twoBalances.rows.values = [ethRow "6" "8", ethRow "5" "7"] := by decide

theorem values_whale : whale.rows.values = [ethRow "20000000000000000000" "1"] := by decide

theorem reported_ethRow {m : EthModule}
    (h : ∀ u ∈ m.rows.values, ∃ wei < 2 ^ 256, ∃ units < 2 ^ 256, u = ethRow (toString wei) (toString units)) : m.Reported := by
  constructor
  · intro u hu
    obtain ⟨wei, hwei, units, -, rfl⟩ := h u hu
    exact ⟨wei, hwei, isDecimal_toString wei⟩
  · intro t ht
    obtain ⟨u, hu, htu⟩ := List.mem_flatMap.mp ht
    obtain ⟨wei, -, units, hunits, rfl⟩ := h u hu
    obtain rfl := List.mem_singleton.mp htu
    exact ⟨units, hunits, isDecimal_toString units⟩

theorem reported_twoBalances : twoBalances.Reported := by
  refine reported_ethRow fun u hu => ?_
  rw [values_twoBalances, List.mem_cons, List.mem_singleton] at hu
  rcases hu with rfl | rfl
  · exact ⟨6, by decide, 8, by decide, by decide⟩
  · exact ⟨5, by decide, 7, by decide, by decide⟩

theorem reported_whale : whale.Reported := by
  refine reported_ethRow fun u hu => ?_
  rw [values_whale, List.mem_singleton] at hu
  exact ⟨20000000000000000000, by decide, 1, by decide, hu.trans (by decide)⟩

theorem ethSum_twoBalances : twoBalances.ethSum = 11 := by
  rw [EthModule.ethSum, values_twoBalances]
  decide

theorem tokenSum_twoBalances (name : String) : tokenSum twoBalances.tokenBalances name ≤ 15 := by
  have hall : tokenSum twoBalances.tokenBalances name ≤ (twoBalances.tokenBalances.map fun t => amountOf t.tokenBalance).sum :=
    (List.filter_sublist.map _).sum_le_sum fun _ _ => Nat.zero_le _
  refine hall.trans ?_
  rw [EthModule.tokenBalances, values_twoBalances]
  decide

theorem ethSum_whale : whale.ethSum = 20000000000000000000 := by
  rw [EthModule.ethSum, values_whale]
  decide

end Sample

open Sample in
/-- The totals of two users. -/
theorem EthModule.totals_exact_two : twoBalances.EthTotalExact .stored ∧ twoBalances.TokenTotalsExact .stored := by
  obtain ⟨heth, htokens⟩ := EthModule.totals_exact_iff twoBalances .stored reported_twoBalances
  refine ⟨heth.mpr ?_, htokens.mpr fun name => (tokenSum_twoBalances name).trans_lt (by decide)⟩
  rw [ethSum_twoBalances]
  decide

open Sample in
/-- A user with twenty ETH has more wei than 64 bits hold. -/
theorem EthModule.totals_not_exact : ¬∀ (m : EthModule) (order : IterOrder String),
    m.Reported → m.EthTotalExact order ∧ m.TokenTotalsExact order := by
  intro hall
  have hlt := (EthModule.ethTotalExact_iff .stored reported_whale).mp (hall whale .stored reported_whale).1
  rw [ethSum_whale] at hlt
  exact absurd hlt (by decide)

end Hexstody
