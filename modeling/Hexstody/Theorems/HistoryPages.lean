import Hexstody.HistoryPage
import Hexstody.Library.Lists

/-!
# The pages of the history

Whether the history can be paged through. Its items are sorted, so that nothing depends on the order in which they are found but the
order of items of one time, and the pages of one list compose. But an item that cannot be made ends the handler: a deposit in ether, or
an entry of the ETH module that names another currency than the four that are known, or has no time. `history_served_iff` says that this
is all that goes wrong.
-/

namespace Hexstody

open Handlers

/-- The item that each part of the history is to become: every deposit that is not conflicted, every withdrawal that matches, every entry
of the ETH module. -/
def historyItems (env : HistoryEnv) (user : UserInfo) (data : UserData) (filter : WithdrawalFilter) : List (Option HistoryItem) :=
  user.currencies.toList.flatMap (fun e =>
    (e.2.withdrawalRequests.values.filter (·.matchesFilter filter)).map (fun w => some (toWithdrawalHistoryItem e.1 w)) ++
      e.2.unconfirmedTransactions.map toDepositHistoryItem) ++ (ethEntries data).map (toEthHistory env)

/-- The history of a filter is a list that has each item once, from the latest to the earliest; every page is a part of it, and the pages
of any size compose to it. -/
structure Served (env : HistoryEnv) (user : UserInfo) (u : UserEth) (order : IterOrder Currency)
    (reqOrder : IterOrder WithdrawalRequestId) (filter : Option WithdrawalFilter) (full : List HistoryItem) : Prop where
  page : ∀ skip take, getHistory env user (.ok u) order reqOrder skip take filter =
    some { targetNumberOfConfirmations := REQUIRED_NUMBER_OF_CONFIRMATIONS, historyItems := (full.drop skip).take take }
  once : (full.map some).Perm (historyItems env user u.data (filter.getD .all))
  latestFirst : full.Pairwise fun a b => (historyItemTime b).nanos ≤ (historyItemTime a).nanos
  pages : ∀ n k, 1 ≤ n → full.length ≤ k * n →
    ((List.range k).mapM fun i => (getHistory env user (.ok u) order reqOrder (i * n) n filter).map (·.historyItems)).map List.flatten =
      some full

/-- An entry of the ETH module is of a known currency, and has a time. -/
def Dated (env : HistoryEnv) (h : Erc20HistUnitU) : Prop :=
  (∃ c, Currency.fromStr h.tokenName = some c) ∧ ∃ secs t, parseI64 h.timeStamp = some secs ∧ env.fromTimestamp secs = some t

/-- No deposit in ether stands, and every entry of the ETH module can be shown. -/
structure Showable (env : HistoryEnv) (user : UserInfo) (data : UserData) : Prop where
  deposits : ∀ c i, user.currencies.get? c = some i → ∀ tx, .eth tx ∈ i.transactions → (Transaction.eth tx).isConflicted = true
  entries : ∀ h ∈ ethEntries data, Dated env h

variable {env : HistoryEnv} {user : UserInfo} {u : UserEth} {data : UserData} {order : IterOrder Currency}
  {reqOrder : IterOrder WithdrawalRequestId}

/-! ## The items -/

theorem toDepositHistoryItem_isSome_iff {t : Transaction} : (∃ item, toDepositHistoryItem t = some item) ↔ ∀ tx, t ≠ .eth tx := by
  cases t with
  | btc tx => exact iff_of_true ⟨_, rfl⟩ nofun
  | eth tx => exact iff_of_false (fun ⟨_, h⟩ => nomatch h) (fun h => h tx rfl)

theorem toEthHistory_isSome_iff {h : Erc20HistUnitU} : (∃ item, toEthHistory env h = some item) ↔ Dated env h := by
  unfold toEthHistory Dated
  constructor
  · rintro ⟨item, hitem⟩
    obtain ⟨c, hc, hitem⟩ := Option.bind_eq_some_iff.mp hitem
    obtain ⟨t, ht, -⟩ := Option.map_eq_some_iff.mp hitem
    obtain ⟨secs, hsecs, ht⟩ := Option.bind_eq_some_iff.mp ht
    exact ⟨⟨c, hc⟩, secs, t, hsecs, ht⟩
  · rintro ⟨⟨c, hc⟩, secs, t, hsecs, ht⟩
    rw [hc, hsecs, Option.bind_some, Option.bind_some, ht]
    exact ⟨_, rfl⟩

/-- Every item can be made just when the history can be shown; no filter leaves out one that cannot. -/
theorem historyItems_isSome_iff (filter : WithdrawalFilter) :
    (∀ x ∈ historyItems env user data filter, ∃ item, x = some item) ↔ Showable env user data := by
  constructor
  · intro h
    constructor
    · intro c i hi tx htx
      by_contra hstands
      have hmem : Transaction.eth tx ∈ i.unconfirmedTransactions := by
        refine List.mem_filter.mpr ⟨htx, ?_⟩
        rw [Bool.eq_false_iff.mpr hstands]
        rfl
      obtain ⟨item, hitem⟩ := h _ (List.mem_append_left _ (List.mem_flatMap.mpr
        ⟨(c, i), (AssocMap.mem_toList_iff _ _ _).mpr hi, List.mem_append_right _ (List.mem_map_of_mem hmem)⟩))
      cases hitem
    · intro e he
      exact toEthHistory_isSome_iff.mp (h _ (List.mem_append_right _ (List.mem_map_of_mem he)))
  · rintro ⟨hdeposits, hentries⟩ x hx
    rcases List.mem_append.mp hx with hx | hx
    · obtain ⟨⟨c, i⟩, he, hx⟩ := List.mem_flatMap.mp hx
      rcases List.mem_append.mp hx with hx | hx
      · obtain ⟨w, -, rfl⟩ := List.mem_map.mp hx
        exact ⟨_, rfl⟩
      · obtain ⟨t, ht, rfl⟩ := List.mem_map.mp hx
        obtain ⟨ht, hstands⟩ := List.mem_filter.mp ht
        refine toDepositHistoryItem_isSome_iff.mpr ?_
        rintro tx rfl
        rw [hdeposits c i ((AssocMap.mem_toList_iff _ _ _).mp he) tx ht] at hstands
        cases hstands
    · obtain ⟨e, he, rfl⟩ := List.mem_map.mp hx
      exact toEthHistory_isSome_iff.mpr (hentries e he)

/-- The order in which the hash maps come does not matter to what there is. -/
theorem collected_perm (env : HistoryEnv) (user : UserInfo) (data : UserData) (order : IterOrder Currency)
    (reqOrder : IterOrder WithdrawalRequestId) (filter : WithdrawalFilter) :
    ((user.currencies.iter order).flatMap (accountHistory filter reqOrder) ++ (ethEntries data).map (toEthHistory env)).Perm
      (historyItems env user data filter) := by
  refine List.Perm.append_right _ (((user.currencies.iter_perm order).flatMap_right _).trans (List.Perm.flatMap_left _ fun e _ => ?_))
  exact List.Perm.append_right _ (((e.2.withdrawalRequests.iter_values_perm reqOrder).filter _).map _)

/-! ## The pages -/

/-- The items from the latest to the earliest. -/
theorem sorted_latestFirst (items : List HistoryItem) :
    (items.mergeSort fun a b => (historyItemTime b).nanos ≤ (historyItemTime a).nanos).Pairwise
      fun a b => (historyItemTime b).nanos ≤ (historyItemTime a).nanos := by
  refine (List.pairwise_mergeSort (fun a b c hab hbc => ?_) (fun a b => ?_) items).imp fun h => of_decide_eq_true h
  · rw [decide_eq_true_iff] at hab hbc ⊢
    exact Int.le_trans hbc hab
  · rw [Bool.or_eq_true, decide_eq_true_iff, decide_eq_true_iff]
    exact Int.le_total _ _

/-- Pages of one list compose. -/
theorem pages_of_page {filter : Option WithdrawalFilter} {full : List HistoryItem}
    (h : ∀ skip take, getHistory env user (.ok u) order reqOrder skip take filter =
      some { targetNumberOfConfirmations := REQUIRED_NUMBER_OF_CONFIRMATIONS, historyItems := (full.drop skip).take take })
    (n k : Nat) (hk : full.length ≤ k * n) :
    ((List.range k).mapM fun i => (getHistory env user (.ok u) order reqOrder (i * n) n filter).map (·.historyItems)).map List.flatten =
      some full := by
  have hall : ((List.range k).mapM fun i => (getHistory env user (.ok u) order reqOrder (i * n) n filter).map (·.historyItems)) =
      some ((List.range k).map fun i => (full.drop (i * n)).take n) := by
    rw [mapM_eq_some_iff, List.map_map]
    refine List.map_congr_left fun i _ => ?_
    rw [h]
    rfl
  rw [hall, Option.map_some, ← List.flatMap_def, flatMap_pages, List.take_of_length_le hk]

/-- A page is answered just when all items can be made. -/
theorem getHistory_eq_some {skip take : Nat} {filter : Option WithdrawalFilter} {res : History}
    (h : getHistory env user (.ok u) order reqOrder skip take filter = some res) : Showable env user u.data := by
  obtain ⟨history, hitems, -⟩ := Option.map_eq_some_iff.mp h
  refine (historyItems_isSome_iff (filter.getD .all)).mp fun x hx => ?_
  exact mapM_isSome_iff.mp ⟨history, hitems⟩ x ((collected_perm env user u.data order reqOrder _).mem_iff.mpr hx)

theorem served_of_showable (h : Showable env user u.data) (filter : Option WithdrawalFilter) :
    ∃ full, Served env user u order reqOrder filter full := by
  have hperm := collected_perm env user u.data order reqOrder (filter.getD .all)
  obtain ⟨history, hitems⟩ := mapM_isSome_iff.mpr fun x hx => (historyItems_isSome_iff _).mpr h x (hperm.mem_iff.mp hx)
  have hmap := mapM_eq_some_iff.mp hitems
  rw [List.map_id'] at hmap
  have hpage : ∀ skip take, getHistory env user (.ok u) order reqOrder skip take filter =
      some
        { targetNumberOfConfirmations := REQUIRED_NUMBER_OF_CONFIRMATIONS
          historyItems :=
            ((history.mergeSort fun a b => (historyItemTime b).nanos ≤ (historyItemTime a).nanos).drop skip).take take } :=
    fun skip take => congrArg (Option.map _) hitems
  refine ⟨_, hpage, ?_, sorted_latestFirst history, fun n k _ hk => pages_of_page hpage n k hk⟩
  exact ((List.mergeSort_perm history _).map some).trans (hmap ▸ hperm)

/-- Whatever the user's entry, and whatever the ETH module answers, if it answers, the history can be paged through under every filter
just when all of it can be shown. -/
theorem history_served_iff (env : HistoryEnv) (user : UserInfo) (u : UserEth) (order : IterOrder Currency)
    (reqOrder : IterOrder WithdrawalRequestId) :
    (∀ filter, ∃ full, Served env user u order reqOrder filter full) ↔ Showable env user u.data := by
  constructor
  · intro h
    obtain ⟨full, hserved⟩ := h none
    exact getHistory_eq_some (hserved.page 0 0)
  · exact fun h filter => served_of_showable h filter

namespace Sample

/-- The seconds are a time. -/
def utcEnv : HistoryEnv := { fromTimestamp := fun secs => some ⟨secs * 1000000000⟩, toUppercase := String.toUpper }

/-- A transfer of a token, as the explorer reports it. -/
def transfer (symbol : String) : Erc20HistUnitU where
  blockNumber := "1"
  timeStamp := "1660000000"
  hash := "0xaa"
  from' := "0x02"
  to' := "0x01"
  value := "5"
  tokenName := symbol
  gas := "21000"
  gasPrice := "1"
  contractAddress := "0xdAC17F958D2ee523a2206206994597C13D831ec7"
  confirmations := "12"
  addr := "0x01"

def transferred (symbol : String) : UserEth where
  login := "alice"
  address := "0x01"
  data :=
    { tokens := []
      historyEth := []
      historyTokens := [{ token := { ticker := "USDT", name := "USDT", contract := "0xdAC17F958D2ee523a2206206994597C13D831ec7" }
                          history := [transfer symbol] }]
      balanceEth := "0"
      balanceTokens := [] }

end Sample

open Sample in
/-- The explorer reports the symbol USDT, which is none of the known names. -/
theorem history_not_served : ¬∀ (env : HistoryEnv) (user : UserInfo) (u : UserEth) (order : IterOrder Currency)
    (reqOrder : IterOrder WithdrawalRequestId) (filter : Option WithdrawalFilter),
    ∃ full, Served env user u order reqOrder filter full := by
  intro hall
  obtain ⟨full, hserved⟩ := hall utcEnv (UserInfo.new "alice" ⟨⟨0⟩⟩ (.password "") ⟨0⟩) (transferred "USDT") .stored .stored none
  obtain ⟨⟨c, hc⟩, -⟩ := (getHistory_eq_some (hserved.page 0 10)).entries (transfer "USDT") List.mem_cons_self
  have hunknown : Currency.fromStr "USDT" = none := by decide
  cases hunknown.symm.trans hc

end Hexstody
