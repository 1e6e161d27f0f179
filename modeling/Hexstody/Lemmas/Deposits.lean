import Hexstody.Following
import Hexstody.Lemmas.Ledger

/-!
# The deposits of a user

What the updates make of the transactions that users' accounts in bitcoins keep. A record is known by its key, the output that it
is of; a list that has no two records with one key keeps this, and an update or a cancellation changes the record with its key and
no other. Where each address belongs to one user only, both reach the account that has the address, whatever the iteration orders.
-/

namespace Hexstody

/-! ## Records and their keys -/

/-- The output that a record is of. -/
def BtcTransaction.key (t : BtcTransaction) : Txid × UInt32 := (t.txid, t.vout)

/-- The output that a cancellation is of. -/
def BtcTxCancel.key (c : BtcTxCancel) : Txid × UInt32 := (c.txid, c.vout)

theorem BtcTransaction.isSameBtcTx_iff (t t' : BtcTransaction) : t.isSameBtcTx t' = true ↔ t.key = t'.key := by
  simp [isSameBtcTx, key]

theorem BtcTransaction.isSameBtcTxCancel_iff (t : BtcTransaction) (c : BtcTxCancel) :
    t.isSameBtcTxCancel c = true ↔ t.key = c.key := by
  simp [isSameBtcTxCancel, key, BtcTxCancel.key]

/-- The key of a record of the chain of bitcoins. -/
def Transaction.key? : Transaction → Option (Txid × UInt32)
  | .btc t => some t.key
  | .eth _ => none

/-- No two records have one key. -/
def KeysApart (l : List Transaction) : Prop := (l.filterMap Transaction.key?).Nodup

/-- The list after an update, as an account changes it. -/
def recorded (tx : BtcTransaction) (l : List Transaction) : List Transaction :=
  (replaceBtcTx (·.isSameBtcTx tx) tx l).getD (l ++ [.btc tx])

/-- The list after a cancellation, as an account changes it. -/
def unrecorded (c : BtcTxCancel) (l : List Transaction) : List Transaction :=
  (removeBtcTx (·.isSameBtcTxCancel c) l).getD l

theorem updateBtcTx_transactions {i : UserCurrencyInfo} {tx : BtcTransaction} (h : tx.amount ≥ 0) :
    (i.updateBtcTx tx).transactions = recorded tx i.transactions := by
  unfold UserCurrencyInfo.updateBtcTx
  rw [if_pos h]
  rfl

section Records

variable {l : List Transaction} {tx r : BtcTransaction} {c : BtcTxCancel}

theorem key_mem (h : .btc r ∈ l) : r.key ∈ l.filterMap Transaction.key? := List.mem_filterMap.mpr ⟨_, h, rfl⟩

theorem mem_of_key {k : Txid × UInt32} (h : k ∈ l.filterMap Transaction.key?) : ∃ r, .btc r ∈ l ∧ r.key = k := by
  obtain ⟨t, ht, hk⟩ := List.mem_filterMap.mp h
  cases t with
  | btc r => exact ⟨r, ht, Option.some.inj hk⟩
  | eth e => cases hk

/-- No record before or after the one with a key has that key. -/
theorem KeysApart.split {pre post : List Transaction} {t : BtcTransaction} (h : KeysApart (pre ++ .btc t :: post)) :
    ∀ r, .btc r ∈ pre ++ post → r.key ≠ t.key := by
  intro r hr hk
  have hperm : (pre ++ .btc t :: post).Perm (.btc t :: (pre ++ post)) := List.perm_middle
  have hn : ((Transaction.btc t :: (pre ++ post)).filterMap Transaction.key?).Nodup := (hperm.filterMap _).nodup h
  have hn : (t.key :: (pre ++ post).filterMap Transaction.key?).Nodup := hn
  exact (List.nodup_cons.mp hn).1 (hk ▸ key_mem hr)

/-- Where no first record is found, no record passes the test. -/
theorem firstBtcTx?_none {p : BtcTransaction → Bool} {l : List Transaction} (h : firstBtcTx? p l = none) :
    ∀ r, .btc r ∈ l → p r = false := by
  induction l with
  | nil => exact fun r hr => by cases hr
  | cons x ts ih =>
    cases x with
    | eth t => exact fun r hr => ih h r (by simpa using hr)
    | btc t =>
      rw [firstBtcTx?] at h
      by_cases hp : p t = true
      · rw [if_pos hp] at h
        cases h
      · rw [if_neg hp] at h
        intro r hr
        rcases List.mem_cons.mp hr with heq | hr
        · obtain rfl := Transaction.btc.inj heq
          simpa using hp
        · exact ih h r hr

/-- An update replaces the record with its key, or appends the first one. -/
theorem recorded_cases (tx : BtcTransaction) (l : List Transaction) :
    ((∀ r, .btc r ∈ l → r.key ≠ tx.key) ∧ recorded tx l = l ++ [.btc tx]) ∨
      ∃ pre t post, l = pre ++ .btc t :: post ∧ t.key = tx.key ∧ recorded tx l = pre ++ .btc tx :: post := by
  unfold recorded
  cases hf : firstBtcTx? (·.isSameBtcTx tx) l with
  | none =>
    refine Or.inl ⟨fun r hr hk => ?_, by rw [(firstBtcTx?_eq_none hf).1 tx]; rfl⟩
    have hfalse : r.isSameBtcTx tx = false := firstBtcTx?_none hf r hr
    rw [(BtcTransaction.isSameBtcTx_iff r tx).mpr hk] at hfalse
    cases hfalse
  | some t =>
    obtain ⟨pre, post, rfl, hp, hr, -⟩ := firstBtcTx?_eq_some hf
    exact Or.inr ⟨pre, t, post, rfl, (BtcTransaction.isSameBtcTx_iff t tx).mp hp, by rw [hr tx]; rfl⟩

/-- A cancellation removes the record with its key, if there is one. -/
theorem unrecorded_cases (c : BtcTxCancel) (l : List Transaction) :
    ((∀ r, .btc r ∈ l → r.key ≠ c.key) ∧ unrecorded c l = l) ∨
      ∃ pre t post, l = pre ++ .btc t :: post ∧ t.key = c.key ∧ unrecorded c l = pre ++ post := by
  unfold unrecorded
  cases hf : firstBtcTx? (·.isSameBtcTxCancel c) l with
  | none =>
    refine Or.inl ⟨fun r hr hk => ?_, by rw [(firstBtcTx?_eq_none hf).2]; rfl⟩
    have hfalse : r.isSameBtcTxCancel c = false := firstBtcTx?_none hf r hr
    rw [(BtcTransaction.isSameBtcTxCancel_iff r c).mpr hk] at hfalse
    cases hfalse
  | some t =>
    obtain ⟨pre, post, rfl, hp, -, hd⟩ := firstBtcTx?_eq_some hf
    exact Or.inr ⟨pre, t, post, rfl, (BtcTransaction.isSameBtcTxCancel_iff t c).mp hp, by rw [hd]; rfl⟩

theorem mem_of_mem_recorded {t : Transaction} (h : t ∈ recorded tx l) : t = .btc tx ∨ t ∈ l := by
  obtain ⟨-, heq⟩ | ⟨pre, r, post, rfl, -, heq⟩ := recorded_cases tx l
  · rw [heq] at h
    rcases List.mem_append.mp h with h | h
    · exact Or.inr h
    · exact Or.inl (List.mem_singleton.mp h)
  · rw [heq] at h
    rcases List.mem_append.mp h with h | h
    · exact Or.inr (List.mem_append_left _ h)
    · rcases List.mem_cons.mp h with h | h
      · exact Or.inl h
      · exact Or.inr (List.mem_append_right _ (List.mem_cons_of_mem _ h))

theorem mem_of_mem_unrecorded {t : Transaction} (h : t ∈ unrecorded c l) : t ∈ l := by
  obtain ⟨-, heq⟩ | ⟨pre, r, post, rfl, -, heq⟩ := unrecorded_cases c l
  · rwa [heq] at h
  · rw [heq] at h
    rcases List.mem_append.mp h with h | h
    · exact List.mem_append_left _ h
    · exact List.mem_append_right _ (List.mem_cons_of_mem _ h)

/-- An update records the new record, and changes no record with another key. -/
theorem mem_recorded (h : KeysApart l) : .btc r ∈ recorded tx l ↔ r = tx ∨ (.btc r ∈ l ∧ r.key ≠ tx.key) := by
  obtain ⟨hnone, heq⟩ | ⟨pre, t, post, rfl, hkey, heq⟩ := recorded_cases tx l
  · rw [heq]
    simp only [List.mem_append, List.mem_singleton, Transaction.btc.injEq]
    constructor
    · rintro (hin | rfl)
      · exact Or.inr ⟨hin, hnone r hin⟩
      · exact Or.inl rfl
    · rintro (rfl | ⟨hin, -⟩)
      · exact Or.inr rfl
      · exact Or.inl hin
  · have hsplit := h.split
    rw [heq]
    simp only [List.mem_append, List.mem_cons, Transaction.btc.injEq] at hsplit ⊢
    constructor
    · rintro (hin | rfl | hin)
      · exact Or.inr ⟨Or.inl hin, hkey ▸ hsplit r (Or.inl hin)⟩
      · exact Or.inl rfl
      · exact Or.inr ⟨Or.inr (Or.inr hin), hkey ▸ hsplit r (Or.inr hin)⟩
    · rintro (rfl | ⟨hin | rfl | hin, hne⟩)
      · exact Or.inr (Or.inl rfl)
      · exact Or.inl hin
      · exact absurd hkey hne
      · exact Or.inr (Or.inr hin)

/-- A cancellation removes the record with its key, and changes no other. -/
theorem mem_unrecorded (h : KeysApart l) : .btc r ∈ unrecorded c l ↔ .btc r ∈ l ∧ r.key ≠ c.key := by
  obtain ⟨hnone, heq⟩ | ⟨pre, t, post, rfl, hkey, heq⟩ := unrecorded_cases c l
  · rw [heq]
    exact ⟨fun hin => ⟨hin, hnone r hin⟩, fun hin => hin.1⟩
  · have hsplit := h.split
    rw [heq]
    simp only [List.mem_append, List.mem_cons, Transaction.btc.injEq] at hsplit ⊢
    constructor
    · rintro (hin | hin)
      · exact ⟨Or.inl hin, hkey ▸ hsplit r (Or.inl hin)⟩
      · exact ⟨Or.inr (Or.inr hin), hkey ▸ hsplit r (Or.inr hin)⟩
    · rintro ⟨hin | rfl | hin, hne⟩
      · exact Or.inl hin
      · exact absurd hkey hne
      · exact Or.inr hin

theorem KeysApart.recorded (h : KeysApart l) : KeysApart (recorded tx l) := by
  obtain ⟨hnone, heq⟩ | ⟨pre, t, post, rfl, hkey, heq⟩ := recorded_cases tx l
  · rw [heq, KeysApart, List.filterMap_append, List.nodup_append]
    refine ⟨h, List.nodup_singleton _, fun k hk k' hk' hsame => ?_⟩
    obtain ⟨r, hin, rfl⟩ := mem_of_key hk
    have hk' : k' = tx.key := by simpa [Transaction.key?] using hk'
    exact hnone r hin (hsame.trans hk')
  · have hsame : (pre ++ .btc tx :: post).filterMap Transaction.key? = (pre ++ .btc t :: post).filterMap Transaction.key? := by
      simp [List.filterMap_append, Transaction.key?, hkey]
    rw [heq, KeysApart, hsame]
    exact h

theorem KeysApart.unrecorded (h : KeysApart l) : KeysApart (unrecorded c l) := by
  obtain ⟨-, heq⟩ | ⟨pre, t, post, rfl, -, heq⟩ := unrecorded_cases c l
  · rw [heq]
    exact h
  · rw [heq]
    refine List.Nodup.sublist (List.Sublist.filterMap _ ?_) h
    exact List.Sublist.append_left (List.sublist_cons_self _ _) _

end Records

/-! ## The accounts -/

theorem ExchangeState.addresses_processIncomingBtcTx (e : ExchangeState) (tx : BtcTransaction) :
    (e.processIncomingBtcTx tx).addresses = e.addresses := by
  unfold processIncomingBtcTx
  split
  · split <;> rfl
  · rfl

theorem ExchangeState.addresses_cancelBtcTx (e : ExchangeState) (c : BtcTxCancel) :
    (e.cancelBtcTx c).addresses = e.addresses := by
  unfold cancelBtcTx
  split <;> rfl

/-- The request was completed by a transaction. -/
def WithdrawalRequest.completedBy (r : WithdrawalRequest) (t : Txid) : Bool :=
  match r.status with
  | .completed _ txid _ _ _ => txid == .btc { txid := t.hex }
  | _ => false

/-- The deposit addresses of an account that may be there. -/
def infoOf (a : Option UserCurrencyInfo) : List CurrencyAddress := (a.map (·.depositInfo)).getD []

theorem mem_infoOf {a : Option UserCurrencyInfo} {address : CurrencyAddress} :
    address ∈ infoOf a ↔ ∃ i, a = some i ∧ address ∈ i.depositInfo := by
  cases a with
  | none => simp [infoOf]
  | some i => simp [infoOf]

/-- The deposit addresses of an account stay, but for one that is given out, and for the account of a token that is disabled. -/
theorem AccountChange.depositInfo {s : State} {up : StateUpdate} {u : UserId} {c : Currency} {a a' : Option UserCurrencyInfo}
    (h : AccountChange s up u c a a') :
    infoOf a' = infoOf a ∨
      (∃ token, up.body = .updateTokens { user := u, token := token, action := .disable } ∧ c = .erc20 token ∧ a' = none) ∨
      ∃ address, up.body = .depositAddress { userId := u, address := address } ∧ address.currency = c ∧
        infoOf a' = infoOf a ++ [address] := by
  cases h with
  | same => exact Or.inl rfl
  | opened => exact Or.inl rfl
  | closed i token hb hc _ => exact Or.inr (Or.inl ⟨token, hb, hc, rfl⟩)
  | requested i info _ _ _ _ => exact Or.inl rfl
  | voted i d r r' confirmed _ _ _ _ _ => exact Or.inl rfl
  | completed i info _ => exact Or.inl rfl
  | nodeRejected i info _ => exact Or.inl rfl
  | addressed i address hb hc _ => exact Or.inr (Or.inr ⟨address, hb, hc, rfl⟩)
  | deposited i tx _ _ => rw [UserCurrencyInfo.updateBtcTx_eq]; exact Or.inl rfl
  | canceled i tx owner rid _ _ _ => rw [UserCurrencyInfo.afterCancel_eq]; exact Or.inl rfl
  | limited i lcd _ _ _ _ => exact Or.inl rfl
  | cleared i span _ => rw [UserCurrencyInfo.clearLimit_eq]; exact Or.inl rfl
  | ordered i req _ _ _ _ => exact Or.inl rfl
  | exchanged i k req ex ex' completes _ _ _ _ _ => rw [UserCurrencyInfo.afterExchange_eq]; exact Or.inl rfl

namespace State

/-- The transactions of a user's account in bitcoins. -/
def deposits (s : State) (u : UserId) : List Transaction := ((s.currency? u .btc).map (·.transactions)).getD []

/-- The address is a deposit address of a user. -/
def Owns (s : State) (u : UserId) (a : Address) : Prop := ∃ i, s.currency? u .btc = some i ∧ btcAddress a ∈ i.depositInfo

/-- Every address belongs to one user or to the exchange. -/
structure AddressesApart (s : State) : Prop where
  one : ∀ a u u', s.Owns u a → s.Owns u' a → u = u'
  notExchange : ∀ a u, s.Owns u a → s.isExchangeAddress (btcAddress a) = false

/-- The same addresses belong to the same. -/
structure SameAddresses (s s' : State) : Prop where
  owns : ∀ u a, s'.Owns u a ↔ s.Owns u a
  exchange : ∀ a, s'.isExchangeAddress a = s.isExchangeAddress a

variable {s s' : State} {o : Oracle} {up : StateUpdate} {res : Option UpdateResult} {u : UserId} {a : Address}

theorem AddressesApart.of_same (h : s.AddressesApart) (hsame : s.SameAddresses s') : s'.AddressesApart := by
  refine ⟨fun a u u' hu hu' => h.one a u u' ((hsame.owns u a).mp hu) ((hsame.owns u' a).mp hu'), fun a u hu => ?_⟩
  rw [hsame.exchange]
  exact h.notExchange a u ((hsame.owns u a).mp hu)

/-- A user that has an address is seen to have it. -/
theorem Owns.hasAddress (hu : s.Owns u a) : ∃ user, s.users.get? u = some user ∧ user.hasAddress (btcAddress a) = true := by
  obtain ⟨i, hi, ha⟩ := hu
  obtain ⟨user, huser, hc⟩ := Option.bind_eq_some_iff.mp hi
  refine ⟨user, huser, ?_⟩
  unfold UserInfo.hasAddress
  rw [show (btcAddress a).currency = .btc from rfl, hc]
  simpa [UserCurrencyInfo.hasAddress] using ha

/-- A search that finds nobody leaves nobody who has the address. -/
theorem unowned_of_findUserAddress (h : s.findUserAddress o (btcAddress a) = none) (u : UserId) : ¬s.Owns u a := by
  intro hu
  obtain ⟨user, huser, hhas⟩ := hu.hasAddress
  have hnone := AssocMap.findVal?_eq_none_iff.mp h u user huser
  rw [if_pos hhas] at hnone
  cases hnone

/-- A search finds the one user that has an address. -/
theorem findUserAddress_of_owns (hu : s.Owns u a) (halone : ∀ u', s.Owns u' a → u' = u) :
    s.findUserAddress o (btcAddress a) = some u := by
  cases hf : s.findUserAddress o (btcAddress a) with
  | none => exact absurd hu (unowned_of_findUserAddress hf u)
  | some u' =>
    obtain ⟨i, hi, ha⟩ := findUserAddress_eq_some hf
    rw [halone u' ⟨i, hi, ha⟩]

/-- A search finds nobody where nobody has the address. -/
theorem findUserAddress_of_unowned (hu : ∀ u, ¬s.Owns u a) : s.findUserAddress o (btcAddress a) = none := by
  cases hf : s.findUserAddress o (btcAddress a) with
  | none => rfl
  | some u' =>
    obtain ⟨i, hi, ha⟩ := findUserAddress_eq_some hf
    exact absurd ⟨i, hi, ha⟩ (hu u')

theorem withDepositOwner_of_owns (hu : s.Owns u a) (halone : ∀ u', s.Owns u' a → u' = u)
    (f : UserCurrencyInfo → UserCurrencyInfo) : s.withDepositOwner o (btcAddress a) f = (s.modifyCurrency u .btc f, .ok ()) := by
  unfold withDepositOwner
  rw [findUserAddress_of_owns hu halone]
  obtain ⟨i, hi, -⟩ := hu
  obtain ⟨user, huser, hc⟩ := Option.bind_eq_some_iff.mp hi
  simp only [huser, hc]

theorem withDepositOwner_of_unowned (hu : ∀ u, ¬s.Owns u a) (f : UserCurrencyInfo → UserCurrencyInfo) :
    s.withDepositOwner o (btcAddress a) f = (s, .ok ()) := by
  unfold withDepositOwner
  rw [findUserAddress_of_unowned hu]

/-- A change of an account that keeps its addresses. -/
theorem owns_modifyCurrency {u' : UserId} {f : UserCurrencyInfo → UserCurrencyInfo}
    (hf : ∀ i, (f i).depositInfo = i.depositInfo) : (s.modifyCurrency u' .btc f).Owns u a ↔ s.Owns u a := by
  unfold Owns
  rw [currency?_modifyCurrency]
  by_cases huu : u = u' ∧ Currency.btc = Currency.btc
  · rw [if_pos huu]
    constructor
    · rintro ⟨i, hi, ha⟩
      obtain ⟨i₀, hi₀, rfl⟩ := Option.map_eq_some_iff.mp hi
      exact ⟨i₀, hi₀, hf i₀ ▸ ha⟩
    · rintro ⟨i, hi, ha⟩
      exact ⟨f i, by rw [hi]; rfl, (hf i).symm ▸ ha⟩
  · rw [if_neg huu]

theorem deposits_modifyCurrency_self {f : UserCurrencyInfo → UserCurrencyInfo} {g : List Transaction → List Transaction}
    (hu : s.Owns u a) (hf : ∀ i, (f i).transactions = g i.transactions) :
    (s.modifyCurrency u .btc f).deposits u = g (s.deposits u) := by
  obtain ⟨i, hi, -⟩ := hu
  unfold deposits
  rw [currency?_modifyCurrency, if_pos ⟨rfl, rfl⟩, hi]
  exact hf i

theorem deposits_modifyCurrency_other {u' : UserId} {f : UserCurrencyInfo → UserCurrencyInfo} (hne : u ≠ u') :
    (s.modifyCurrency u' .btc f).deposits u = s.deposits u := by
  unfold deposits
  rw [currency?_modifyCurrency, if_neg (fun hc => hne hc.1)]

theorem deposits_mapCurrencies {f : UserCurrencyInfo → UserCurrencyInfo} (hf : ∀ i, (f i).transactions = i.transactions) :
    (s.mapCurrencies f).deposits u = s.deposits u := by
  unfold deposits
  rw [currency?_mapCurrencies, Option.map_map]
  congr 2
  exact funext hf

theorem owns_mapCurrencies {f : UserCurrencyInfo → UserCurrencyInfo} (hf : ∀ i, (f i).depositInfo = i.depositInfo) :
    (s.mapCurrencies f).Owns u a ↔ s.Owns u a := by
  unfold Owns
  rw [currency?_mapCurrencies]
  constructor
  · rintro ⟨i, hi, ha⟩
    obtain ⟨i₀, hi₀, rfl⟩ := Option.map_eq_some_iff.mp hi
    exact ⟨i₀, hi₀, hf i₀ ▸ ha⟩
  · rintro ⟨i, hi, ha⟩
    exact ⟨f i, by rw [hi]; rfl, (hf i).symm ▸ ha⟩

/-! ## The updates -/

theorem isExchangeAddress_congr (h : s'.exchangeState.addresses = s.exchangeState.addresses) (a : CurrencyAddress) :
    s'.isExchangeAddress a = s.isExchangeAddress a := by
  unfold isExchangeAddress
  rw [h]

/-- Nothing changes in the accounts but the transactions in bitcoins. -/
def OnlyDeposits (s s' : State) : Prop :=
  ∀ u c, s'.currency? u c = (s.currency? u c).map fun i =>
    { i with transactions := if c = .btc then s'.deposits u else i.transactions }

/-- No withdrawal was completed by a transaction. -/
def NoneCompleted (s : State) (t : Txid) : Prop := ∀ u c i r, s.request? u c i = some r → r.completedBy t = false

/-- A deposit is recorded with the user who has its address, or with the exchange, and nowhere else. -/
structure Deposited (s s' : State) (tx : BtcTransaction) : Prop where
  addresses : s.SameAddresses s'
  owner : ∀ u, s.Owns u tx.address → s'.deposits u = recorded tx (s.deposits u)
  other : ∀ u, ¬s.Owns u tx.address → s'.deposits u = s.deposits u
  accounts : s.OnlyDeposits s'
  exchange : s'.exchangeState =
    if s.isExchangeAddress (btcAddress tx.address) then s.exchangeState.processIncomingBtcTx tx else s.exchangeState

/-- A deposit is removed from the user who has its address, or from the exchange, and from nowhere else. Nothing else happens to
the accounts where the address is the exchange's, or where the transaction completed no withdrawal. -/
structure Undeposited (s s' : State) (c : BtcTxCancel) : Prop where
  addresses : s.SameAddresses s'
  owner : ∀ u, s.Owns u c.address → s'.deposits u = unrecorded c (s.deposits u)
  other : ∀ u, ¬s.Owns u c.address → s'.deposits u = s.deposits u
  accounts : s.isExchangeAddress (btcAddress c.address) = true ∨ s.NoneCompleted c.txid → s.OnlyDeposits s'
  exchange : s'.exchangeState =
    if s.isExchangeAddress (btcAddress c.address) then s.exchangeState.cancelBtcTx c else s.exchangeState

theorem onlyDeposits_of_users (h : s'.users = s.users) : s.OnlyDeposits s' := by
  intro u c
  unfold deposits
  rw [currency?_congr h, currency?_congr h]
  cases hi : s.currency? u c with
  | none => rfl
  | some i =>
    rw [Option.map_some]
    by_cases hc : c = .btc
    · subst hc
      rw [hi, if_pos rfl]
      rfl
    · rw [if_neg hc]

theorem onlyDeposits_modifyCurrency {u' : UserId} {f : UserCurrencyInfo → UserCurrencyInfo}
    (hf : ∀ i, f i = { i with transactions := (f i).transactions }) : s.OnlyDeposits (s.modifyCurrency u' .btc f) := by
  intro u c
  unfold deposits
  rw [currency?_modifyCurrency, currency?_modifyCurrency]
  cases hi : s.currency? u c with
  | none => split <;> rfl
  | some i =>
    by_cases hc : c = .btc
    · subst hc
      rw [hi]
      by_cases hu : u = u'
      · rw [if_pos ⟨hu, rfl⟩, Option.map_some, Option.map_some, if_pos rfl, Option.map_some, Option.getD_some, ← hf i]
      · rw [if_neg (fun hh => hu hh.1), Option.map_some, if_pos rfl, Option.map_some, Option.getD_some]
    · rw [if_neg (fun hh => hc hh.2), Option.map_some, if_neg hc]

/-- A change of the owner's account, or of nothing where nobody has the address. -/
theorem withDepositOwner_cases (h : s.AddressesApart) (a : Address) (f : UserCurrencyInfo → UserCurrencyInfo) :
    (∃ u, s.Owns u a ∧ (∀ o, s.withDepositOwner o (btcAddress a) f = (s.modifyCurrency u .btc f, .ok ()))) ∨
      ((∀ u, ¬s.Owns u a) ∧ ∀ o, s.withDepositOwner o (btcAddress a) f = (s, .ok ())) := by
  by_cases hown : ∃ u, s.Owns u a
  · obtain ⟨u, hu⟩ := hown
    exact Or.inl ⟨u, hu, fun o => withDepositOwner_of_owns hu (fun u' hu' => h.one a u' u hu' hu) f⟩
  · have hnone : ∀ u, ¬s.Owns u a := fun u hu => hown ⟨u, hu⟩
    exact Or.inr ⟨hnone, fun o => withDepositOwner_of_unowned hnone f⟩

theorem applyUpdate_updateBtcTx (h : s.AddressesApart) (o : Oracle) (created : NaiveDateTime) {tx : BtcTransaction}
    (hpos : tx.amount ≥ 0) :
    ∃ s', s.applyUpdate o { created := created, body := .updateBtcTx tx } = (s', .ok none) ∧ s.Deposited s' tx := by
  by_cases hx : s.isExchangeAddress (btcAddress tx.address) = true
  · have hnone : ∀ u, ¬s.Owns u tx.address := fun u hu => by
      have hfalse := h.notExchange _ u hu
      rw [hx] at hfalse
      cases hfalse
    refine ⟨{ s with exchangeState := s.exchangeState.processIncomingBtcTx tx, lastChanged := created },
      by simp only [applyUpdate, withBtcTxUpdate, hx, if_true, stamped, noResult], ?_⟩
    exact ⟨⟨fun u a => Iff.rfl, isExchangeAddress_congr (ExchangeState.addresses_processIncomingBtcTx _ tx)⟩,
      fun u hu => absurd hu (hnone u), fun u _ => rfl, onlyDeposits_of_users rfl, (if_pos hx).symm⟩
  · obtain ⟨u, hu, heq⟩ | ⟨hnone, heq⟩ := withDepositOwner_cases h tx.address (·.updateBtcTx tx)
    · refine ⟨_, by simp only [applyUpdate, withBtcTxUpdate, hx, heq, stamped, noResult]; rfl, ?_⟩
      refine ⟨⟨fun u' a => owns_modifyCurrency (fun i => by rw [i.updateBtcTx_eq]), fun a => rfl⟩, fun u' hu' => ?_, fun u' hu' => ?_,
        onlyDeposits_modifyCurrency (fun i => i.updateBtcTx_eq tx), (if_neg hx).symm⟩
      · obtain rfl := h.one _ u u' hu hu'
        exact deposits_modifyCurrency_self hu (fun i => updateBtcTx_transactions hpos)
      · exact deposits_modifyCurrency_other (fun heq => hu' (heq ▸ hu))
    · refine ⟨_, by simp only [applyUpdate, withBtcTxUpdate, hx, heq, stamped, noResult]; rfl, ?_⟩
      exact ⟨⟨fun u a => Iff.rfl, fun a => rfl⟩, fun u hu => absurd hu (hnone u), fun u _ => rfl, onlyDeposits_of_users rfl,
        (if_neg hx).symm⟩

/-- The withdrawal that a transaction completed, rejected in a State, if one is found. -/
def afterReject (s : State) (o : Oracle) (c : BtcTxCancel) : State :=
  (s.findWithdrawalByTxId o (.btc { txid := c.txid.hex })).elim s
    (fun id => s.mapCurrencies (·.setRequestStatus id (.nodeRejected "Tx canceled")))

theorem withBtcTxCancel_eq_afterReject {c : BtcTxCancel} {s₁ : State} (hx : ¬s.isExchangeAddress (btcAddress c.address) = true)
    (heq : s.withDepositOwner o (btcAddress c.address) (·.cancelBtcTx c) = (s₁, .ok ())) :
    s.withBtcTxCancel o c = (s₁.afterReject o c, .ok ()) := by
  unfold withBtcTxCancel afterReject
  simp only [hx, heq]
  cases hf : s₁.findWithdrawalByTxId o (.btc { txid := c.txid.hex }) with
  | none => rfl
  | some rid => rfl

theorem deposits_afterReject (s : State) (o : Oracle) (c : BtcTxCancel) (u : UserId) :
    (s.afterReject o c).deposits u = s.deposits u := by
  unfold afterReject
  cases s.findWithdrawalByTxId o (.btc { txid := c.txid.hex }) with
  | none => rfl
  | some id => exact deposits_mapCurrencies (fun i => rfl)

theorem sameAddresses_afterReject (s : State) (o : Oracle) (c : BtcTxCancel) : s.SameAddresses (s.afterReject o c) := by
  unfold afterReject
  cases s.findWithdrawalByTxId o (.btc { txid := c.txid.hex }) with
  | none => exact ⟨fun u a => Iff.rfl, fun a => rfl⟩
  | some id => exact ⟨fun u a => owns_mapCurrencies (fun i => rfl), fun a => rfl⟩

theorem exchangeState_afterReject (s : State) (o : Oracle) (c : BtcTxCancel) :
    (s.afterReject o c).exchangeState = s.exchangeState := by
  unfold afterReject
  cases s.findWithdrawalByTxId o (.btc { txid := c.txid.hex }) with
  | none => rfl
  | some id => rfl

/-- Where the transaction completed no withdrawal, none is found. -/
theorem afterReject_of_noneCompleted {c : BtcTxCancel} (h : s.NoneCompleted c.txid) : s.afterReject o c = s := by
  unfold afterReject
  cases hf : s.findWithdrawalByTxId o (.btc { txid := c.txid.hex }) with
  | none => rfl
  | some id =>
    obtain ⟨u, cur, k, r, ca, fee, ins, outs, hr, hst, -⟩ := findWithdrawalByTxId_eq_some hf
    have hfalse := h u cur k r hr
    rw [WithdrawalRequest.completedBy, hst] at hfalse
    simp at hfalse

theorem NoneCompleted.onlyDeposits {t : Txid} (h : s.NoneCompleted t) (hs : s.OnlyDeposits s') : s'.NoneCompleted t := by
  intro u c i r hr
  refine h u c i r ?_
  rw [request?, hs u c, Option.bind_map] at hr
  exact hr

theorem applyUpdate_cancelBtcTx (h : s.AddressesApart) (o : Oracle) (created : NaiveDateTime) (c : BtcTxCancel) :
    ∃ s', s.applyUpdate o { created := created, body := .cancelBtcTx c } = (s', .ok none) ∧ s.Undeposited s' c := by
  by_cases hx : s.isExchangeAddress (btcAddress c.address) = true
  · have hnone : ∀ u, ¬s.Owns u c.address := fun u hu => by
      have hfalse := h.notExchange _ u hu
      rw [hx] at hfalse
      cases hfalse
    refine ⟨{ s with exchangeState := s.exchangeState.cancelBtcTx c, lastChanged := created },
      by simp only [applyUpdate, withBtcTxCancel, hx, if_true, stamped, noResult], ?_⟩
    exact ⟨⟨fun u a => Iff.rfl, isExchangeAddress_congr (ExchangeState.addresses_cancelBtcTx _ c)⟩,
      fun u hu => absurd hu (hnone u), fun u _ => rfl, fun _ => onlyDeposits_of_users rfl, (if_pos hx).symm⟩
  · obtain ⟨u, hu, heq⟩ | ⟨hnone, heq⟩ := withDepositOwner_cases h c.address (·.cancelBtcTx c)
    · have hsame := sameAddresses_afterReject (s.modifyCurrency u .btc (·.cancelBtcTx c)) o c
      refine ⟨{ (s.modifyCurrency u .btc (·.cancelBtcTx c)).afterReject o c with lastChanged := created },
        by simp only [applyUpdate, withBtcTxCancel_eq_afterReject hx (heq o), stamped, noResult], ?_⟩
      refine ⟨⟨fun u' a => (hsame.owns u' a).trans (owns_modifyCurrency (fun i => rfl)), hsame.exchange⟩,
        fun u' hu' => ?_, fun u' hu' => ?_, ?_, (exchangeState_afterReject _ o c).trans (if_neg hx).symm⟩
      · obtain rfl := h.one _ u u' hu hu'
        exact (deposits_afterReject _ o c u).trans (deposits_modifyCurrency_self hu (fun i => rfl))
      · exact (deposits_afterReject _ o c u').trans (deposits_modifyCurrency_other (fun heq => hu' (heq ▸ hu)))
      · rintro (hex | hno)
        · exact absurd hex hx
        · have hmod : s.OnlyDeposits (s.modifyCurrency u .btc (·.cancelBtcTx c)) := onlyDeposits_modifyCurrency (fun i => rfl)
          rw [afterReject_of_noneCompleted (hno.onlyDeposits hmod)]
          exact hmod
    · refine ⟨{ s.afterReject o c with lastChanged := created },
        by simp only [applyUpdate, withBtcTxCancel_eq_afterReject hx (heq o), stamped, noResult], ?_⟩
      have hsame := sameAddresses_afterReject s o c
      refine ⟨⟨hsame.owns, hsame.exchange⟩, fun u hu => absurd hu (hnone u), fun u _ => deposits_afterReject s o c u, ?_,
        (exchangeState_afterReject s o c).trans (if_neg hx).symm⟩
      rintro (hex | hno)
      · exact absurd hex hx
      · rw [afterReject_of_noneCompleted hno]
        exact onlyDeposits_of_users rfl

/-! ## How an update changes the addresses and the deposits -/

theorem owns_iff {a : Address} : s.Owns u a ↔ btcAddress a ∈ infoOf (s.currency? u .btc) := mem_infoOf.symm

/-- A bitcoin address stays its owner's: the account in bitcoins is never closed. -/
theorem Owns.applyUpdate {a : Address} (ha : s.Owns u a) (h : s.applyUpdate o up = (s', .ok res))
    (hs : ¬up.body.IsSnapshot) : s'.Owns u a := by
  rw [owns_iff] at ha ⊢
  rcases (applyUpdate_account h hs u .btc).depositInfo with hsame | ⟨token, -, hc, -⟩ | ⟨address, -, -, happend⟩
  · exact hsame ▸ ha
  · cases hc
  · exact happend ▸ List.mem_append_left _ ha

/-- A bitcoin address that is its owner's after an update was so before, or is given out by it. -/
theorem owns_of_applyUpdate (h : s.applyUpdate o up = (s', .ok res)) (hs : ¬up.body.IsSnapshot) {a : Address}
    (ha : s'.Owns u a) : s.Owns u a ∨ up.body = .depositAddress { userId := u, address := btcAddress a } := by
  rw [owns_iff] at ha ⊢
  rcases (applyUpdate_account h hs u .btc).depositInfo with hsame | ⟨token, -, hc, -⟩ | ⟨address, hb, -, happend⟩
  · exact Or.inl (hsame ▸ ha)
  · cases hc
  · rw [happend] at ha
    rcases List.mem_append.mp ha with ha | ha
    · exact Or.inl ha
    · rw [List.mem_singleton.mp ha]
      exact Or.inr hb

/-- The addresses of the exchange change by an update that sets one. -/
theorem applyUpdate_addresses (h : s.applyUpdate o up = (s', .ok res)) (hs : ¬up.body.IsSnapshot) :
    s'.exchangeState.addresses = s.exchangeState.addresses ∨
      ∃ req, up.body = .exchangeAddress req ∧
        s'.exchangeState.addresses = s.exchangeState.addresses.insert req.currency req := by
  have hch := applyUpdate_exchangeState h hs
  generalize s'.exchangeState = e at hch
  cases hch with
  | same => exact Or.inl rfl
  | deposited tx _ _ => exact Or.inl (ExchangeState.addresses_processIncomingBtcTx _ _)
  | canceled tx _ _ => exact Or.inl (ExchangeState.addresses_cancelBtcTx _ _)
  | settled req order _ _ => exact Or.inl rfl
  | addressed req hb => exact Or.inr ⟨req, hb, rfl⟩

/-- An update that sets an address of the exchange leaves the users as they are. -/
theorem applyUpdate_exchangeAddress {req : CurrencyAddress} (h : s.applyUpdate o up = (s', .ok res))
    (hb : up.body = .exchangeAddress req) :
    s'.users = s.users ∧ s'.exchangeState.addresses = s.exchangeState.addresses.insert req.currency req := by
  unfold State.applyUpdate at h
  rw [hb] at h
  obtain ⟨s₁, a, hout, rfl, -⟩ := stamped_eq_ok h
  obtain rfl := (Prod.mk.inj hout).1
  exact ⟨rfl, rfl⟩

/-- The bitcoin address of the exchange, once an address is set. -/
theorem isExchangeAddress_set {req : CurrencyAddress} (h : s.applyUpdate o up = (s', .ok res))
    (hb : up.body = .exchangeAddress req) (b : BtcAddress) :
    s'.isExchangeAddress (.btc b) = if req.currency = .btc then decide (req = .btc b) else s.isExchangeAddress (.btc b) := by
  unfold isExchangeAddress
  rw [(applyUpdate_exchangeAddress h hb).2, AssocMap.get?_insert]
  cases req with
  | btc b' =>
    obtain ⟨addr⟩ := b
    obtain ⟨addr'⟩ := b'
    simp [CurrencyAddress.currency, CurrencyAddress.address, beq_eq_decide]
  | eth x => simp [CurrencyAddress.currency]
  | erc20 x => simp [CurrencyAddress.currency]

/-- The bitcoin address of the exchange changes by an update that sets one. -/
theorem isExchangeAddress_applyUpdate (h : s.applyUpdate o up = (s', .ok res)) (hs : ¬up.body.IsSnapshot)
    (hset : ∀ req, up.body ≠ .exchangeAddress req) (a : CurrencyAddress) :
    s'.isExchangeAddress a = s.isExchangeAddress a := by
  rcases applyUpdate_addresses h hs with hsame | ⟨req, hb, -⟩
  · exact isExchangeAddress_congr hsame a
  · exact absurd hb (hset req)

/-- The transactions of an account that may be there. -/
def recordsOf (a : Option UserCurrencyInfo) : List Transaction := (a.map (·.transactions)).getD []

/-- The transactions of an account in bitcoins change by an update or a cancellation of one. -/
theorem depositsOf_change {a a' : Option UserCurrencyInfo} (h : AccountChange s up u .btc a a') :
    recordsOf a' = recordsOf a ∨
      (∃ tx, up.body = .updateBtcTx tx ∧ tx.amount ≥ 0 ∧ recordsOf a' = recorded tx (recordsOf a)) ∨
      ∃ c, up.body = .cancelBtcTx c ∧ recordsOf a' = unrecorded c (recordsOf a) := by
  cases h with
  | same => exact Or.inl rfl
  | opened => exact Or.inl rfl
  | closed i token hb hc _ => cases hc
  | requested i info _ _ _ _ => exact Or.inl rfl
  | voted i d r r' confirmed _ _ _ _ _ => exact Or.inl rfl
  | completed i info _ => exact Or.inl rfl
  | nodeRejected i info _ => exact Or.inl rfl
  | addressed i address _ _ _ => exact Or.inl rfl
  | deposited i tx hb _ =>
    by_cases hpos : tx.amount ≥ 0
    · exact Or.inr (Or.inl ⟨tx, hb, hpos, updateBtcTx_transactions hpos⟩)
    · refine Or.inl ?_
      unfold UserCurrencyInfo.updateBtcTx
      rw [if_neg hpos]
  | canceled i tx owner rid hb _ _ =>
    cases owner with
    | false => cases rid <;> exact Or.inl rfl
    | true => cases rid <;> exact Or.inr (Or.inr ⟨tx, hb, rfl⟩)
  | limited i lcd _ _ _ _ => exact Or.inl rfl
  | cleared i span _ => rw [UserCurrencyInfo.clearLimit_eq]; exact Or.inl rfl
  | ordered i req _ _ _ _ => exact Or.inl rfl
  | exchanged i k req ex ex' completes _ _ _ _ _ => rw [UserCurrencyInfo.afterExchange_eq]; exact Or.inl rfl

theorem applyUpdate_deposits (h : s.applyUpdate o up = (s', .ok res)) (hs : ¬up.body.IsSnapshot) (u : UserId) :
    s'.deposits u = s.deposits u ∨
      (∃ tx, up.body = .updateBtcTx tx ∧ tx.amount ≥ 0 ∧ s'.deposits u = recorded tx (s.deposits u)) ∨
      ∃ c, up.body = .cancelBtcTx c ∧ s'.deposits u = unrecorded c (s.deposits u) :=
  depositsOf_change (applyUpdate_account h hs u .btc)

/-- The deposits stay, and so do the addresses but for the one that the update gives out. -/
structure OnlyGivesOut (s s' : State) (up : StateUpdate) : Prop where
  deposits : ∀ u, s'.deposits u = s.deposits u
  kept : ∀ u a, s.Owns u a → s'.Owns u a
  given : ∀ u a, s'.Owns u a → s.Owns u a ∨ up.body = .depositAddress { userId := u, address := btcAddress a }
  exchange : ∀ a, s'.isExchangeAddress (btcAddress a) = true →
    s.isExchangeAddress (btcAddress a) = true ∨ up.body = .exchangeAddress (btcAddress a)

/-- An update that is made of no event leaves the deposits alone. -/
theorem onlyGivesOut_of_applyUpdate (h : s.applyUpdate o up = (s', .ok res)) (hsnap : ¬up.body.IsSnapshot)
    (hev : up.body.OfBtcEvent = false) : s.OnlyGivesOut s' up where
  deposits u := by
    rcases applyUpdate_deposits h hsnap u with hsame | ⟨tx, hb, -⟩ | ⟨c, hb, -⟩
    · exact hsame
    · rw [hb] at hev
      cases hev
    · rw [hb] at hev
      cases hev
  kept u a ha := ha.applyUpdate h hsnap
  given u a ha := owns_of_applyUpdate h hsnap ha
  exchange a ha := by
    rcases applyUpdate_addresses h hsnap with hsame | ⟨req, hb, -⟩
    · exact Or.inl ((isExchangeAddress_congr hsame _).symm.trans ha)
    · unfold btcAddress at ha
      rw [isExchangeAddress_set h hb] at ha
      split at ha
      · rw [of_decide_eq_true ha] at hb
        exact Or.inr hb
      · exact Or.inl ha

/-- An address that is given out is nobody's. -/
def GivesNew (s : State) (b : UpdateBody) : Prop := ∀ a ∈ b.given?, s.isNewAddress a = true

/-- A new address is nobody's deposit address, and not the exchange's. -/
theorem isNewAddress_unowned (h : s.isNewAddress (btcAddress a) = true) :
    (∀ u, ¬s.Owns u a) ∧ s.isExchangeAddress (btcAddress a) = false := by
  simp only [isNewAddress, Bool.and_eq_true, List.all_eq_true, Bool.not_eq_true'] at h
  refine ⟨?_, h.2⟩
  rintro u ⟨i, hi, ha⟩
  obtain ⟨user, huser, hc⟩ := Option.bind_eq_some_iff.mp hi
  have hnot := h.1 user ((AssocMap.mem_values_iff _ _).mpr ⟨u, huser⟩)
  unfold UserInfo.hasAddress at hnot
  rw [show (btcAddress a).currency = .btc from rfl, hc] at hnot
  simp [UserCurrencyInfo.hasAddress, ha] at hnot

theorem GivesNew.unowned {b : UpdateBody} (h : s.GivesNew b)
    (hb : (∃ u, b = .depositAddress { userId := u, address := btcAddress a }) ∨ b = .exchangeAddress (btcAddress a)) :
    (∀ u, ¬s.Owns u a) ∧ s.isExchangeAddress (btcAddress a) = false := by
  refine isNewAddress_unowned (h _ ?_)
  rcases hb with ⟨u, rfl⟩ | rfl <;> rfl

theorem AddressesApart.of_onlyGivesOut (h : s.AddressesApart) (hg : s.OnlyGivesOut s' up) (hnew : s.GivesNew up.body) :
    s'.AddressesApart := by
  refine ⟨fun a u u' hu hu' => ?_, fun a u hu => ?_⟩
  · rcases hg.given u a hu with hu | hb
    · rcases hg.given u' a hu' with hu' | hb'
      · exact h.one a u u' hu hu'
      · exact absurd hu ((hnew.unowned (Or.inl ⟨u', hb'⟩)).1 u)
    · rcases hg.given u' a hu' with hu' | hb'
      · exact absurd hu' ((hnew.unowned (Or.inl ⟨u, hb⟩)).1 u')
      · rw [hb] at hb'
        exact congrArg DepositAddress.userId (UpdateBody.depositAddress.inj hb')
  · cases hx : s'.isExchangeAddress (btcAddress a) with
    | false => rfl
    | true =>
      rcases hg.exchange a hx with hx | hb'
      · rcases hg.given u a hu with hu | hb
        · rw [h.notExchange a u hu] at hx
          cases hx
        · rw [(hnew.unowned (Or.inl ⟨u, hb⟩)).2] at hx
          cases hx
      · rcases hg.given u a hu with hu | hb
        · exact absurd hu ((hnew.unowned (Or.inr hb')).1 u)
        · rw [hb] at hb'
          cases hb'

end State

end Hexstody
