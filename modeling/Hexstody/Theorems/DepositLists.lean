import Hexstody.Theorems.AddressOwners
import Mathlib.Data.List.TakeWhile

/-!
# The list of a user's deposits as a map

A user's transactions in bitcoins should be a map from outpoints to the last update that was delivered for each, from which a
cancellation removes an entry. The list is edited in place, by a search for the owner of the address over all users.
`deposit_list_last_writer` says that the list is that map for the outpoints of an address that one user alone registered and that
is never the exchange's, in every run and with any other updates in between; and that to deliver an update again changes nothing, to
cancel a new outpoint undoes its update, and events on different outpoints commute up to the order of the list.
-/

namespace Hexstody

/-! ## The last event for an outpoint -/

/-- The outpoint that an update, if it is an event of the chain, is about. -/
def UpdateBody.outpoint? : UpdateBody → Option (Txid × UInt32)
  | .updateBtcTx tx => some tx.key
  | .cancelBtcTx c => some c.key
  | _ => none

/-- The update is an event of the address, with an amount that is not negative. -/
def UpdateBody.IsEventOf (a : Address) : UpdateBody → Prop
  | .updateBtcTx tx => tx.address = a ∧ tx.amount ≥ 0
  | .cancelBtcTx c => c.address = a
  | _ => False

/-- `IsEventOf`, computed. -/
def UpdateBody.isEventOf (a : Address) : UpdateBody → Bool
  | .updateBtcTx tx => decide (tx.address = a ∧ tx.amount ≥ 0)
  | .cancelBtcTx c => decide (c.address = a)
  | _ => false

theorem UpdateBody.isEventOf_iff (a : Address) (b : UpdateBody) : b.isEventOf a = true ↔ b.IsEventOf a := by
  cases b with
  | updateBtcTx tx => exact decide_eq_true_iff
  | cancelBtcTx c => exact decide_eq_true_iff
  | _ => exact iff_of_false Bool.false_ne_true id

instance (a : Address) (b : UpdateBody) : Decidable (b.IsEventOf a) := decidable_of_iff _ (b.isEventOf_iff a)

/-- The update gives the address to the user. -/
def StateUpdate.registers (u : UserId) (a : Address) (up : StateUpdate) : Bool :=
  match up.body with
  | .depositAddress dep => decide (dep = { userId := u, address := State.btcAddress a })
  | _ => false

/-- The updates after the first that gives the address to the user. -/
def sinceRegistered (u : UserId) (a : Address) (us : List StateUpdate) : List StateUpdate :=
  (us.dropWhile (fun up => !up.registers u a)).tail

/-- The last of the updates that is an event for the outpoint. -/
def lastEvent (k : Txid × UInt32) (us : List StateUpdate) : Option UpdateBody :=
  ((us.map (·.body)).filter (fun b => decide (b.outpoint? = some k))).getLast?

theorem StateUpdate.registers_iff {u : UserId} {a : Address} {up : StateUpdate} :
    up.registers u a = true ↔ up.body = .depositAddress { userId := u, address := State.btcAddress a } := by
  unfold registers
  split
  · rename_i dep hb
    rw [decide_eq_true_iff, hb, UpdateBody.depositAddress.injEq]
  · rename_i hno
    exact ⟨fun h => (by cases h), fun h => absurd h (hno _)⟩

/-- One more update after the registration is one more since. -/
theorem sinceRegistered_concat {u : UserId} {a : Address} {us : List StateUpdate} (up : StateUpdate)
    (h : us.any (·.registers u a) = true) : sinceRegistered u a (us ++ [up]) = sinceRegistered u a us ++ [up] := by
  obtain ⟨x, hx, hreg⟩ := List.any_eq_true.mp h
  unfold sinceRegistered
  rw [List.dropWhile_append]
  cases hd : us.dropWhile (fun up => !up.registers u a) with
  | nil =>
    have hall := List.dropWhile_eq_nil_iff.mp hd x hx
    simp [hreg] at hall
  | cons y ys => simp

/-- Nothing is since a registration that is not there, or that is the last of the updates. -/
theorem sinceRegistered_of_unregistered {u : UserId} {a : Address} {us : List StateUpdate}
    (h : us.any (·.registers u a) = false) : sinceRegistered u a us = [] ∧ ∀ up, sinceRegistered u a (us ++ [up]) = [] := by
  have hnil : us.dropWhile (fun up => !up.registers u a) = [] := by
    rw [List.dropWhile_eq_nil_iff]
    intro x hx
    simpa using List.any_eq_false.mp h x hx
  constructor
  · rw [sinceRegistered, hnil]
    rfl
  · intro up
    rw [sinceRegistered, List.dropWhile_append, hnil]
    cases hup : up.registers u a <;> simp [hup]

theorem lastEvent_concat (k : Txid × UInt32) (us : List StateUpdate) (up : StateUpdate) :
    lastEvent k (us ++ [up]) = if up.body.outpoint? = some k then some up.body else lastEvent k us := by
  unfold lastEvent
  rw [List.map_append, List.filter_append]
  by_cases hk : up.body.outpoint? = some k
  · simp [hk]
  · simp [hk]

/-! ## What an event makes of a list -/

/-- The record is under another outpoint. -/
def Transaction.apart (k : Txid × UInt32) (t : Transaction) : Bool := decide (t.key? ≠ some k)

section Records

variable {l l' : List Transaction} {k k' : Txid × UInt32}

theorem filter_apart_eq_self (h : ∀ r, .btc r ∈ l → r.key ≠ k) : l.filter (Transaction.apart k) = l := by
  refine List.filter_eq_self.mpr (fun t ht => ?_)
  cases t with
  | btc r => simpa [Transaction.apart, Transaction.key?] using h r ht
  | eth e => simp [Transaction.apart, Transaction.key?]

/-- Where one record has the outpoint, the others are apart from it. -/
theorem KeysApart.filter_middle {pre post : List Transaction} {t : BtcTransaction} (h : KeysApart (pre ++ .btc t :: post)) :
    (pre ++ .btc t :: post).filter (Transaction.apart t.key) = pre ++ post := by
  have hothers := filter_apart_eq_self h.split
  rw [List.filter_append] at hothers
  rw [List.filter_append, List.filter_cons_of_neg (by simp [Transaction.apart, Transaction.key?]), hothers]

/-- An update leaves the others and puts its own record among them. -/
theorem KeysApart.recorded_perm (h : KeysApart l) (tx : BtcTransaction) :
    (Hexstody.recorded tx l).Perm (.btc tx :: l.filter (Transaction.apart tx.key)) := by
  obtain ⟨hnew, heq⟩ | ⟨pre, t, post, rfl, hk, heq⟩ := recorded_cases tx l
  · rw [heq, filter_apart_eq_self hnew]
    exact List.perm_append_singleton _ _
  · rw [heq, ← hk, h.filter_middle]
    exact List.perm_middle

/-- A cancellation leaves the others. -/
theorem KeysApart.unrecorded_eq (h : KeysApart l) (c : BtcTxCancel) :
    Hexstody.unrecorded c l = l.filter (Transaction.apart c.key) := by
  obtain ⟨hnone, heq⟩ | ⟨pre, t, post, rfl, hk, heq⟩ := unrecorded_cases c l
  · rw [heq, filter_apart_eq_self hnone]
  · rw [heq, ← hk, h.filter_middle]

/-- The list after an event. -/
def listAfter : UpdateBody → List Transaction → List Transaction
  | .updateBtcTx tx, l => recorded tx l
  | .cancelBtcTx c, l => unrecorded c l
  | _, l => l

/-- The record that an event leaves for its outpoint. -/
def recordOf : UpdateBody → List Transaction
  | .updateBtcTx tx => [.btc tx]
  | _ => []

theorem keysApart_listAfter (b : UpdateBody) (h : KeysApart l) : KeysApart (listAfter b l) := by
  cases b with
  | updateBtcTx tx => exact h.recorded
  | cancelBtcTx c => exact h.unrecorded
  | _ => exact h

/-- After an event for an outpoint, the list is what the event leaves for it and the other records. -/
theorem listAfter_perm {b : UpdateBody} (h : KeysApart l) (hb : b.outpoint? = some k) :
    (listAfter b l).Perm (recordOf b ++ l.filter (Transaction.apart k)) := by
  cases b with
  | updateBtcTx tx =>
    obtain rfl := Option.some.inj hb
    exact h.recorded_perm tx
  | cancelBtcTx c =>
    obtain rfl := Option.some.inj hb
    rw [listAfter, h.unrecorded_eq]
    exact List.Perm.refl _
  | _ => cases hb

theorem filter_recordOf {b : UpdateBody} (hb : b.outpoint? = some k) (hne : k ≠ k') :
    (recordOf b).filter (Transaction.apart k') = recordOf b := by
  cases b with
  | updateBtcTx tx =>
    obtain rfl := Option.some.inj hb
    simp [recordOf, Transaction.apart, Transaction.key?, hne]
  | _ => rfl

/-- The list after two events for different outpoints. -/
theorem listAfter_listAfter_perm {b b' : UpdateBody} (h : KeysApart l) (hb : b.outpoint? = some k)
    (hb' : b'.outpoint? = some k') (hne : k ≠ k') :
    (listAfter b' (listAfter b l)).Perm
      (recordOf b' ++ (recordOf b ++ (l.filter (Transaction.apart k)).filter (Transaction.apart k'))) := by
  have hfirst := (listAfter_perm h hb).filter (Transaction.apart k')
  rw [List.filter_append, filter_recordOf hb hne] at hfirst
  exact (listAfter_perm (keysApart_listAfter b h) hb').trans (hfirst.append_left _)

/-- Events for different outpoints commute, up to the order of the list. -/
theorem listAfter_comm {b b' : UpdateBody} (h : KeysApart l) (hb : b.outpoint? = some k) (hb' : b'.outpoint? = some k')
    (hne : k ≠ k') : (listAfter b' (listAfter b l)).Perm (listAfter b (listAfter b' l)) := by
  have hother := listAfter_listAfter_perm h hb' hb hne.symm
  rw [List.filter_comm] at hother
  exact (listAfter_listAfter_perm h hb hb' hne).trans ((List.perm_append_comm_assoc _ _ _).trans hother.symm)

/-- The same update once more changes nothing. -/
theorem recorded_recorded (h : KeysApart l) (tx : BtcTransaction) : recorded tx (recorded tx l) = recorded tx l := by
  obtain ⟨hnew, -⟩ | ⟨pre, t, post, hl, hk, heq⟩ := recorded_cases tx (recorded tx l)
  · exact absurd rfl (hnew tx ((mem_recorded h).mpr (Or.inl rfl)))
  · have ht : .btc t ∈ recorded tx l := by
      rw [hl]
      exact List.mem_append_right _ List.mem_cons_self
    obtain rfl : t = tx := ((mem_recorded h).mp ht).resolve_right (fun hold => hold.2 hk)
    rw [heq, hl]

/-- The cancellation of an update for a new outpoint undoes it. -/
theorem unrecorded_recorded (h : KeysApart l) {tx : BtcTransaction} {c : BtcTxCancel} (hk : c.key = tx.key)
    (hnew : ∀ r, .btc r ∈ l → r.key ≠ tx.key) : unrecorded c (recorded tx l) = l := by
  obtain ⟨-, heq⟩ | ⟨pre, t, post, rfl, ht, -⟩ := recorded_cases tx l
  · rw [h.recorded.unrecorded_eq, heq, hk, List.filter_append, filter_apart_eq_self hnew]
    simp [Transaction.apart, Transaction.key?]
  · exact absurd ht (hnew t (List.mem_append_right _ List.mem_cons_self))

/-- The record for the outpoint of an event is the one that it leaves. -/
theorem mem_listAfter {b : UpdateBody} (h : KeysApart l) (hb : b.outpoint? = some k) {r : BtcTransaction} :
    .btc r ∈ listAfter b l ∧ r.key = k ↔ b = .updateBtcTx r := by
  cases b with
  | updateBtcTx tx =>
    obtain rfl := Option.some.inj hb
    rw [listAfter, mem_recorded h, UpdateBody.updateBtcTx.injEq]
    constructor
    · rintro ⟨rfl | ⟨-, hne⟩, hk⟩
      · rfl
      · exact absurd hk hne
    · rintro rfl
      exact ⟨Or.inl rfl, rfl⟩
  | cancelBtcTx c =>
    obtain rfl := Option.some.inj hb
    rw [listAfter, mem_unrecorded h]
    constructor
    · rintro ⟨⟨-, hne⟩, hk⟩
      exact absurd hk hne
    · intro heq
      cases heq
  | _ => cases hb

/-- The records for other outpoints stay. -/
theorem mem_listAfter_other {b : UpdateBody} (h : KeysApart l) {r : BtcTransaction} (hb : b.outpoint? ≠ some r.key) :
    .btc r ∈ listAfter b l ↔ .btc r ∈ l := by
  cases b with
  | updateBtcTx tx =>
    have hne : r.key ≠ tx.key := fun heq => hb (congrArg some heq.symm)
    rw [listAfter, mem_recorded h]
    constructor
    · rintro (rfl | ⟨hr, -⟩)
      · exact absurd rfl hne
      · exact hr
    · exact fun hr => Or.inr ⟨hr, hne⟩
  | cancelBtcTx c =>
    have hne : r.key ≠ c.key := fun heq => hb (congrArg some heq.symm)
    rw [listAfter, mem_unrecorded h]
    exact and_iff_left hne
  | _ => exact Iff.rfl

end Records

namespace State

variable {s s' : State} {o : Oracle} {up : StateUpdate} {res : Option UpdateResult} {u : UserId} {a : Address}

/-! ## An event, and who has its address -/

/-- An event of an address of one user is recorded with that user. -/
theorem SoleOwner.deposits_event (h : s.SoleOwner u a) (hev : up.body.IsEventOf a) (happly : s.applyUpdate o up = (s', .ok res)) :
    s'.deposits u = listAfter up.body (s.deposits u) := by
  cases hb : up.body with
  | updateBtcTx tx =>
    rw [hb] at hev
    obtain ⟨rfl, hpos⟩ := hev
    exact h.deposits_update hpos hb happly
  | cancelBtcTx c =>
    rw [hb] at hev
    obtain rfl : c.address = a := hev
    exact h.deposits_cancel hb happly
  | _ => rw [hb] at hev; exact hev.elim

/-- An event gives out no address. -/
theorem SoleOwner.applyUpdate_event {a' : Address} (h : s.SoleOwner u a) (hev : up.body.IsEventOf a')
    (happly : s.applyUpdate o up = (s', .ok res)) : s'.SoleOwner u a := by
  have hs : ¬up.body.IsSnapshot := by
    intro hs
    cases hb : up.body <;> rw [hb] at hs hev <;> first | exact hs.elim | exact hev.elim
  constructor
  · exact h.owns.applyUpdate happly hs
  · intro u' hu'
    rcases owns_of_applyUpdate happly hs hu' with hu' | hb
    · exact h.alone u' hu'
    · rw [hb] at hev
      exact hev.elim
  · rw [isExchangeAddress_applyUpdate happly hs ?_]
    · exact h.notExchange
    · intro req hb
      rw [hb] at hev
      exact hev.elim

/-- An event of an address that nobody has is recorded nowhere. -/
theorem deposits_of_unowned (hno : ∀ u, ¬s.Owns u a) (hx : s.isExchangeAddress (btcAddress a) = false)
    (hev : up.body.IsEventOf a) (happly : s.applyUpdate o up = (s', .ok res)) : s'.deposits u = s.deposits u := by
  cases hb : up.body with
  | updateBtcTx tx =>
    rw [hb] at hev
    obtain ⟨rfl, -⟩ := hev
    unfold State.applyUpdate withBtcTxUpdate at happly
    simp only [hb, hx, Bool.false_eq_true, if_false, withDepositOwner_of_unowned (o := o) hno, stamped, Prod.mk.injEq] at happly
    rw [← happly.1]
    rfl
  | cancelBtcTx c =>
    rw [hb] at hev
    obtain rfl : c.address = a := hev
    have hx' : ¬s.isExchangeAddress (btcAddress c.address) = true := by
      rw [hx]
      exact Bool.false_ne_true
    unfold State.applyUpdate at happly
    simp only [hb, withBtcTxCancel_eq_afterReject hx' (withDepositOwner_of_unowned hno _), stamped, Prod.mk.injEq] at happly
    rw [← happly.1]
    exact deposits_afterReject s o c u
  | _ => rw [hb] at hev; exact hev.elim

/-- Whatever the update, a user's records for an outpoint that it is no event for stay. -/
theorem mem_deposits_other (hk : KeysApart (s.deposits u)) (hs : ¬up.body.IsSnapshot)
    (happly : s.applyUpdate o up = (s', .ok res)) {r : BtcTransaction} (hne : up.body.outpoint? ≠ some r.key) :
    .btc r ∈ s'.deposits u ↔ .btc r ∈ s.deposits u := by
  rcases applyUpdate_deposits happly hs u with heq | ⟨tx, hb, -, heq⟩ | ⟨c, hb, heq⟩
  · rw [heq]
  · rw [heq]
    exact mem_listAfter_other (b := .updateBtcTx tx) hk (hb ▸ hne)
  · rw [heq]
    exact mem_listAfter_other (b := .cancelBtcTx c) hk (hb ▸ hne)

/-! ## Runs -/

variable {P : State → UpdateBody → Prop} {us : List StateUpdate}

/-- (run) An address is a user's just when an update gave it. -/
theorem MadeBy.owns_iff (h : s.MadeBy EXCHANGE_NUMBER_OF_CONFIRMATIONS P us) (u : UserId) (a : Address) :
    s.Owns u a ↔ us.any (·.registers u a) = true := by
  refine h.invariant_number (I := fun s us => ∀ u a, s.Owns u a ↔ us.any (·.registers u a) = true) ?_ ?_ ?_ u a
  · intro now genesisHash u a
    exact iff_of_false (fun ⟨i, hi, _⟩ => by cases hi) Bool.false_ne_true
  · exact fun s us created hs => hs
  · intro s us o up s' res _ hs _ hsnap happly u a
    rw [List.any_append, Bool.or_eq_true, ← hs u a]
    simp only [List.any_cons, List.any_nil, Bool.or_false, StateUpdate.registers_iff]
    constructor
    · exact owns_of_applyUpdate happly hsnap
    · rintro (hu | hb)
      · exact hu.applyUpdate happly hsnap
      · exact State.owns_iff.mpr (mem_infoOf_depositAddress happly hb)

/-- (run) A bitcoin address is the exchange's only if an update set it. -/
theorem MadeBy.exists_of_isExchangeAddress (h : s.MadeBy EXCHANGE_NUMBER_OF_CONFIRMATIONS P us) {b : BtcAddress}
    (hx : s.isExchangeAddress (.btc b) = true) : ∃ up ∈ us, up.body = .exchangeAddress (.btc b) := by
  refine h.invariant_number (I := fun s us => ∀ b, s.isExchangeAddress (.btc b) = true →
    ∃ up ∈ us, up.body = .exchangeAddress (.btc b)) ?_ ?_ ?_ b hx
  · intro now genesisHash b hx
    cases hx
  · exact fun s us created hs => hs
  · intro s us o up s' res _ hs _ hsnap happly b hx
    have hold : s.isExchangeAddress (.btc b) = true → ∃ up' ∈ us ++ [up], up'.body = .exchangeAddress (.btc b) := by
      intro hold
      obtain ⟨up', hm, hb⟩ := hs b hold
      exact ⟨up', List.mem_append_left _ hm, hb⟩
    by_cases hset : ∃ req, up.body = .exchangeAddress req
    · obtain ⟨req, hb⟩ := hset
      rw [isExchangeAddress_set happly hb] at hx
      split at hx
      · exact ⟨up, List.mem_append_right _ (List.mem_singleton_self _), of_decide_eq_true hx ▸ hb⟩
      · exact hold hx
    · rw [isExchangeAddress_applyUpdate happly hsnap (fun req hb => hset ⟨req, hb⟩)] at hx
      exact hold hx

/-- No other user gets the address, and the exchange does not either. -/
structure GivenOnce (us : List StateUpdate) (u : UserId) (a : Address) : Prop where
  alone : ∀ up ∈ us, ∀ u', up.registers u' a = true → u' = u
  notExchange : ∀ up ∈ us, up.body ≠ .exchangeAddress (btcAddress a)

theorem MadeBy.not_exchange (h : s.MadeBy EXCHANGE_NUMBER_OF_CONFIRMATIONS P us) (hg : GivenOnce us u a) :
    s.isExchangeAddress (btcAddress a) = false := by
  cases hx : s.isExchangeAddress (btcAddress a) with
  | false => rfl
  | true =>
    obtain ⟨up, hm, hb⟩ := h.exists_of_isExchangeAddress hx
    exact absurd hb (hg.notExchange up hm)

theorem MadeBy.eq_of_owns (h : s.MadeBy EXCHANGE_NUMBER_OF_CONFIRMATIONS P us) (hg : GivenOnce us u a) {u' : UserId}
    (hu' : s.Owns u' a) : u' = u := by
  obtain ⟨up, hm, hreg⟩ := List.any_eq_true.mp ((h.owns_iff u' a).mp hu')
  exact hg.alone up hm u' hreg

/-- An address that one user alone got is that user's. -/
theorem MadeBy.soleOwner (h : s.MadeBy EXCHANGE_NUMBER_OF_CONFIRMATIONS P us) (hg : GivenOnce us u a)
    (hreg : us.any (·.registers u a) = true) : s.SoleOwner u a :=
  ⟨(h.owns_iff u a).mpr hreg, fun _ hu' => h.eq_of_owns hg hu', h.not_exchange hg⟩

/-- Every event for the outpoint is one of the address. -/
def EventsAgree (us : List StateUpdate) (k : Txid × UInt32) (a : Address) : Prop :=
  ∀ up ∈ us, up.body.outpoint? = some k → up.body.IsEventOf a

/-- What is the last event since the registration, after an update that is no event for the outpoint. -/
theorem lastEvent_other {k : Txid × UInt32} (hk : up.body.outpoint? ≠ some k) :
    lastEvent k (sinceRegistered u a (us ++ [up])) = lastEvent k (sinceRegistered u a us) := by
  cases hreg : us.any (·.registers u a) with
  | true => rw [sinceRegistered_concat up hreg, lastEvent_concat, if_neg hk]
  | false =>
    obtain ⟨hnil, hnil'⟩ := sinceRegistered_of_unregistered hreg
    rw [hnil, hnil']

/-- (run) The record for an outpoint is that of the last event for it since the registration, if that is an update. -/
theorem MadeBy.entry_iff (h : s.MadeBy EXCHANGE_NUMBER_OF_CONFIRMATIONS P us) {k : Txid × UInt32} (hg : GivenOnce us u a)
    (hagree : EventsAgree us k a) (r : BtcTransaction) :
    .btc r ∈ s.deposits u ∧ r.key = k ↔ lastEvent k (sinceRegistered u a us) = some (.updateBtcTx r) := by
  refine h.invariant_number (I := fun s us => GivenOnce us u a → EventsAgree us k a →
    (.btc r ∈ s.deposits u ∧ r.key = k ↔ lastEvent k (sinceRegistered u a us) = some (.updateBtcTx r))) ?_ ?_ ?_ hg hagree
  · intro now genesisHash _ _
    exact iff_of_false (fun ⟨hr, _⟩ => by cases hr) (fun heq => by cases heq)
  · exact fun s us created hs => hs
  · intro s us o up s' res hmade ih _ hsnap happly hg hagree
    have hg₀ : GivenOnce us u a :=
      ⟨fun up hm => hg.alone up (List.mem_append_left _ hm), fun up hm => hg.notExchange up (List.mem_append_left _ hm)⟩
    specialize ih hg₀ (fun up hm => hagree up (List.mem_append_left _ hm))
    have hkeys : KeysApart (s.deposits u) := Reached.keysApart ⟨us, hmade⟩ u
    by_cases hk : up.body.outpoint? = some k
    · have hev := hagree up (List.mem_append_right _ (List.mem_singleton_self _)) hk
      cases hreg : us.any (·.registers u a) with
      | true =>
        rw [(hmade.soleOwner hg₀ hreg).deposits_event hev happly, mem_listAfter hkeys hk, sinceRegistered_concat up hreg,
          lastEvent_concat, if_pos hk, Option.some.injEq]
      | false =>
        -- the address is nobody's yet
        have hno : ∀ u', ¬s.Owns u' a := by
          intro u' hu'
          obtain rfl := hmade.eq_of_owns hg₀ hu'
          rw [(hmade.owns_iff _ a).mp hu'] at hreg
          cases hreg
        obtain ⟨hnil, hnil'⟩ := sinceRegistered_of_unregistered hreg
        rw [deposits_of_unowned hno (hmade.not_exchange hg₀) hev happly, ih, hnil, hnil']
    · rw [lastEvent_other hk, ← ih]
      refine and_congr_left (fun hrk => ?_)
      exact mem_deposits_other hkeys hsnap happly (hrk ▸ hk)

/-! ## The theorem -/

/-- In every run in which a user got a bitcoin address that no other user got and that was never the exchange's: no outpoint has two
records with the user; for an outpoint all of whose events are of that address, the record is that of the last event since the user
got the address, if that is an update; to deliver an update again changes nothing; to cancel a new outpoint undoes its update; and
events of this and another such address of the user for different outpoints commute up to the order of the list. -/
theorem deposit_list_last_writer (s : State) (us : List StateUpdate)
    (h : s.MadeBy EXCHANGE_NUMBER_OF_CONFIRMATIONS anyUpdate us) (u : UserId) (a : Address)
    (hreg : us.any (·.registers u a) = true) (hx : ∀ up ∈ us, up.body ≠ .exchangeAddress (btcAddress a))
    (halone : ∀ up ∈ us, ∀ u', up.registers u' a = true → u' = u) :
    KeysApart (s.deposits u) ∧
      (∀ k, EventsAgree us k a → ∀ r, .btc r ∈ s.deposits u ∧ r.key = k ↔
        lastEvent k (sinceRegistered u a us) = some (.updateBtcTx r)) ∧
      (∀ (tx : BtcTransaction) (o₁ o₂ : Oracle) (up₁ up₂ : StateUpdate) (s₁ s₂ : State) (res₁ res₂ : Option UpdateResult),
        (UpdateBody.updateBtcTx tx).IsEventOf a → up₁.body = .updateBtcTx tx → up₂.body = .updateBtcTx tx →
          s.applyUpdate o₁ up₁ = (s₁, .ok res₁) → s₁.applyUpdate o₂ up₂ = (s₂, .ok res₂) → s₂.deposits u = s₁.deposits u) ∧
      (∀ (tx : BtcTransaction) (c : BtcTxCancel) (o₁ o₂ : Oracle) (up₁ up₂ : StateUpdate) (s₁ s₂ : State)
        (res₁ res₂ : Option UpdateResult), (UpdateBody.updateBtcTx tx).IsEventOf a → c.address = a → c.key = tx.key →
          (∀ r, .btc r ∈ s.deposits u → r.key ≠ tx.key) → up₁.body = .updateBtcTx tx → up₂.body = .cancelBtcTx c →
            s.applyUpdate o₁ up₁ = (s₁, .ok res₁) → s₁.applyUpdate o₂ up₂ = (s₂, .ok res₂) → s₂.deposits u = s.deposits u) ∧
      ∀ (a' : Address) (k k' : Txid × UInt32) (o₁ o₂ o₃ o₄ : Oracle) (up up' : StateUpdate) (s₁ s₂ s₃ s₄ : State)
        (res₁ res₂ res₃ res₄ : Option UpdateResult), s.SoleOwner u a' → up.body.IsEventOf a → up'.body.IsEventOf a' →
          up.body.outpoint? = some k → up'.body.outpoint? = some k' → k ≠ k' →
            s.applyUpdate o₁ up = (s₁, .ok res₁) → s₁.applyUpdate o₂ up' = (s₂, .ok res₂) →
              s.applyUpdate o₃ up' = (s₃, .ok res₃) → s₃.applyUpdate o₄ up = (s₄, .ok res₄) →
                (s₂.deposits u).Perm (s₄.deposits u) := by
  have hg : GivenOnce us u a := ⟨halone, hx⟩
  have hsole : s.SoleOwner u a := h.soleOwner hg hreg
  have hkeys : KeysApart (s.deposits u) := Reached.keysApart ⟨us, h⟩ u
  refine ⟨hkeys, fun k hagree r => h.entry_iff hg hagree r, ?_, ?_, ?_⟩
  · intro tx o₁ o₂ up₁ up₂ s₁ s₂ res₁ res₂ hev hb₁ hb₂ happly₁ happly₂
    have hs₁ := hsole.applyUpdate_event (hb₁ ▸ hev) happly₁
    rw [hs₁.deposits_event (hb₂ ▸ hev) happly₂, hsole.deposits_event (hb₁ ▸ hev) happly₁, hb₁, hb₂]
    exact recorded_recorded hkeys tx
  · intro tx c o₁ o₂ up₁ up₂ s₁ s₂ res₁ res₂ hev hca hck hnew hb₁ hb₂ happly₁ happly₂
    have hs₁ := hsole.applyUpdate_event (hb₁ ▸ hev) happly₁
    have hevc : up₂.body.IsEventOf a := by
      rw [hb₂]
      exact hca
    rw [hs₁.deposits_event hevc happly₂, hsole.deposits_event (hb₁ ▸ hev) happly₁, hb₁, hb₂]
    exact unrecorded_recorded hkeys hck hnew
  · intro a' k k' o₁ o₂ o₃ o₄ up up' s₁ s₂ s₃ s₄ res₁ res₂ res₃ res₄ hsole' hev hev' hk hk' hne h₁ h₂ h₃ h₄
    rw [(hsole'.applyUpdate_event hev h₁).deposits_event hev' h₂, hsole.deposits_event hev h₁,
      (hsole.applyUpdate_event hev' h₃).deposits_event hev h₄, hsole'.deposits_event hev' h₃]
    exact listAfter_comm hkeys hk hk' hne

end State

namespace Sample

/-- The cancellation of the deposit. -/
def depositCancel : BtcTxCancel where
  direction := .deposit
  txid := ⟨"tx"⟩
  vout := 0
  address := ⟨"addr"⟩
  amount := 1000
  timestamp := ⟨0⟩
  conflicts := []

/-- A search that finds a user before all others. -/
def searching (u : UserId) (a : Oracle × StateUpdate) : Oracle × StateUpdate := ({ a.1 with users := .first u }, a.2)

/-- The update is a cancellation. -/
def isCancel : UpdateBody → Bool
  | .cancelBtcTx _ => true
  | _ => false

/-- The update delivers the deposit. -/
def delivers : UpdateBody → Bool
  | .updateBtcTx tx => decide (tx = deposit 1000)
  | _ => false

theorem eq_of_delivers {b : UpdateBody} (h : delivers b = true) : b = .updateBtcTx (deposit 1000) := by
  cases b with
  | updateBtcTx tx => exact congrArg UpdateBody.updateBtcTx (of_decide_eq_true h)
  | _ => cases h

/-- The outpoint of the deposit. -/
def outpoint : Txid × UInt32 := (deposit 1000).key

/-- The update gives the address to no other user and not to the exchange. -/
def givesAtMost (u : UserId) (a : Address) (up : StateUpdate) : Bool :=
  match up.body with
  | .depositAddress dep => decide (dep.address = State.btcAddress a → dep.userId = u)
  | .exchangeAddress req => decide (req ≠ State.btcAddress a)
  | _ => true

theorem givesAtMost_spec {u : UserId} {a : Address} {up : StateUpdate} (h : givesAtMost u a up = true) :
    up.body ≠ .exchangeAddress (State.btcAddress a) ∧ ∀ u', up.registers u' a = true → u' = u := by
  unfold givesAtMost at h
  constructor
  · intro hb
    rw [hb] at h
    exact of_decide_eq_true h rfl
  · intro u' hreg
    rw [StateUpdate.registers_iff.mp hreg] at h
    exact of_decide_eq_true h rfl

end Sample

namespace State

open Sample in
/-- Alice's deposit is delivered, cancelled, and delivered twice; she has it once. -/
theorem deposit_list_run : ∃ (s : State) (us : List StateUpdate), s.MadeBy EXCHANGE_NUMBER_OF_CONFIRMATIONS anyUpdate us ∧
    us.map (fun up => isCancel up.body) = List.replicate 6 false ++ [true, false, false] ∧
      KeysApart (s.deposits alice) ∧ .btc (deposit 1000) ∈ s.deposits alice := by
  obtain ⟨j, hj, hq⟩ := Machine.exists_reachable (P := fun (_ : Journal) (a : Oracle × StateUpdate) => ¬a.2.body.IsSnapshot)
    (twoUsers ++ [upd 6 (.updateBtcTx (deposit 1000)), upd 7 (.cancelBtcTx depositCancel),
      upd 8 (.updateBtcTx (deposit 1000)), upd 9 (.updateBtcTx (deposit 1000))])
    (q := fun j => decide (
      j.updates.map (fun up => isCancel up.body) = List.replicate 6 false ++ [true, false, false] ∧
      j.updates.any (·.registers alice ⟨"addr"⟩) = true ∧
      (∀ up ∈ j.updates, givesAtMost alice ⟨"addr"⟩ up = true) ∧
      (∀ up ∈ j.updates, up.body.outpoint? = some outpoint → up.body.IsEventOf ⟨"addr"⟩) ∧
      (lastEvent outpoint (sinceRegistered alice ⟨"addr"⟩ j.updates)).any delivers = true)) start_init (by decide)
  obtain ⟨hcancel, hreg, hgives, hagree, hlast⟩ := of_decide_eq_true hq
  have hmade := Journal.madeBy_updates (P := anyUpdate) (fun _ _ h => ⟨trivial, h⟩) hj
  obtain ⟨hkeys, hentry, -⟩ := deposit_list_last_writer j.state _ hmade alice ⟨"addr"⟩ hreg
    (fun up hm => (givesAtMost_spec (hgives up hm)).1) (fun up hm => (givesAtMost_spec (hgives up hm)).2)
  obtain ⟨b, hb, hdelivers⟩ := (Option.any_eq_true _ _).mp hlast
  rw [eq_of_delivers hdelivers] at hb
  exact ⟨j.state, _, hmade, hcancel, hkeys, ((hentry outpoint hagree (deposit 1000)).mpr hb).1⟩

open Sample in
/-- Bob gets alice's address too, and the search over the users meets alice first. A deposit to the address is recorded with alice: bob
has no record of it, though its last event since he got the address is an update. -/
theorem deposit_list_missed :
    ¬∀ (s : State) (us : List StateUpdate), s.MadeBy EXCHANGE_NUMBER_OF_CONFIRMATIONS anyUpdate us → ∀ u a,
      us.any (·.registers u a) = true → (∀ up ∈ us, up.body ≠ .exchangeAddress (btcAddress a)) → ∀ k, EventsAgree us k a →
        ∀ r, .btc r ∈ s.deposits u ∧ r.key = k ↔ lastEvent k (sinceRegistered u a us) = some (.updateBtcTx r) := by
  obtain ⟨j, hj, hq⟩ := Machine.exists_reachable (P := fun (_ : Journal) (a : Oracle × StateUpdate) => ¬a.2.body.IsSnapshot)
    (twoUsers ++ [upd 6 (.depositAddress { userId := bob, address := .btc { addr := "addr" } }),
      searching alice (upd 7 (.updateBtcTx (deposit 1000)))])
    (q := fun j => decide (
      j.updates.any (·.registers bob ⟨"addr"⟩) = true ∧
      (∀ up ∈ j.updates, (givesAtMost alice ⟨"addr"⟩ up || up.registers bob ⟨"addr"⟩) = true) ∧
      (∀ up ∈ j.updates, up.body.outpoint? = some outpoint → up.body.IsEventOf ⟨"addr"⟩) ∧
      Transaction.btc (deposit 1000) ∉ j.state.deposits bob ∧
      (lastEvent outpoint (sinceRegistered bob ⟨"addr"⟩ j.updates)).any delivers = true)) start_init (by decide)
  obtain ⟨hreg, hgives, hagree, hmissed, hlast⟩ := of_decide_eq_true hq
  intro h
  have hmade := Journal.madeBy_updates (P := anyUpdate) (fun _ _ h => ⟨trivial, h⟩) hj
  have hx : ∀ up ∈ j.updates, up.body ≠ .exchangeAddress (btcAddress ⟨"addr"⟩) := by
    intro up hm
    rcases Bool.or_eq_true_iff.mp (hgives up hm) with hg | hbob
    · exact (givesAtMost_spec hg).1
    · rw [StateUpdate.registers_iff.mp hbob]
      exact UpdateBody.noConfusion
  obtain ⟨b, hb, hdelivers⟩ := (Option.any_eq_true _ _).mp hlast
  rw [eq_of_delivers hdelivers] at hb
  exact hmissed ((h j.state _ hmade bob ⟨"addr"⟩ hreg hx outpoint hagree (deposit 1000)).mpr hb).1

end State

end Hexstody
