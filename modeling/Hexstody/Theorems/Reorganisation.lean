import Hexstody.Lemmas.Balance
import Hexstody.Lemmas.Following

/-!
# Whether a reorganisation is neutral

When the block of a transaction is disconnected, a scan cancels the outputs of the transaction that the wallet receives, and tells
them again, unconfirmed. The cancellation removes the deposits and rejects the withdrawal that the transaction completed; the
update brings the deposits back, and nothing brings back the withdrawal. Where there is none (or the outputs all go to the
exchange, where the search for one is left out), and each output is recorded and counts unconfirmed for what it counts now
(`State.Restores`), every balance is afterwards what it was (`reorganisation_neutral`).
-/

namespace Hexstody

open State Wrapping

/-! ## Who keeps deposits -/

inductive Holder where
  | user (u : UserId)
  | exchange

/-- What a record is worth to a holder. The exchange counts what is in conflict, too. -/
def BtcTransaction.worthTo (r : BtcTransaction) : Holder → Int
  | .user _ => (Transaction.btc r).counted
  | .exchange => r.amount.toInt

namespace State

/-- The deposits that a holder keeps. -/
def held (s : State) : Holder → List Transaction
  | .user u => s.deposits u
  | .exchange => s.exchangeState.deposits

/-- The address is one of a holder. -/
def Holds (s : State) : Holder → Address → Prop
  | .user u, a => s.Owns u a
  | .exchange, a => s.isExchangeAddress (btcAddress a) = true

/-- What a holder's deposits are worth, or what the exchange has on its balance in bitcoins. -/
def worth (s : State) : Holder → Int
  | .user u => ((s.deposits u).map Transaction.counted).sum
  | .exchange => s.exchangeState.balance .btc

/-- Each address has one holder, and no holder keeps two records of one output. -/
structure HeldApart (s : State) : Prop where
  apart : s.AddressesApart
  keys : ∀ h, KeysApart (s.held h)

/-- The balance of an account. -/
def balance? (s : State) (u : UserId) (c : Currency) : Option UInt64 := (s.currency? u c).map (·.balance)

/-- The State after some events. -/
def acceptAll (s : State) (l : List (Oracle × NaiveDateTime × BtcEvent)) : State :=
  l.foldl (fun s x => s.acceptEvent x.1 x.2.1 x.2.2) s

end State

/-! ## The transaction -/

/-- The entries of a transaction that is unconfirmed again. What is sent is negative, and an output is received once. -/
structure UnconfirmedAgain (t : Txid) (outs : List ListTransactionResult) : Prop where
  txid : ∀ e ∈ outs, e.txid = t
  unconfirmed : ∀ e ∈ outs, e.confirmations = 0
  received : ∀ e ∈ outs, e.category = .receive → 0 ≤ e.amount
  sent : ∀ e ∈ outs, e.category = .send → e.amount < 0
  once : (outs.filter (·.category = .receive)).Pairwise (fun e e' => e.vout ≠ e'.vout)

/-- The events of a scan that finds a transaction unconfirmed again. -/
def reorganisation (outs : List ListTransactionResult) (best : BlockHash) : List BtcEvent :=
  (scanFrom { transactions := outs, removed := outs, lastblock := best }).1

/-- The outputs that are received at an address. -/
def receipts (outs : List ListTransactionResult) : List (ListTransactionResult × Address) :=
  outs.filterMap fun e => if e.category = .receive then e.address.map (fun a => (e, a)) else none

/-- The record of a receipt, as it is told. -/
def receipt (p : ListTransactionResult × Address) : BtcTransaction := BtcEvent.toBtcTransaction (p.1.deposit p.2)

/-- A holder has a record of a receipt; a user's counts for what it will count for when it is told. -/
def State.Recorded (s : State) (h : Holder) (p : ListTransactionResult × Address) : Prop :=
  ∃ r, .btc r ∈ s.held h ∧ r.key = (receipt p).key ∧ ∀ u, h = .user u → r.worthTo h = (receipt p).worthTo h

/-- What a reorganisation takes away it brings back: the transaction completed no withdrawal, or the outputs all go to the
exchange; and each output that has a holder is recorded, and counts for what it will count for unconfirmed. -/
structure State.Restores (s : State) (t : Txid) (outs : List ListTransactionResult) : Prop where
  withdrawals : s.NoneCompleted t ∨ ∀ p ∈ receipts outs, s.isExchangeAddress (btcAddress p.2) = true
  recorded : ∀ p ∈ receipts outs, ∀ h, s.Holds h p.2 → s.Recorded h p

section Receipts

variable {t : Txid} {outs : List ListTransactionResult}

theorem mem_receipts {p : ListTransactionResult × Address} (h : p ∈ receipts outs) :
    p.1 ∈ outs ∧ p.1.category = .receive ∧ p.1.address = some p.2 := by
  obtain ⟨e, he, hp⟩ := List.mem_filterMap.mp h
  by_cases hc : e.category = .receive
  · rw [if_pos hc] at hp
    obtain ⟨a, ha, rfl⟩ := Option.map_eq_some_iff.mp hp
    exact ⟨he, hc, ha⟩
  · rw [if_neg hc] at hp
    cases hp

/-- What is cancelled is what was received. -/
theorem filterMap_toRemoveEvent (h : UnconfirmedAgain t outs) :
    outs.filterMap toRemoveEvent = (receipts outs).map (fun p => .cancel (p.1.cancellation p.2)) := by
  rw [receipts, List.map_filterMap]
  refine List.filterMap_congr (fun e he => ?_)
  by_cases hc : e.category = .receive
  · rw [if_pos hc]
    cases ha : e.address with
    | none =>
      unfold toRemoveEvent
      rw [ha]
      cases txDirection e <;> rfl
    | some a => exact ListTransactionResult.toRemoveEvent_cancellation hc ha (h.received e he hc)
  · rw [if_neg hc]
    unfold toRemoveEvent
    cases hd : txDirection e with
    | none => rfl
    | some direction =>
      cases ha : e.address with
      | none => rfl
      | some a =>
        have hsend : e.category = .send := by
          unfold txDirection at hd
          split at hd
          · exact absurd ‹_› hc
          · assumption
          · cases hd
        exact if_pos (h.sent e he hsend)

/-- The event is an update for a deposit. -/
def BtcEvent.isDeposit : BtcEvent → Bool
  | .update upd => upd.direction == .deposit
  | .cancel _ => false

/-- What is told of deposits is what was received. -/
theorem filter_toUpdateEvent (h : UnconfirmedAgain t outs) :
    (outs.filterMap toUpdateEvent).filter (·.isDeposit) = (receipts outs).map (fun p => .update (p.1.deposit p.2)) := by
  rw [receipts, List.map_filterMap, List.filter_filterMap]
  refine List.filterMap_congr (fun e he => ?_)
  have h0 : 0 ≤ e.confirmations := by
    rw [h.unconfirmed e he]
    exact Int32.le_refl 0
  by_cases hc : e.category = .receive
  · rw [if_pos hc]
    cases ha : e.address with
    | none =>
      have hnone : toUpdateEvent e = none := by
        unfold toUpdateEvent
        rw [ha]
        cases txDirection e <;> rfl
      rw [hnone]
      rfl
    | some a =>
      rw [ListTransactionResult.toUpdateEvent_deposit hc ha h0]
      rfl
  · rw [if_neg hc]
    cases hu : toUpdateEvent e with
    | none => rfl
    | some x =>
      cases x with
      | cancel c => exact absurd hu ListTransactionResult.toUpdateEvent_ne_cancel
      | update upd =>
        cases hdir : upd.direction with
        | deposit => exact absurd (ListTransactionResult.eq_deposit hu hdir).1 hc
        | withdraw => simp [Option.filter, BtcEvent.isDeposit, hdir]

/-- Different receipts are of different outputs. -/
theorem receipts_apart (h : UnconfirmedAgain t outs) :
    (receipts outs).Pairwise (fun p p' => (receipt p).key ≠ (receipt p').key) := by
  have key : ∀ outs : List ListTransactionResult,
      (outs.filter (·.category = .receive)).Pairwise (fun e e' => e.vout ≠ e'.vout) →
      (receipts outs).Pairwise (fun p p' => (receipt p).key ≠ (receipt p').key) := by
    intro outs
    induction outs with
    | nil => exact fun _ => .nil
    | cons e outs ih =>
      intro hp
      by_cases hc : e.category = .receive
      · rw [List.filter_cons_of_pos (by simpa using hc), List.pairwise_cons] at hp
        have hrest := ih hp.2
        cases ha : e.address with
        | none =>
          have : receipts (e :: outs) = receipts outs := by simp [receipts, hc, ha]
          rwa [this]
        | some a =>
          have : receipts (e :: outs) = (e, a) :: receipts outs := by simp [receipts, hc, ha]
          rw [this, List.pairwise_cons]
          refine ⟨fun p hin heq => ?_, hrest⟩
          obtain ⟨hmem, hc', -⟩ := mem_receipts hin
          exact hp.1 p.1 (List.mem_filter.mpr ⟨hmem, by simpa using hc'⟩) (congrArg Prod.snd heq)
      · rw [List.filter_cons_of_neg (by simpa using hc)] at hp
        have : receipts (e :: outs) = receipts outs := by simp [receipts, hc]
        rw [this]
        exact ih hp
  exact key outs h.once

end Receipts

/-! ## One event -/

theorem sum_counted_middle (pre post : List Transaction) (t : Transaction) :
    ((pre ++ t :: post).map Transaction.counted).sum = ((pre ++ post).map Transaction.counted).sum + t.counted := by
  simp only [List.map_append, List.map_cons, List.sum_append, List.sum_cons]
  omega

/-- A deposit that is not there yet counts for what it is worth. -/
theorem sum_recorded {tx : BtcTransaction} {l : List Transaction} (h : ∀ r, .btc r ∈ l → r.key ≠ tx.key) :
    ((recorded tx l).map Transaction.counted).sum = (l.map Transaction.counted).sum + (Transaction.btc tx).counted := by
  obtain ⟨-, heq⟩ | ⟨pre, t, post, rfl, hkey, -⟩ := recorded_cases tx l
  · rw [heq, sum_counted_middle, List.append_nil]
  · exact absurd hkey (h t (by simp))

/-- A deposit that is removed counts no more. -/
theorem sum_unrecorded {c : BtcTxCancel} {r : BtcTransaction} {l : List Transaction} (hl : KeysApart l) (hr : .btc r ∈ l)
    (hkey : r.key = c.key) :
    ((unrecorded c l).map Transaction.counted).sum = (l.map Transaction.counted).sum - (Transaction.btc r).counted := by
  obtain ⟨hnone, -⟩ | ⟨pre, t, post, rfl, ht, heq⟩ := unrecorded_cases c l
  · exact absurd hkey (hnone r hr)
  · -- the record with the key is this one
    have hsame : r = t := by
      by_contra hne
      have hrest : .btc r ∈ pre ++ post := by
        simp only [List.mem_append, List.mem_cons, Transaction.btc.injEq] at hr ⊢
        rcases hr with hr | hr | hr
        · exact Or.inl hr
        · exact absurd hr hne
        · exact Or.inr hr
      exact hl.split r hrest (hkey.trans ht.symm)
    rw [heq, sum_counted_middle, hsame]
    omega

namespace ExchangeState

variable {e : ExchangeState}

theorem processIncomingBtcTx_deposits {tx : BtcTransaction} (h : tx.amount ≥ 0) :
    (e.processIncomingBtcTx tx).deposits = recorded tx e.deposits := by
  unfold processIncomingBtcTx recorded
  rw [if_pos h]
  cases replaceBtcTx (·.isSameBtcTx tx) tx e.deposits <;> rfl

theorem cancelBtcTx_deposits {c : BtcTxCancel} : (e.cancelBtcTx c).deposits = unrecorded c e.deposits := by
  unfold cancelBtcTx unrecorded
  cases removeBtcTx (·.isSameBtcTxCancel c) e.deposits <;> rfl

/-- A deposit that is not there yet is added to the balance. -/
theorem wrapped_processIncomingBtcTx {tx : BtcTransaction} (h : tx.amount ≥ 0) (hnew : ∀ r, .btc r ∈ e.deposits → r.key ≠ tx.key) :
    Wrapped (e.balance .btc + tx.amount.toInt) ((e.processIncomingBtcTx tx).balance .btc) := by
  have hnone : firstBtcTx? (·.isSameBtcTx tx) e.deposits = none := by
    cases hf : firstBtcTx? (·.isSameBtcTx tx) e.deposits with
    | none => rfl
    | some t =>
      obtain ⟨pre, post, hd, hp, -, -⟩ := firstBtcTx?_eq_some hf
      exact absurd ((BtcTransaction.isSameBtcTx_iff t tx).mp hp) (hnew t (by rw [hd]; simp))
  unfold processIncomingBtcTx balance
  rw [if_pos h, (firstBtcTx?_eq_none hnone).1 tx]
  simp only
  rw [getD_addOrInsert, if_pos rfl]
  exact wrapped_add_signed _ _

/-- A deposit that is there is taken from the balance. -/
theorem wrapped_cancelBtcTx {c : BtcTxCancel} {r : BtcTransaction} (hr : .btc r ∈ e.deposits) (hkey : r.key = c.key) :
    Wrapped (e.balance .btc - c.amount.toInt64.toInt) ((e.cancelBtcTx c).balance .btc) := by
  cases hf : firstBtcTx? (·.isSameBtcTxCancel c) e.deposits with
  | none =>
    have hfalse : r.isSameBtcTxCancel c = false := firstBtcTx?_none hf r hr
    rw [(BtcTransaction.isSameBtcTxCancel_iff r c).mpr hkey] at hfalse
    cases hfalse
  | some t =>
    obtain ⟨pre, post, -, -, -, hd⟩ := firstBtcTx?_eq_some hf
    have hsub : (e.balances.modifyOrInsert .btc (· - c.amount.toInt64) (-c.amount.toInt64)).get? .btc =
        (e.balances.modifyOrInsert .btc (· + -c.amount.toInt64) (-c.amount.toInt64)).get? .btc := by
      simp only [Int64.sub_eq_add_neg]
    unfold cancelBtcTx balance
    rw [hd]
    simp only
    rw [hsub, getD_addOrInsert, if_pos rfl, ← Int64.sub_eq_add_neg]
    exact wrapped_sub_signed _ _

end ExchangeState

namespace State

variable {s s' s'' : State} {tx : BtcTransaction} {c : BtcTxCancel} {p : ListTransactionResult × Address}

theorem held_worth_user {u : UserId} (h : s'.deposits u = s.deposits u) :
    s'.held (.user u) = s.held (.user u) ∧ s'.worth (.user u) = s.worth (.user u) :=
  ⟨h, congrArg (fun l => (l.map Transaction.counted).sum) h⟩

theorem held_worth_exchange (h : s'.exchangeState = s.exchangeState) :
    s'.held .exchange = s.held .exchange ∧ s'.worth .exchange = s.worth .exchange :=
  ⟨congrArg ExchangeState.deposits h, congrArg (·.balance .btc) h⟩

theorem Deposited.held_of_holds {h : Holder} (hd : s.Deposited s' tx) (hpos : tx.amount ≥ 0) (hh : s.Holds h tx.address) :
    s'.held h = recorded tx (s.held h) := by
  cases h with
  | user u => exact hd.owner u hh
  | exchange =>
    have hx := hd.exchange.trans (if_pos hh)
    change s'.exchangeState.deposits = recorded tx s.exchangeState.deposits
    rw [hx, ExchangeState.processIncomingBtcTx_deposits hpos]

theorem Deposited.other_holders {h : Holder} (hd : s.Deposited s' tx) (hh : ¬s.Holds h tx.address) :
    s'.held h = s.held h ∧ s'.worth h = s.worth h := by
  cases h with
  | user u => exact held_worth_user (hd.other u hh)
  | exchange => exact held_worth_exchange (hd.exchange.trans (if_neg hh))

theorem Undeposited.held_of_holds {h : Holder} (hd : s.Undeposited s' c) (hh : s.Holds h c.address) :
    s'.held h = unrecorded c (s.held h) := by
  cases h with
  | user u => exact hd.owner u hh
  | exchange =>
    have hx := hd.exchange.trans (if_pos hh)
    change s'.exchangeState.deposits = unrecorded c s.exchangeState.deposits
    rw [hx, ExchangeState.cancelBtcTx_deposits]

theorem Undeposited.other_holders {h : Holder} (hd : s.Undeposited s' c) (hh : ¬s.Holds h c.address) :
    s'.held h = s.held h ∧ s'.worth h = s.worth h := by
  cases h with
  | user u => exact held_worth_user (hd.other u hh)
  | exchange => exact held_worth_exchange (hd.exchange.trans (if_neg hh))

/-- What is held after a deposit is the new record, or was held before. -/
theorem Deposited.of_mem_held {h : Holder} {r : BtcTransaction} (hd : s.Deposited s' tx) (hs : s.HeldApart) (hpos : tx.amount ≥ 0)
    (hr : .btc r ∈ s'.held h) : r = tx ∨ .btc r ∈ s.held h := by
  by_cases hh : s.Holds h tx.address
  · rw [hd.held_of_holds hpos hh, mem_recorded (hs.keys h)] at hr
    exact hr.imp_right And.left
  · rw [(hd.other_holders hh).1] at hr
    exact Or.inr hr

/-- What is held after a cancellation was held before, and is not of the output that was cancelled. -/
theorem Undeposited.mem_held {h : Holder} {r : BtcTransaction} (hd : s.Undeposited s' c) (hs : s.HeldApart) :
    .btc r ∈ s'.held h ↔ .btc r ∈ s.held h ∧ (s.Holds h c.address → r.key ≠ c.key) := by
  by_cases hh : s.Holds h c.address
  · rw [hd.held_of_holds hh, mem_unrecorded (hs.keys h)]
    exact and_congr_right (fun _ => ⟨fun hne _ => hne, fun hne => hne hh⟩)
  · rw [(hd.other_holders hh).1]
    exact ⟨fun hr => ⟨hr, fun hh' => absurd hh' hh⟩, fun hr => hr.1⟩

theorem HeldApart.deposited (hs : s.HeldApart) (hd : s.Deposited s' tx) (hpos : tx.amount ≥ 0) : s'.HeldApart := by
  refine ⟨hs.apart.of_same hd.addresses, fun h => ?_⟩
  by_cases hh : s.Holds h tx.address
  · rw [hd.held_of_holds hpos hh]
    exact (hs.keys h).recorded
  · rw [(hd.other_holders hh).1]
    exact hs.keys h

theorem HeldApart.undeposited (hs : s.HeldApart) (hd : s.Undeposited s' c) : s'.HeldApart := by
  refine ⟨hs.apart.of_same hd.addresses, fun h => ?_⟩
  by_cases hh : s.Holds h c.address
  · rw [hd.held_of_holds hh]
    exact (hs.keys h).unrecorded
  · rw [(hd.other_holders hh).1]
    exact hs.keys h

theorem SameAddresses.holds (h : s.SameAddresses s') (holder : Holder) (a : Address) :
    s'.Holds holder a ↔ s.Holds holder a := by
  cases holder with
  | user u => exact h.owns u a
  | exchange =>
    change s'.isExchangeAddress (btcAddress a) = true ↔ s.isExchangeAddress (btcAddress a) = true
    rw [h.exchange]

theorem SameAddresses.trans (h : s.SameAddresses s') (h' : s'.SameAddresses s'') : s.SameAddresses s'' :=
  ⟨fun u a => (h'.owns u a).trans (h.owns u a), fun a => (h'.exchange a).trans (h.exchange a)⟩

theorem OnlyDeposits.trans (h : s.OnlyDeposits s') (h' : s'.OnlyDeposits s'') : s.OnlyDeposits s'' := by
  intro u c
  rw [h' u c, h u c, Option.map_map]
  congr 1
  funext i
  by_cases hc : c = .btc
  · simp [hc]
  · simp [hc]

/-! ## A part of the events -/

/-- Only deposits change, and what a holder's are worth changes by so much. -/
structure Moved (s s' : State) (d : Holder → Int) : Prop where
  apart : s'.HeldApart
  addresses : s.SameAddresses s'
  accounts : s.OnlyDeposits s'
  worth : ∀ h, Wrapped (s.worth h + d h) (s'.worth h)

theorem Moved.refl (hs : s.HeldApart) : s.Moved s (fun _ => 0) where
  apart := hs
  addresses := ⟨fun _ _ => Iff.rfl, fun _ => rfl⟩
  accounts := onlyDeposits_of_users rfl
  worth h := by
    rw [add_zero]
    exact .refl _

theorem Moved.trans {d d' : Holder → Int} (h : s.Moved s' d) (h' : s'.Moved s'' d') : s.Moved s'' (fun x => d x + d' x) where
  apart := h'.apart
  addresses := h.addresses.trans h'.addresses
  accounts := h.accounts.trans h'.accounts
  worth x := by
    rw [← add_assoc]
    exact ((h.worth x).add (.refl (d' x))).trans (h'.worth x)

open Classical in
/-- What a receipt is worth to a holder: nothing, unless its address is his. -/
noncomputable def share (s : State) (h : Holder) (p : ListTransactionResult × Address) : Int :=
  if s.Holds h p.2 then (receipt p).worthTo h else 0

theorem SameAddresses.share (h : s.SameAddresses s') (holder : Holder) (p : ListTransactionResult × Address) :
    s'.share holder p = s.share holder p := by
  unfold State.share
  by_cases hh : s.Holds holder p.2
  · rw [if_pos hh, if_pos ((h.holds holder p.2).mpr hh)]
  · rw [if_neg hh, if_neg (fun hh' => hh ((h.holds holder p.2).mp hh'))]

/-- (step) A receipt that no holder has is told. -/
theorem Deposited.moved (hs : s.HeldApart) (hd : s.Deposited s' (receipt p)) (hpos : 0 ≤ (receipt p).amount)
    (hnew : ∀ h, s.Holds h p.2 → ∀ r, .btc r ∈ s.held h → r.key ≠ (receipt p).key) : s.Moved s' (fun h => s.share h p) where
  apart := hs.deposited hd hpos
  addresses := hd.addresses
  accounts := hd.accounts
  worth h := by
    unfold share
    by_cases hh : s.Holds h p.2
    · rw [if_pos hh]
      cases h with
      | user u =>
        have hu : s'.deposits u = recorded (receipt p) (s.deposits u) := hd.owner u hh
        have hnew' : ∀ r, .btc r ∈ s.deposits u → r.key ≠ (receipt p).key := hnew (.user u) hh
        simp only [worth]
        rw [hu, sum_recorded hnew']
        exact .refl _
      | exchange =>
        have hx := hd.exchange.trans (if_pos hh)
        simp only [worth]
        rw [hx]
        exact ExchangeState.wrapped_processIncomingBtcTx hpos (hnew _ hh)
    · rw [if_neg hh, add_zero, (hd.other_holders hh).2]
      exact .refl _

/-- (step) A receipt that its holder has is cancelled. -/
theorem Undeposited.moved (hs : s.HeldApart) (hd : s.Undeposited s' (p.1.cancellation p.2))
    (hno : s.isExchangeAddress (btcAddress p.2) = true ∨ s.NoneCompleted p.1.txid)
    (hrec : ∀ h, s.Holds h p.2 → s.Recorded h p) : s.Moved s' (fun h => -s.share h p) where
  apart := hs.undeposited hd
  addresses := hd.addresses
  accounts := hd.accounts hno
  worth h := by
    unfold share
    by_cases hh : s.Holds h p.2
    · rw [if_pos hh, ← sub_eq_add_neg]
      obtain ⟨r, hr, hkey, hworth⟩ := hrec h hh
      have hkey : r.key = (p.1.cancellation p.2).key := hkey
      cases h with
      | user u =>
        have hu : s'.deposits u = unrecorded (p.1.cancellation p.2) (s.deposits u) := hd.owner u hh
        have hcount : (Transaction.btc r).counted = (receipt p).worthTo (.user u) := hworth u rfl
        have hsum : ((unrecorded (p.1.cancellation p.2) (s.deposits u)).map Transaction.counted).sum =
            ((s.deposits u).map Transaction.counted).sum - (Transaction.btc r).counted :=
          sum_unrecorded (hs.keys (.user u)) hr hkey
        simp only [worth]
        rw [hu, hsum, hcount]
        exact .refl _
      | exchange =>
        have hx := hd.exchange.trans (if_pos hh)
        have hamount : (receipt p).worthTo .exchange = (p.1.cancellation p.2).amount.toInt64.toInt := rfl
        simp only [worth]
        rw [hx, hamount]
        exact ExchangeState.wrapped_cancelBtcTx hr hkey
    · rw [if_neg hh, neg_zero, add_zero, (hd.other_holders hh).2]
      exact .refl _

theorem Moved.of_eq {d d' : Holder → Int} (h : s.Moved s' d) (hd : ∀ x, d x = d' x) : s.Moved s' d' where
  apart := h.apart
  addresses := h.addresses
  accounts := h.accounts
  worth x := hd x ▸ h.worth x

/-- What some receipts are worth to a holder. -/
noncomputable def shares (s : State) (h : Holder) (ps : List (ListTransactionResult × Address)) : Int :=
  (ps.map (s.share h)).sum

theorem SameAddresses.shares (h : s.SameAddresses s') (holder : Holder) (ps : List (ListTransactionResult × Address)) :
    s'.shares holder ps = s.shares holder ps :=
  congrArg List.sum (List.map_congr_left (fun p _ => h.share holder p))

/-- (run) Receipts of different outputs are cancelled, one after the other. -/
theorem moved_cancel {ps : List (ListTransactionResult × Address)} {l : List (Oracle × NaiveDateTime × BtcEvent)}
    (hl : l.map (·.2.2) = ps.map (fun p => .cancel (p.1.cancellation p.2))) (hs : s.HeldApart)
    (hps : ps.Pairwise (fun p p' => (receipt p).key ≠ (receipt p').key))
    (hrec : ∀ p ∈ ps, ∀ h, s.Holds h p.2 → s.Recorded h p)
    (hno : ∀ p ∈ ps, s.isExchangeAddress (btcAddress p.2) = true ∨ s.NoneCompleted p.1.txid) :
    s.Moved (s.acceptAll l) (fun h => -s.shares h ps) ∧
      ∀ h r, .btc r ∈ (s.acceptAll l).held h → .btc r ∈ s.held h ∧ ∀ p ∈ ps, s.Holds h p.2 → r.key ≠ (receipt p).key := by
  induction ps generalizing s l with
  | nil =>
    obtain rfl := List.map_eq_nil_iff.mp hl
    exact ⟨(Moved.refl hs).of_eq (fun _ => rfl), fun h r hr => ⟨hr, fun p hp => by cases hp⟩⟩
  | cons p ps ih =>
    cases l with
    | nil => cases hl
    | cons x l =>
      obtain ⟨o, created, e⟩ := x
      obtain ⟨rfl, htail⟩ := List.cons.inj hl
      obtain ⟨hfirst, hps⟩ := List.pairwise_cons.mp hps
      have hd := acceptEvent_cancel hs.apart o created (p.1.cancellation p.2)
      have hmoved := hd.moved hs (hno p List.mem_cons_self) (hrec p List.mem_cons_self)
      have hrest := ih htail hmoved.apart hps
        (fun p' hp' h hh => by
          obtain ⟨r, hr, hkey, hworth⟩ := hrec p' (List.mem_cons_of_mem _ hp') h ((hd.addresses.holds h p'.2).mp hh)
          exact ⟨r, (hd.mem_held hs).mpr ⟨hr, fun _ heq => hfirst p' hp' (heq.symm.trans hkey)⟩, hkey, hworth⟩)
        (fun p' hp' => by
          rcases hno p' (List.mem_cons_of_mem _ hp') with hx | hnone
          · exact Or.inl ((hd.addresses.exchange _).trans hx)
          · exact Or.inr (hnone.onlyDeposits hmoved.accounts))
      refine ⟨(hmoved.trans hrest.1).of_eq (fun h => ?_), fun h r hr => ?_⟩
      · rw [hd.addresses.shares, shares, shares, List.map_cons, List.sum_cons]
        omega
      · obtain ⟨hr, hne⟩ := hrest.2 h r hr
        obtain ⟨hr, hne₀⟩ := (hd.mem_held hs).mp hr
        refine ⟨hr, fun p' hp' hh => ?_⟩
        rcases List.mem_cons.mp hp' with rfl | hp'
        · exact hne₀ hh
        · exact hne p' hp' ((hd.addresses.holds h p'.2).mpr hh)

/-- (run) Receipts of different outputs, of which none is there, are told, one after the other. -/
theorem moved_update {ps : List (ListTransactionResult × Address)} {l : List (Oracle × NaiveDateTime × BtcEvent)}
    (hl : l.map (·.2.2) = ps.map (fun p => .update (p.1.deposit p.2))) (hs : s.HeldApart)
    (hps : ps.Pairwise (fun p p' => (receipt p).key ≠ (receipt p').key)) (hpos : ∀ p ∈ ps, 0 ≤ (receipt p).amount)
    (hnew : ∀ p ∈ ps, ∀ h, s.Holds h p.2 → ∀ r, .btc r ∈ s.held h → r.key ≠ (receipt p).key) :
    s.Moved (s.acceptAll l) (fun h => s.shares h ps) := by
  induction ps generalizing s l with
  | nil =>
    obtain rfl := List.map_eq_nil_iff.mp hl
    exact (Moved.refl hs).of_eq (fun _ => rfl)
  | cons p ps ih =>
    cases l with
    | nil => cases hl
    | cons x l =>
      obtain ⟨o, created, e⟩ := x
      obtain ⟨rfl, htail⟩ := List.cons.inj hl
      obtain ⟨hfirst, hps⟩ := List.pairwise_cons.mp hps
      have hp0 := hpos p List.mem_cons_self
      have hdir : (p.1.deposit p.2).direction = .deposit := rfl
      have hd := acceptEvent_deposit hs.apart o created hdir hp0
      have hmoved := hd.moved hs hp0 (hnew p List.mem_cons_self)
      have hrest := ih htail hmoved.apart hps (fun p' hp' => hpos p' (List.mem_cons_of_mem _ hp')) (fun p' hp' h hh r hr => by
        rcases hd.of_mem_held hs hp0 hr with rfl | hr
        · exact hfirst p' hp'
        · exact hnew p' (List.mem_cons_of_mem _ hp') h ((hd.addresses.holds h p'.2).mp hh) r hr)
      refine (hmoved.trans hrest).of_eq (fun h => ?_)
      rw [hd.addresses.shares, shares, shares, List.map_cons, List.sum_cons]

/-- Of updates, those for what was sent change nothing. -/
theorem acceptAll_filter {l : List (Oracle × NaiveDateTime × BtcEvent)} (h : ∀ x ∈ l, ∃ upd, x.2.2 = .update upd) :
    s.acceptAll l = s.acceptAll (l.filter (·.2.2.isDeposit)) := by
  induction l generalizing s with
  | nil => rfl
  | cons x l ih =>
    obtain ⟨o, created, e⟩ := x
    obtain ⟨upd, rfl⟩ : ∃ upd, e = .update upd := h _ List.mem_cons_self
    have ih' := fun s : State => ih (s := s) (fun x hx => h x (List.mem_cons_of_mem _ hx))
    cases hdir : upd.direction with
    | deposit =>
      rw [List.filter_cons_of_pos (by simp [BtcEvent.isDeposit, hdir])]
      exact ih' _
    | withdraw =>
      rw [List.filter_cons_of_neg (by simp [BtcEvent.isDeposit, hdir])]
      refine Eq.trans ?_ (ih' s)
      exact congrArg (fun s : State => s.acceptAll l) (acceptEvent_withdraw hdir)

/-! ## All events -/

/-- Where what is taken away is brought back, the deposits are worth in the end what they were worth. -/
theorem Restores.moved {t : Txid} {outs : List ListTransactionResult} {best : BlockHash}
    {l : List (Oracle × NaiveDateTime × BtcEvent)} (hr : s.Restores t outs) (hs : s.HeldApart) (ht : UnconfirmedAgain t outs)
    (hl : l.map (·.2.2) = reorganisation outs best) : s.Moved (s.acceptAll l) (fun _ => 0) := by
  obtain ⟨l₁, l₂, rfl, h₁, h₂⟩ := List.map_eq_append_iff.mp hl
  have hno : ∀ p ∈ receipts outs, s.isExchangeAddress (btcAddress p.2) = true ∨ s.NoneCompleted p.1.txid := by
    intro p hp
    rcases hr.withdrawals with hnone | hx
    · rw [ht.txid p.1 (mem_receipts hp).1]
      exact Or.inr hnone
    · exact Or.inl (hx p hp)
  have hcancels : l₁.map (·.2.2) = (receipts outs).map (fun p => .cancel (p.1.cancellation p.2)) :=
    h₁.trans (filterMap_toRemoveEvent ht)
  obtain ⟨hcancel, hgone⟩ := moved_cancel hcancels hs (receipts_apart ht) hr.recorded hno
  -- what was sent is left out
  have hupdates : ∀ x ∈ l₂, ∃ upd, x.2.2 = .update upd := by
    intro x hx
    have hin : x.2.2 ∈ outs.filterMap toUpdateEvent := h₂ ▸ List.mem_map_of_mem hx
    obtain ⟨e, -, he⟩ := List.mem_filterMap.mp hin
    cases hx : x.2.2 with
    | update upd => exact ⟨upd, rfl⟩
    | cancel c => exact absurd (hx ▸ he) ListTransactionResult.toUpdateEvent_ne_cancel
  have hdeposits : (l₂.filter (·.2.2.isDeposit)).map (·.2.2) = (receipts outs).map (fun p => .update (p.1.deposit p.2)) := by
    rw [← filter_toUpdateEvent ht, ← h₂, List.filter_map]
    rfl
  have hpos : ∀ p ∈ receipts outs, 0 ≤ (receipt p).amount := by
    intro p hp
    obtain ⟨hin, hc, -⟩ := mem_receipts hp
    have h0 := ht.received p.1 hin hc
    change 0 ≤ (absSat p.1.amount).toInt64
    rw [absSat_toInt64 h0]
    exact h0
  have hupdate := moved_update hdeposits hcancel.apart (receipts_apart ht) hpos
    (fun p hp h hh r hr => (hgone h r hr).2 p hp ((hcancel.addresses.holds h p.2).mp hh))
  have hall : s.acceptAll (l₁ ++ l₂) = (s.acceptAll l₁).acceptAll (l₂.filter (·.2.2.isDeposit)) := by
    rw [← acceptAll_filter hupdates, acceptAll, List.foldl_append]
    rfl
  rw [hall]
  refine (hcancel.trans hupdate).of_eq (fun h => ?_)
  rw [hcancel.addresses.shares]
  omega

/-- The balances of the users in all currencies, and that of the exchange account in bitcoins, are the same. -/
def SameBalances (s s' : State) : Prop :=
  (∀ u c, s'.balance? u c = s.balance? u c) ∧ s'.exchangeState.balance .btc = s.exchangeState.balance .btc

/-- An account has the same balance with other transactions that are worth the same. -/
theorem balance_congr {i : UserCurrencyInfo} {l : List Transaction}
    (h : Wrapped (i.transactions.map Transaction.counted).sum (l.map Transaction.counted).sum) :
    ({ i with transactions := l } : UserCurrencyInfo).balance = i.balance := by
  have hsum : ((l.filter (fun t => !t.isConflicted)).map Transaction.amount).sum =
      ((i.transactions.filter (fun t => !t.isConflicted)).map Transaction.amount).sum :=
    (h.trans (UserCurrencyInfo.wrapped_transactions l)).unique (UserCurrencyInfo.wrapped_transactions i.transactions)
  unfold UserCurrencyInfo.balance UserCurrencyInfo.balanceOf
  simp only [hsum]

/-- Where only deposits changed, and are worth the same, the balances are the same. -/
theorem Moved.sameBalances (h : s.Moved s' (fun _ => 0)) : s.SameBalances s' := by
  refine ⟨fun u c => ?_, ?_⟩
  · have hw := h.worth (.user u)
    rw [add_zero] at hw
    have hacc := h.accounts u c
    unfold balance?
    cases hi : s.currency? u c with
    | none =>
      rw [hacc, hi]
      rfl
    | some i =>
      rw [hacc, hi, Option.map_some, Option.map_some, Option.map_some]
      by_cases hc : c = .btc
      · subst hc
        have hdep : s.deposits u = i.transactions := by
          unfold deposits
          rw [hi]
          rfl
        rw [if_pos rfl, balance_congr (hdep ▸ hw)]
      · rw [if_neg hc]
  · have hx := h.worth .exchange
    rw [add_zero] at hx
    exact hx.eq_iff.mpr (s.exchangeState.fits_balance .btc)

/-- Whatever the iteration orders and the times, a transaction that is unconfirmed again changes no balance. -/
def Neutral (s : State) (outs : List ListTransactionResult) : Prop :=
  ∀ best l, l.map (·.2.2) = reorganisation outs best → s.SameBalances (s.acceptAll l)

end State

namespace State

/-- No request was completed by a transaction, as it is looked up. -/
def noneCompleted (s : State) (t : Txid) : Bool :=
  s.users.values.all fun user => user.currencies.values.all fun i => i.withdrawalRequests.values.all fun r => !r.completedBy t

theorem noneCompleted_of_all {s : State} {t : Txid} (h : s.noneCompleted t = true) : s.NoneCompleted t := by
  intro u c i r hr
  obtain ⟨info, hinfo, hreq⟩ := Option.bind_eq_some_iff.mp hr
  obtain ⟨user, huser, hcur⟩ := Option.bind_eq_some_iff.mp hinfo
  simp only [noneCompleted, List.all_eq_true, Bool.not_eq_true'] at h
  exact h user ((AssocMap.mem_values_iff _ _).mpr ⟨u, huser⟩) info ((AssocMap.mem_values_iff _ _).mpr ⟨c, hcur⟩) r
    ((AssocMap.mem_values_iff _ _).mpr ⟨i, hreq⟩)

end State

/-! ## Every run -/

/-- (step) The exchange account keeps no two records of one output. -/
theorem State.keysApart_accept {s : State} {o : Oracle} {up : StateUpdate} (h : KeysApart s.exchangeState.deposits)
    (hsnap : ¬up.body.IsSnapshot) : KeysApart (s.accept o up).exchangeState.deposits := by
  unfold accept
  cases hup : s.applyUpdate o up with
  | mk s' res =>
    cases res with
    | error e => exact h
    | ok res =>
      have hex := applyUpdate_exchangeState hup hsnap
      simp only
      generalize s'.exchangeState = e at hex
      cases hex with
      | same => exact h
      | deposited tx _ _ =>
        by_cases hpos : tx.amount ≥ 0
        · rw [ExchangeState.processIncomingBtcTx_deposits hpos]
          exact h.recorded
        · rw [ExchangeState.processIncomingBtcTx, if_neg hpos]
          exact h
      | canceled c _ _ =>
        rw [ExchangeState.cancelBtcTx_deposits]
        exact h.unrecorded
      | settled req order _ _ => exact h
      | addressed req _ => exact h

/-! ## A withdrawal to a deposit address, for the run that is executed -/

namespace Sample

/-- The payment of a withdrawal of 1000 satoshi to an address of the wallet, as the node lists it for the sender. -/
def sent (txid : String) (confirmations : Int32) : ListTransactionResult :=
  { listed txid confirmations [] with category := .send, amount := -1000, fee := some (-10) }

/-- Alice withdraws 1000 satoshi to her own deposit address: two operators agree, and the module pays. -/
def withdrawal {Γ : Blockchain} (txid : String) : List (FollowingAction Γ) :=
  [upd 5 (.createWithdrawalRequest (request 7 1000 .overLimit)),
    upd 6 (.withdrawalRequestDecision (decision 7 1 .confirm)),
    upd 7 (.withdrawalRequestDecision (decision 7 2 .confirm)),
    upd 8 (.withdrawalRequestComplete
      { id := uuid 7, confirmedAt := ⟨8⟩, txid := .btc { txid := txid }, fee := some 10, inputAddresses := [],
        outputAddresses := [], requestType := .overLimit })].map fun a => .update a.1 a.2

end Sample

namespace Following

variable {Γ : Blockchain} {m : Following}

/-- No rule but that what is recorded is sound. -/
theorem sound_rules (Γ : Blockchain) :
    Rules Γ (fun _ _ => True) (fun _ _ => True) (fun _ _ _ => True) (fun _ _ _ _ _ => True) where
  init _ _ := trivial
  start _ _ _ _ _ _ _ _ _ := trivial
  finish _ _ _ _ _ := trivial
  deposit _ _ _ _ _ _ _ _ _ _ _ _ _ := trivial
  withdraw _ _ _ _ _ _ _ _ := trivial
  cancel _ _ _ _ _ _ _ _ _ _ _ := trivial
  other _ _ _ _ _ _ _ _ _ _ := trivial
  otherSettled _ _ _ _ _ _ _ _ := trivial

/-- (run) Each address has one holder, and no holder keeps two records of one output. -/
theorem heldApart_of_reachable {P : Following → FollowingAction Γ → Prop} (h : (machine Γ).Reachable P m) :
    m.state.HeldApart := by
  have hsound := ((sound_rules Γ).follows h (fun _ _ _ _ => trivial) (fun _ _ _ _ _ _ _ => trivial)).sound
  have hkeys : KeysApart m.state.exchangeState.deposits := by
    clear hsound
    refine h.invariant (I := fun m => KeysApart m.state.exchangeState.deposits) ?_ ?_
    · rintro _ ⟨now, genesis, n, rfl, -, -⟩
      exact List.nodup_nil
    · intro m a m' _ hm _ hs
      cases step_eq_some hs with
      | node n hn hk => exact hm
      | scanFailed e count => exact hm
      | scan r count hr => exact hm
      | apply o created e es hes =>
        cases e with
        | cancel c => exact keysApart_accept hm (by simp [UpdateBody.IsSnapshot])
        | update upd =>
          cases hdir : upd.direction with
          | withdraw => rwa [acceptEvent_withdraw hdir]
          | deposit =>
            simp only [acceptEvent, BtcEvent.toUpdate, hdir, if_true]
            exact keysApart_accept hm (by simp [UpdateBody.IsSnapshot])
      | update o up had => exact keysApart_accept hm had.1
  refine ⟨hsound.apart, fun holder => ?_⟩
  cases holder with
  | user u => exact hsound.keys u
  | exchange => exact hkeys

/-- A reorganisation is neutral: in every State that a run reaches, the events of a scan that finds a transaction unconfirmed
again leave all balances as they were, where what they take away they bring back. -/
theorem reorganisation_neutral {t : Txid} {outs : List ListTransactionResult} (h : (machine Γ).Reachable Machine.anyStep m)
    (ht : UnconfirmedAgain t outs) (hr : m.state.Restores t outs) : m.state.Neutral outs :=
  fun _ _ hl => (hr.moved (heldApart_of_reachable h) ht hl).sameBalances

/-- A deposit is seen in a block, and unconfirmed again when the block is disconnected: alice's balance stays 1000. -/
theorem reorganisation_neutral_seen : ∃ m : Following,
    m.state.balance? Sample.alice .btc = some 1000 ∧ m.state.Neutral [Sample.listed "in" 0 []] := by
  obtain ⟨m, hm, hq⟩ := Machine.exists_reachable (M := machine (Sample.chain "in")) (P := Machine.anyStep)
    (Sample.arrival ++
      .node (Sample.wallet "b1" [Sample.listed "in" 1 []]) (by decide +kernel) ::
      Sample.scanned "b1" [Sample.listed "in" 1 []] 1)
    (q := fun m : Following => m.state.balance? Sample.alice .btc == some 1000 && m.state.noneCompleted ⟨"in"⟩ &&
      (m.state.currency? Sample.alice .btc).any (fun i => i.depositInfo.contains (btcAddress ⟨"addr"⟩)) &&
      m.state.deposits Sample.alice == [.btc (BtcEvent.toBtcTransaction ((Sample.listed "in" 1 []).deposit ⟨"addr"⟩))])
    (Sample.following_init "in") (by decide +kernel)
  simp only [Bool.and_eq_true, beq_iff_eq] at hq
  obtain ⟨⟨⟨hbal, hnone⟩, howner⟩, hdep⟩ := hq
  obtain ⟨i, hi, ha⟩ := (Option.any_eq_true _ _).mp howner
  have hown : m.state.Owns Sample.alice ⟨"addr"⟩ := ⟨i, hi, List.contains_iff_mem.mp ha⟩
  have hapart := (heldApart_of_reachable hm).apart
  refine ⟨m, hbal, reorganisation_neutral (t := ⟨"in"⟩) hm ?_ ⟨Or.inl (noneCompleted_of_all hnone), fun p hp h hh => ?_⟩⟩
  · exact ⟨by decide +kernel, by decide +kernel, by decide +kernel, by decide +kernel, List.pairwise_singleton _ _⟩
  · obtain rfl : p = (Sample.listed "in" 0 [], ⟨"addr"⟩) := List.mem_singleton.mp hp
    cases h with
    | user u =>
      obtain rfl := hapart.one _ u Sample.alice hh hown
      refine ⟨BtcEvent.toBtcTransaction ((Sample.listed "in" 1 []).deposit ⟨"addr"⟩), ?_, rfl, fun _ _ => rfl⟩
      change _ ∈ m.state.deposits Sample.alice
      rw [hdep]
      exact List.mem_singleton_self _
    | exchange =>
      have hfalse := hapart.notExchange _ _ hown
      rw [show m.state.isExchangeAddress (btcAddress ⟨"addr"⟩) = true from hh] at hfalse
      cases hfalse

/-- Alice's withdrawal is paid to her own deposit address, in a block that is disconnected then: her balance was 990, and is 2000
when the transaction is unconfirmed again. -/
theorem reorganisation_not_neutral : ¬∀ (Γ : Blockchain) (m : Following) (t : Txid) (outs : List ListTransactionResult),
    (machine Γ).Reachable Machine.anyStep m → m.scan.events = [] →
      (∀ e ∈ outs, ∃ e' ∈ m.seen.entries, e = { e' with confirmations := 0 }) → UnconfirmedAgain t outs →
      m.state.Neutral outs := by
  intro h
  obtain ⟨m, hm, hq⟩ := Machine.exists_reachable (M := machine (Sample.chain "in")) (P := Machine.anyStep)
    (Sample.arrival ++
      .node (Sample.wallet "b0" [Sample.listed "fund" 0 []]) (by decide +kernel) ::
      Sample.scanned "b0" [Sample.listed "fund" 0 []] 1 ++
      Sample.withdrawal "in" ++
      .node (Sample.wallet "b1" [Sample.listed "fund" 0 [], Sample.listed "in" 1 [], Sample.sent "in" 1]) (by decide +kernel) ::
      Sample.scanned "b1" [Sample.listed "fund" 0 [], Sample.listed "in" 1 [], Sample.sent "in" 1] 3)
    (q := fun m : Following => m.scan.events.isEmpty &&
      m.seen.entries == [Sample.listed "fund" 0 [], Sample.listed "in" 1 [], Sample.sent "in" 1] &&
      m.state.balance? Sample.alice .btc == some 990 &&
      (m.state.acceptAll ((reorganisation [Sample.listed "in" 0 [], Sample.sent "in" 0] ⟨"b0"⟩).map
        (fun e => (Sample.oracle, ⟨9⟩, e)))).balance? Sample.alice .btc == some 2000)
    (Sample.following_init "in") (by decide +kernel)
  simp only [Bool.and_eq_true, beq_iff_eq, List.isEmpty_iff] at hq
  obtain ⟨⟨⟨hnil, hseen⟩, hbefore⟩, hafter⟩ := hq
  have hneutral := h _ m ⟨"in"⟩ [Sample.listed "in" 0 [], Sample.sent "in" 0] hm hnil
    (by rw [hseen]; decide +kernel)
    ⟨by decide +kernel, by decide +kernel, by decide +kernel, by decide +kernel, List.pairwise_singleton _ _⟩
  have hsame := (hneutral ⟨"b0"⟩ ((reorganisation [Sample.listed "in" 0 [], Sample.sent "in" 0] ⟨"b0"⟩).map
    (fun e => (Sample.oracle, ⟨9⟩, e))) (by rw [List.map_map]; exact List.map_id _)).1 Sample.alice .btc
  rw [hbefore, hafter] at hsame
  exact absurd hsame (by decide)

end Following

end Hexstody
