import Hexstody.Lemmas.Deposits

/-!
# What a scan tells the State

The events of a scan, as they come from what the node lists: first the cancellations, then the updates. Between two scans the
events of the first bring the State from what the wallet was at the scan before to what it was at that scan. What is proved of all
runs of `Following.machine` is proved by `Rules`: one invariant for a State that has applied all the events of a scan, one for a
State that is on its way, and a rule for each kind of event.
-/

namespace Hexstody

/-! ## Amounts and confirmations -/

theorem absSat_toInt64 {a : Int64} (h : 0 ≤ a) : (absSat a).toInt64 = a := by
  have h0 : a.toBitVec.msb = false := by
    rw [BitVec.msb_eq_toInt]
    have hle : (0 : Int64).toInt ≤ a.toInt := Int64.le_iff_toInt_le.mp h
    simpa using hle
  rw [absSat, Int64.toInt64_toUInt64]
  refine Int64.toBitVec_inj.mp ?_
  rw [Int64.toBitVec_abs, BitVec.abs_eq, h0]
  simp

theorem toNat_confirmations {c : Int32} (h : 0 ≤ c) : c.toInt64.toUInt64.toNat = c.toInt.toNat := by
  have h' : (0 : Int64) ≤ c.toInt64 := by
    rw [Int64.le_iff_toInt_le, Int32.toInt_toInt64]
    exact Int32.le_iff_toInt_le.mp h
  rw [Int64.toNat_toUInt64_of_le h', Int64.toNatClampNeg, Int32.toInt_toInt64]

theorem confirmations_eq_zero {c : Int32} (h : 0 ≤ c) : c.toInt64.toUInt64 = 0 ↔ c = 0 := by
  have h0 : (0 : Int) ≤ c.toInt := Int32.le_iff_toInt_le.mp h
  rw [← UInt64.toNat_inj, toNat_confirmations h, ← Int32.toInt_inj]
  change c.toInt.toNat = 0 ↔ c.toInt = 0
  omega

/-! ## The events of a scan -/

namespace ListTransactionResult

/-- The update for a deposit to an address. -/
def deposit (e : ListTransactionResult) (a : Address) : TxUpdate where
  direction := .deposit
  txid := e.txid
  vout := e.vout
  address := a
  amount := absSat e.amount
  confirmations := e.confirmations.toInt64.toUInt64
  timestamp := e.timereceived
  conflicts := e.walletConflicts
  fee := e.fee.map absSat

/-- The cancellation of a deposit to an address. -/
def cancellation (e : ListTransactionResult) (a : Address) : BtcTxCancel where
  direction := .deposit
  txid := e.txid
  vout := e.vout
  address := a
  amount := absSat e.amount
  timestamp := e.timereceived
  conflicts := e.walletConflicts

variable {e : ListTransactionResult}

theorem toUpdateEvent_deposit {a : Address} (hc : e.category = .receive) (ha : e.address = some a) (h0 : 0 ≤ e.confirmations) :
    toUpdateEvent e = some (.update (e.deposit a)) := by
  have hdir : txDirection e = some .deposit := by
    unfold txDirection
    rw [hc]
  have hneg : ¬e.confirmations < 0 := Int32.not_lt.mpr h0
  unfold toUpdateEvent
  rw [hdir, ha]
  exact if_neg hneg

theorem toRemoveEvent_cancellation {a : Address} (hc : e.category = .receive) (ha : e.address = some a) (h0 : 0 ≤ e.amount) :
    toRemoveEvent e = some (.cancel (e.cancellation a)) := by
  have hdir : txDirection e = some .deposit := by
    unfold txDirection
    rw [hc]
  have hneg : ¬e.amount < 0 := Int64.not_lt.mpr h0
  unfold toRemoveEvent
  rw [hdir, ha]
  exact if_neg hneg

/-- An update for a deposit is of an entry that the wallet receives and that has no negative confirmations. -/
theorem eq_deposit {upd : TxUpdate} (h : toUpdateEvent e = some (.update upd)) (hdir : upd.direction = .deposit) :
    e.category = .receive ∧ e.address = some upd.address ∧ 0 ≤ e.confirmations ∧ upd = e.deposit upd.address := by
  unfold toUpdateEvent at h
  cases hd : txDirection e with
  | none => simp [hd] at h
  | some direction =>
    simp only [hd] at h
    cases ha : e.address with
    | none => simp [ha] at h
    | some a =>
      simp only [ha] at h
      by_cases hneg : e.confirmations < 0
      · rw [if_pos hneg] at h
        cases h
      · rw [if_neg hneg] at h
        obtain rfl := BtcEvent.update.inj (Option.some.inj h)
        obtain rfl : direction = .deposit := hdir
        have hc : e.category = .receive := by
          unfold txDirection at hd
          split at hd
          · assumption
          · cases hd
          · cases hd
        exact ⟨hc, rfl, Int32.not_lt.mp hneg, rfl⟩

theorem toUpdateEvent_ne_cancel {c : BtcTxCancel} : toUpdateEvent e ≠ some (.cancel c) := by
  intro h
  unfold toUpdateEvent at h
  split at h
  · cases h
  · split at h
    · cases h
    · split at h <;> cases h

theorem toRemoveEvent_ne_update {upd : TxUpdate} : toRemoveEvent e ≠ some (.update upd) := by
  intro h
  unfold toRemoveEvent at h
  split at h
  · cases h
  · split at h
    · cases h
    · split at h <;> cases h

/-- A cancellation is of the output of an entry. -/
theorem eq_cancel {c : BtcTxCancel} (h : toRemoveEvent e = some (.cancel c)) : c.txid = e.txid := by
  unfold toRemoveEvent at h
  split at h
  · cases h
  · split at h
    · cases h
    · split at h
      · cases h
      · obtain rfl := BtcEvent.cancel.inj (Option.some.inj h)
        rfl

end ListTransactionResult

/-- No cancellation comes after an update. -/
def CancelsFirst (es : List BtcEvent) : Prop := ∀ pre post upd c, es = pre ++ post → .update upd ∈ pre → .cancel c ∉ post

theorem cancelsFirst_scanFrom (r : ListSinceBlockResult) : CancelsFirst (scanFrom r).1 := by
  intro pre post upd c hes hupd hc
  -- an update is not among the cancellations, so what is before it has all of them
  have hremoved : ∀ upd, .update upd ∉ r.removed.filterMap toRemoveEvent := by
    intro upd hin
    obtain ⟨e, -, he⟩ := List.mem_filterMap.mp hin
    exact ListTransactionResult.toRemoveEvent_ne_update he
  have hlisted : ∀ c, .cancel c ∉ r.transactions.filterMap toUpdateEvent := by
    intro c hin
    obtain ⟨e, -, he⟩ := List.mem_filterMap.mp hin
    exact ListTransactionResult.toUpdateEvent_ne_cancel he
  have hes : r.removed.filterMap toRemoveEvent ++ r.transactions.filterMap toUpdateEvent = pre ++ post := hes
  rcases List.append_eq_append_iff.mp hes with ⟨l, -, hl⟩ | ⟨l, hl, -⟩
  · exact hlisted c (hl ▸ List.mem_append_right _ hc)
  · exact hremoved upd (hl ▸ List.mem_append_left _ hupd)

namespace Wallet

/-- Some events are those of a scan, with the wallet as it was at the scan before and as it is at this one. -/
structure Scanned (Γ : Blockchain) (n n' : Wallet) (es : List BtcEvent) : Prop where
  before : n.Documented Γ
  after : n'.Documented Γ
  keeps : n.Keeps n'
  events : ∃ r, n'.Answers Γ n.best r ∧ es = (scanFrom r).1

namespace Scanned

variable {Γ : Blockchain} {n n' : Wallet} {es : List BtcEvent}

theorem cancelsFirst (h : Scanned Γ n n' es) : CancelsFirst es := by
  obtain ⟨r, -, rfl⟩ := h.events
  exact cancelsFirst_scanFrom r

/-- What is listed since the last scan is told. -/
theorem update_mem (h : Scanned Γ n n' es) {e : ListTransactionResult} {a : Address} (he : e ∈ n'.entries)
    (hc : e.category = .receive) (ha : e.address = some a) (h0 : 0 ≤ e.confirmations) (hsince : n'.since Γ n.best e = true) :
    .update (e.deposit a) ∈ es := by
  obtain ⟨r, hr, rfl⟩ := h.events
  refine List.mem_append_right _ (List.mem_filterMap.mpr ⟨e, hr.all e he h0 hsince, ?_⟩)
  exact ListTransactionResult.toUpdateEvent_deposit hc ha h0

/-- What was in a block that the node does not follow any more is cancelled. -/
theorem cancel_mem (h : Scanned Γ n n' es) {e : ListTransactionResult} {a : Address} (he : e ∈ n'.entries)
    (hc : e.category = .receive) (ha : e.address = some a) (hgone : Γ.beyond n.best n'.best e.txid = true) :
    .cancel (e.cancellation a) ∈ es := by
  obtain ⟨r, hr, rfl⟩ := h.events
  refine List.mem_append_left _ (List.mem_filterMap.mpr ⟨e, hr.allGone e he hgone, ?_⟩)
  exact ListTransactionResult.toRemoveEvent_cancellation hc ha (h.after.amount e he hc)

/-- A deposit that is told is one that the wallet lists. -/
theorem of_update (h : Scanned Γ n n' es) {upd : TxUpdate} (hin : .update upd ∈ es) (hdir : upd.direction = .deposit) :
    ∃ e ∈ n'.entries, e.category = .receive ∧ e.address = some upd.address ∧ 0 ≤ e.confirmations ∧
      upd = e.deposit upd.address := by
  obtain ⟨r, hr, rfl⟩ := h.events
  rcases List.mem_append.mp hin with hin | hin
  · obtain ⟨e, -, he⟩ := List.mem_filterMap.mp hin
    exact absurd he ListTransactionResult.toRemoveEvent_ne_update
  · obtain ⟨e, hmem, he⟩ := List.mem_filterMap.mp hin
    exact ⟨e, (hr.listed e hmem).1, ListTransactionResult.eq_deposit he hdir⟩

/-- What is cancelled was in a block that the node does not follow any more. -/
theorem of_cancel (h : Scanned Γ n n' es) {c : BtcTxCancel} (hin : .cancel c ∈ es) : Γ.beyond n.best n'.best c.txid = true := by
  obtain ⟨r, hr, rfl⟩ := h.events
  rcases List.mem_append.mp hin with hin | hin
  · obtain ⟨e, hmem, he⟩ := List.mem_filterMap.mp hin
    rw [ListTransactionResult.eq_cancel he]
    exact (hr.gone e hmem).2
  · obtain ⟨e, -, he⟩ := List.mem_filterMap.mp hin
    exact absurd he ListTransactionResult.toUpdateEvent_ne_cancel

end Scanned

end Wallet

/-! ## The State -/

/-- The entry is of the output that a record is of. -/
def ListTransactionResult.IsOf (e : ListTransactionResult) (r : BtcTransaction) : Prop :=
  e.category = .receive ∧ e.txid = r.txid ∧ e.vout = r.vout ∧ e.address = some r.address

namespace State

variable {s s' : State} {o : Oracle} {created : NaiveDateTime} {up : StateUpdate}

theorem acceptEvent_deposit (h : s.AddressesApart) (o : Oracle) (created : NaiveDateTime) {upd : TxUpdate}
    (hdir : upd.direction = .deposit) (hpos : 0 ≤ upd.amount.toInt64) :
    s.Deposited (s.acceptEvent o created (.update upd)) (BtcEvent.toBtcTransaction upd) := by
  have hamount : (BtcEvent.toBtcTransaction upd).amount ≥ 0 := by
    simp only [BtcEvent.toBtcTransaction, hdir]
    exact hpos
  obtain ⟨s', hs', hd⟩ := applyUpdate_updateBtcTx h o created hamount
  simp only [acceptEvent, BtcEvent.toUpdate, hdir, if_true, accept, hs']
  exact hd

theorem acceptEvent_withdraw {upd : TxUpdate} (hdir : upd.direction = .withdraw) :
    s.acceptEvent o created (.update upd) = s := by
  simp only [acceptEvent, BtcEvent.toUpdate, hdir]
  rfl

theorem acceptEvent_cancel (h : s.AddressesApart) (o : Oracle) (created : NaiveDateTime) (c : BtcTxCancel) :
    s.Undeposited (s.acceptEvent o created (.cancel c)) c := by
  obtain ⟨s', hs', hd⟩ := applyUpdate_cancelBtcTx h o created c
  simp only [acceptEvent, BtcEvent.toUpdate, accept, hs']
  exact hd

/-- What is recorded is of outputs that the wallet receives, with the user who has the address. -/
structure Sound (Γ : Blockchain) (s : State) : Prop where
  apart : s.AddressesApart
  keys : ∀ u, KeysApart (s.deposits u)
  owner : ∀ u r, .btc r ∈ s.deposits u → s.Owns u r.address
  output : ∀ u r, .btc r ∈ s.deposits u → (r.vout, r.address) ∈ Γ.outputs r.txid
  conflict : ∀ u r, .btc r ∈ s.deposits u → ∀ t ∈ r.conflicts, Γ.conflict r.txid t = true

variable {Γ : Blockchain}

theorem Sound.new (now : NaiveDateTime) (genesisHash : String) : (State.new now genesisHash).Sound Γ := by
  have hnobody : ∀ u a, ¬(State.new now genesisHash).Owns u a := fun u a ⟨i, hi, _⟩ => by cases hi
  refine ⟨⟨fun a u u' hu => absurd hu (hnobody u a), fun a u hu => absurd hu (hnobody u a)⟩, fun u => List.nodup_nil, ?_, ?_, ?_⟩
  all_goals exact fun u r hr => by cases hr

/-- (step) -/
theorem Sound.deposited {n : Wallet} {e : ListTransactionResult} {a : Address} (h : s.Sound Γ) (hn : n.Documented Γ)
    (he : e ∈ n.entries) (hc : e.category = .receive) (ha : e.address = some a)
    (hd : s.Deposited s' (BtcEvent.toBtcTransaction (e.deposit a))) : s'.Sound Γ := by
  have key : ∀ u r, .btc r ∈ s'.deposits u →
      .btc r ∈ s.deposits u ∨ (r = BtcEvent.toBtcTransaction (e.deposit a) ∧ s.Owns u a) := by
    intro u r hr
    by_cases hu : s.Owns u a
    · rw [hd.owner u hu, mem_recorded (h.keys u)] at hr
      rcases hr with rfl | ⟨hr, -⟩
      · exact Or.inr ⟨rfl, hu⟩
      · exact Or.inl hr
    · rw [hd.other u hu] at hr
      exact Or.inl hr
  refine ⟨h.apart.of_same hd.addresses, fun u => ?_, fun u r hr => ?_, fun u r hr => ?_, fun u r hr => ?_⟩
  · by_cases hu : s.Owns u a
    · rw [hd.owner u hu]
      exact (h.keys u).recorded
    · rw [hd.other u hu]
      exact h.keys u
  · rw [hd.addresses.owns]
    rcases key u r hr with hr | ⟨rfl, hu⟩
    · exact h.owner u r hr
    · exact hu
  · rcases key u r hr with hr | ⟨rfl, -⟩
    · exact h.output u r hr
    · exact hn.output e he hc a ha
  · rcases key u r hr with hr | ⟨rfl, -⟩
    · exact h.conflict u r hr
    · exact hn.conflict e he

/-- (step) -/
theorem Sound.undeposited {c : BtcTxCancel} (h : s.Sound Γ) (hd : s.Undeposited s' c) : s'.Sound Γ := by
  have key : ∀ u r, .btc r ∈ s'.deposits u → .btc r ∈ s.deposits u := by
    intro u r hr
    by_cases hu : s.Owns u c.address
    · rw [hd.owner u hu, mem_unrecorded (h.keys u)] at hr
      exact hr.1
    · rw [hd.other u hu] at hr
      exact hr
  refine ⟨h.apart.of_same hd.addresses, fun u => ?_, fun u r hr => ?_, fun u r hr => h.output u r (key u r hr),
    fun u r hr => h.conflict u r (key u r hr)⟩
  · by_cases hu : s.Owns u c.address
    · rw [hd.owner u hu]
      exact (h.keys u).unrecorded
    · rw [hd.other u hu]
      exact h.keys u
  · rw [hd.addresses.owns]
    exact h.owner u r (key u r hr)

/-- (step) -/
theorem Sound.onlyGivesOut (h : s.Sound Γ) (hg : s.OnlyGivesOut s' up) (hnew : s.GivesNew up.body) : s'.Sound Γ := by
  refine ⟨h.apart.of_onlyGivesOut hg hnew, fun u => ?_, fun u r hr => ?_, fun u r hr => ?_, fun u r hr => ?_⟩
  · rw [hg.deposits]
    exact h.keys u
  all_goals rw [hg.deposits] at hr
  · exact hg.kept u _ (h.owner u r hr)
  · exact h.output u r hr
  · exact h.conflict u r hr

end State

/-! ## The rules -/

namespace Wallet

/-- Some events are what is left of those of a scan. -/
def Underway (Γ : Blockchain) (n n' : Wallet) (es : List BtcEvent) : Prop := ∃ pre, Scanned Γ n n' (pre ++ es)

namespace Underway

variable {Γ : Blockchain} {n n' : Wallet} {e : BtcEvent} {es : List BtcEvent}

theorem tail (h : Underway Γ n n' (e :: es)) : Underway Γ n n' es := by
  obtain ⟨pre, h⟩ := h
  exact ⟨pre ++ [e], by rwa [List.append_assoc]⟩

theorem no_cancel {upd : TxUpdate} (h : Underway Γ n n' (.update upd :: es)) (c : BtcTxCancel) : .cancel c ∉ es := by
  obtain ⟨pre, h⟩ := h
  refine h.cancelsFirst (pre ++ [.update upd]) es upd c (by simp) ?_
  exact List.mem_append_right _ (List.mem_singleton_self _)

theorem of_update {upd : TxUpdate} (h : Underway Γ n n' es) (hin : .update upd ∈ es) (hdir : upd.direction = .deposit) :
    ∃ e ∈ n'.entries, e.category = .receive ∧ e.address = some upd.address ∧ 0 ≤ e.confirmations ∧
      upd = e.deposit upd.address := by
  obtain ⟨pre, h⟩ := h
  exact h.of_update (List.mem_append_right _ hin) hdir

end Underway

/-- Some events are those of some scans, one after the other, each of which meets a condition. -/
inductive Batches (Γ : Blockchain) (C : Wallet → Wallet → Prop) : Wallet → List BtcEvent → Wallet → Prop where
  | nil (n : Wallet) : Batches Γ C n [] n
  | cons {n n' m : Wallet} {es q : List BtcEvent} : Scanned Γ n n' es → C n n' → Batches Γ C n' q m → Batches Γ C n (es ++ q) m

theorem Batches.snoc {Γ : Blockchain} {C : Wallet → Wallet → Prop} {n m m' : Wallet} {q es : List BtcEvent}
    (h : Batches Γ C n q m) (hs : Scanned Γ m m' es) (hC : C m m') : Batches Γ C n (q ++ es) m' := by
  induction h with
  | nil n =>
    have hlast := Batches.cons hs hC (Batches.nil m')
    rwa [List.append_nil] at hlast
  | cons hs₁ hC₁ _ ih =>
    rw [List.append_assoc]
    exact .cons hs₁ hC₁ (ih hs hC)

end Wallet

open State Wallet

/-- What two invariants have to meet to hold in every run: one of a State that has applied the events of all scans up to a wallet,
and one of a State that is on its way from a wallet to the next. -/
structure Rules (Γ : Blockchain) (C : Wallet → Wallet → Prop) (A : State → BtcEvent → Prop)
    (Settled : Wallet → State → List BtcEvent → Prop)
    (Midway : Wallet → Wallet → List BtcEvent → State → List BtcEvent → Prop) : Prop where
  init : ∀ now genesis, Settled { best := genesis, entries := [] } (State.new now genesis.hex) []
  start : ∀ n n' es s told, Scanned Γ n n' es → C n n' → s.Sound Γ → Settled n s told → Midway n n' es s told
  finish : ∀ n n' s told, Midway n n' [] s told → Settled n' s told
  deposit : ∀ n n' upd es s s' told, Underway Γ n n' (.update upd :: es) → s.Sound Γ → A s (.update upd) →
    upd.direction = .deposit → Midway n n' (.update upd :: es) s told → s.Deposited s' (BtcEvent.toBtcTransaction upd) →
    Midway n n' es s' (told ++ [.update upd])
  withdraw : ∀ n n' upd es s told, upd.direction = .withdraw → Midway n n' (.update upd :: es) s told →
    Midway n n' es s (told ++ [.update upd])
  cancel : ∀ n n' c es s s' told, Underway Γ n n' (.cancel c :: es) → s.Sound Γ → Midway n n' (.cancel c :: es) s told →
    s.Undeposited s' c → Midway n n' es s' (told ++ [.cancel c])
  other : ∀ n n' es s s' told up, s.OnlyGivesOut s' up →
    (∀ u a, up.body = .depositAddress { userId := u, address := btcAddress a } → ∀ e ∈ told, e.address ≠ a) →
    Midway n n' es s told → Midway n n' es s' told
  otherSettled : ∀ n s s' told up, s.OnlyGivesOut s' up →
    (∀ u a, up.body = .depositAddress { userId := u, address := btcAddress a } → ∀ e ∈ told, e.address ≠ a) →
    Settled n s told → Settled n s' told

namespace Rules

variable {Γ : Blockchain} {C : Wallet → Wallet → Prop} {A : State → BtcEvent → Prop}
  {Settled : Wallet → State → List BtcEvent → Prop} {Midway : Wallet → Wallet → List BtcEvent → State → List BtcEvent → Prop}

/-- How far the State has come with the events of some scans. -/
inductive Position (Γ : Blockchain) (C : Wallet → Wallet → Prop) (Settled : Wallet → State → List BtcEvent → Prop)
    (Midway : Wallet → Wallet → List BtcEvent → State → List BtcEvent → Prop) (seen : Wallet) :
    List BtcEvent → State → List BtcEvent → Prop where
  | settled {n : Wallet} {q : List BtcEvent} {s : State} {told : List BtcEvent} :
      Settled n s told → Batches Γ C n q seen → Position Γ C Settled Midway seen q s told
  | midway {n n' : Wallet} {es q : List BtcEvent} {s : State} {told : List BtcEvent} :
      Underway Γ n n' es → Midway n n' es s told → Batches Γ C n' q seen → Position Γ C Settled Midway seen (es ++ q) s told

variable {seen : Wallet} {e : BtcEvent} {q : List BtcEvent} {s : State} {told : List BtcEvent}

/-- A State that has applied the events of some scans is on its way with the next event, if there is one. -/
theorem next_of_settled (R : Rules Γ C A Settled Midway) {n m : Wallet} {all : List BtcEvent} (hs : s.Sound Γ)
    (h : Settled n s told) (hb : Batches Γ C n all m) (hall : all = e :: q) :
    ∃ n₁ n' es q', q = es ++ q' ∧ Underway Γ n₁ n' (e :: es) ∧ Midway n₁ n' (e :: es) s told ∧ Batches Γ C n' q' m := by
  induction hb with
  | nil n => cases hall
  | @cons n n' m es q' hscan hC hb ih =>
    have hmid := R.start n n' es s told hscan hC hs h
    cases es with
    | nil => exact ih (R.finish n n' s told hmid) hall
    | cons x es =>
      obtain ⟨rfl, rfl⟩ := List.cons.inj hall
      exact ⟨n, n', es, q', rfl, ⟨[], hscan⟩, hmid, hb⟩

/-- In every position with an event left, the State is on its way with it. -/
theorem next (R : Rules Γ C A Settled Midway) {all : List BtcEvent} (hs : s.Sound Γ)
    (h : Position Γ C Settled Midway seen all s told) (hall : all = e :: q) :
    ∃ n n' es q', q = es ++ q' ∧ Underway Γ n n' (e :: es) ∧ Midway n n' (e :: es) s told ∧ Batches Γ C n' q' seen := by
  cases h with
  | settled hset hb => exact R.next_of_settled hs hset hb hall
  | @midway n n' es q' _ _ hu hmid hb =>
    cases es with
    | nil => exact R.next_of_settled hs (R.finish n n' s told hmid) hb hall
    | cons x es =>
      obtain ⟨rfl, rfl⟩ := List.cons.inj hall
      exact ⟨n, n', es, q', rfl, hu, hmid, hb⟩

/-- With no events left, the State has applied those of all scans. -/
theorem settled_of_nil (R : Rules Γ C A Settled Midway) {all : List BtcEvent} (hs : s.Sound Γ)
    (h : Position Γ C Settled Midway seen all s told) (hall : all = []) : Settled seen s told := by
  have key : ∀ {n m : Wallet} {all : List BtcEvent}, Batches Γ C n all m → all = [] → Settled n s told → Settled m s told := by
    intro n m all hb
    induction hb with
    | nil n => exact fun _ h => h
    | @cons n n' m es q' hscan hC hb ih =>
      intro hall hset
      obtain ⟨rfl, rfl⟩ := List.append_eq_nil_iff.mp hall
      exact ih rfl (R.finish n n' s told (R.start n n' [] s told hscan hC hs hset))
  cases h with
  | settled hset hb => exact key hb hall hset
  | @midway n n' es q' _ _ hu hmid hb =>
    obtain ⟨rfl, rfl⟩ := List.append_eq_nil_iff.mp hall
    exact key hb rfl (R.finish n n' s told hmid)

/-- What holds of a run, where the rules are met. -/
structure Follows (Γ : Blockchain) (C : Wallet → Wallet → Prop) (Settled : Wallet → State → List BtcEvent → Prop)
    (Midway : Wallet → Wallet → List BtcEvent → State → List BtcEvent → Prop) (m : Following) : Prop where
  node : m.node.Documented Γ
  seen : m.seen.Documented Γ
  keeps : m.seen.Keeps m.node
  lastBlock : m.scan.lastBlock = m.seen.best
  sound : m.state.Sound Γ
  position : Position Γ C Settled Midway m.seen m.scan.events m.state m.applied

/-- (step) The wallet is scanned. -/
theorem Position.snoc {m : Wallet} {es : List BtcEvent} (h : Position Γ C Settled Midway seen q s told)
    (hscan : Scanned Γ seen m es) (hC : C seen m) : Position Γ C Settled Midway m (q ++ es) s told := by
  cases h with
  | settled hset hb => exact .settled hset (hb.snoc hscan hC)
  | midway hu hmid hb =>
    rw [List.append_assoc]
    exact .midway hu hmid (hb.snoc hscan hC)

/-- (step) An event is applied. -/
theorem apply (R : Rules Γ C A Settled Midway) (o : Oracle) (created : NaiveDateTime) {all : List BtcEvent} (hs : s.Sound Γ)
    (h : Position Γ C Settled Midway seen all s told) (hall : all = e :: q) (hA : A s e) :
    (s.acceptEvent o created e).Sound Γ ∧
      Position Γ C Settled Midway seen q (s.acceptEvent o created e) (told ++ [e]) := by
  obtain ⟨n, n', es, q', rfl, hu, hmid, hb⟩ := R.next hs h hall
  cases e with
  | cancel c =>
    have hd := acceptEvent_cancel hs.apart o created c
    exact ⟨hs.undeposited hd, .midway hu.tail (R.cancel n n' c es s _ told hu hs hmid hd) hb⟩
  | update upd =>
    cases hdir : upd.direction with
    | withdraw =>
      rw [acceptEvent_withdraw hdir]
      exact ⟨hs, .midway hu.tail (R.withdraw n n' upd es s told hdir hmid) hb⟩
    | deposit =>
      obtain ⟨e, he, hc, ha, -, heq⟩ := hu.of_update List.mem_cons_self hdir
      have hn' : n'.Documented Γ := by
        obtain ⟨pre, hscan⟩ := hu
        exact hscan.after
      have hpos : 0 ≤ upd.amount.toInt64 := by
        rw [heq]
        exact (absSat_toInt64 (hn'.amount e he hc)).symm ▸ hn'.amount e he hc
      have hd := acceptEvent_deposit hs.apart o created hdir hpos
      refine ⟨hs.deposited hn' he hc ha (heq ▸ hd), .midway hu.tail (R.deposit n n' upd es s _ told hu hs hA hdir hmid hd) hb⟩

/-- (step) Another update is applied. -/
theorem update (R : Rules Γ C A Settled Midway) {s' : State} {up : StateUpdate}
    (h : Position Γ C Settled Midway seen q s told) (hg : s.OnlyGivesOut s' up)
    (hnew : ∀ u a, up.body = .depositAddress { userId := u, address := btcAddress a } → ∀ e ∈ told, e.address ≠ a) :
    Position Γ C Settled Midway seen q s' told := by
  cases h with
  | settled hset hb => exact .settled (R.otherSettled _ s s' told up hg hnew hset) hb
  | midway hu hmid hb => exact .midway hu (R.other _ _ _ s s' told up hg hnew hmid) hb

/-- (run) In every run whose scans meet the one condition and whose events, as they are applied, meet the other. -/
theorem follows (R : Rules Γ C A Settled Midway) {P : Following → FollowingAction Γ → Prop} {m : Following}
    (h : (Following.machine Γ).Reachable P m)
    (hC : ∀ m r count, P m (.scan (.ok r) count) → C m.seen m.node)
    (hA : ∀ m o created e es, P m (.apply o created) → m.scan.events = e :: es → A m.state e) :
    Follows Γ C Settled Midway m := by
  refine h.invariant ?_ ?_
  · rintro _ ⟨now, genesis, n, rfl, hn, hnone⟩
    refine ⟨hn, ?_, fun e he => (by cases he), rfl, Sound.new now genesis.hex, .settled (R.init now genesis) (.nil _)⟩
    refine ⟨fun e he => (by cases he), fun e he => (by cases he), fun e he => (by cases he), ?_, fun e he => (by cases he),
      fun e he => (by cases he), fun e he => (by cases he), fun e he => (by cases he)⟩
    intro h hh t ht out hout
    have hup : Γ.upTo genesis t = true := List.any_eq_true.mpr ⟨h, hh, List.contains_iff_mem.mpr ht⟩
    rw [hnone t hup] at hout
    cases hout
  · intro m a m' _ hm hP hs
    cases Following.step_eq_some hs with
    | node n hn hk =>
      refine ⟨hn, hm.seen, fun e he hc => ?_, hm.lastBlock, hm.sound, hm.position⟩
      obtain ⟨e₁, he₁, hsame₁⟩ := hm.keeps e he hc
      obtain ⟨e₂, he₂, hsame₂⟩ := hk e₁ he₁ hsame₁.2.1
      exact ⟨e₂, he₂, hc, hsame₂.2.1, hsame₂.2.2.1.trans hsame₁.2.2.1, hsame₂.2.2.2.1.trans hsame₁.2.2.2.1,
        hsame₂.2.2.2.2.trans hsame₁.2.2.2.2⟩
    | scanFailed e count => exact hm
    | scan r count hr =>
      have hscan : Scanned Γ m.seen m.node (scanFrom r).1 := ⟨hm.seen, hm.node, hm.keeps, r, hm.lastBlock ▸ hr, rfl⟩
      have hC' := hC m r count hP
      refine ⟨hm.node, hm.node, fun e he hc => ⟨e, he, hc, hc, rfl, rfl, rfl⟩, ?_, hm.sound, ?_⟩
      · exact (ScanState.nodeWorker_lastBlock m.scan r count).trans hr.lastblock
      · have hevents : (m.scan.nodeWorker (.ok r) count).events = m.scan.events ++ (scanFrom r).1 :=
          ScanState.nodeWorker_events m.scan (.ok r) count
        simp only [hevents]
        exact hm.position.snoc hscan hC'
    | apply o created e es hes =>
      obtain ⟨hsound, hpos⟩ := R.apply o created hm.sound hm.position hes (hA m o created e es hP hes)
      exact ⟨hm.node, hm.seen, hm.keeps, hm.lastBlock, hsound, hpos⟩
    | update o up had =>
      obtain ⟨hsnap, hev, hgiven⟩ := had
      cases hup : m.state.applyUpdate o up with
      | mk s' res =>
        cases res with
        | error e =>
          have hsame : m.state.accept o up = m.state := by simp only [accept, hup]
          rw [hsame]
          exact hm
        | ok res =>
          have hacc : m.state.accept o up = s' := by simp only [accept, hup]
          have hg := onlyGivesOut_of_applyUpdate hup hsnap hev
          rw [hacc]
          refine ⟨hm.node, hm.seen, hm.keeps, hm.lastBlock, hm.sound.onlyGivesOut hg (fun a ha => (hgiven a ha).1), ?_⟩
          refine R.update hm.position hg (fun u a hb e he heq => ?_)
          exact (hgiven (btcAddress a) (by rw [hb]; rfl)).2 e he (by rw [heq])

end Rules

end Hexstody
