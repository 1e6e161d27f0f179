import Hexstody.History
import Hexstody.Lemmas.Deposits
import Hexstody.Lemmas.WellFormed

/-!
# The deposit addresses of the users and of the exchange

How an accepted update changes who holds a deposit address (`holds_of_applyUpdate`, `HoldsAddress.applyUpdate`), in every State that
is reached; and what a deposit does that comes to an address of one user only (`State.SoleOwner`).
-/

namespace Hexstody

namespace State

/-- The address is a deposit address of an account of the user. -/
def HoldsAddress (s : State) (u : UserId) (a : CurrencyAddress) : Prop := ∃ c, a ∈ infoOf (s.currency? u c)

/-- The address is a user's, nobody else's, and not the exchange's. -/
structure SoleOwner (s : State) (u : UserId) (a : Address) : Prop where
  owns : s.Owns u a
  alone : ∀ u', s.Owns u' a → u' = u
  notExchange : s.isExchangeAddress (btcAddress a) = false

variable {s s' : State} {o : Oracle} {up : StateUpdate} {res : Option UpdateResult} {u : UserId} {c : Currency}

/-! ## How the addresses change -/

/-- (run) The deposit addresses of an account are of its currency. -/
theorem Reached.tidy {P : State → UpdateBody → Prop} (h : s.Reached P) {u : UserId} {c : Currency} {i : UserCurrencyInfo}
    (hi : s.currency? u c = some i) : i.Tidy c := by
  refine h.invariant (I := fun s => ∀ u c i, s.currency? u c = some i → i.Tidy c) ?_ ?_ ?_ u c i hi
  · intro now genesisHash u c i hi
    cases hi
  · exact fun s created hs => hs
  · intro s o up s' res _ hs _ hsnap happly u c i hi
    have hch := applyUpdate_account happly hsnap u c
    rw [hi] at hch
    exact tidy_of_change hch (fun i₀ hi₀ => hs u c i₀ hi₀)

/-- A user holds an address in the account of its currency. -/
theorem Reached.holds_iff {P : State → UpdateBody → Prop} (h : s.Reached P) {a : CurrencyAddress} :
    s.HoldsAddress u a ↔ a ∈ infoOf (s.currency? u a.currency) := by
  constructor
  · rintro ⟨c, ha⟩
    obtain ⟨i, hi, hm⟩ := mem_infoOf.mp ha
    rwa [(h.tidy hi).addresses a hm]
  · exact fun ha => ⟨_, ha⟩

theorem Reached.holds_btc_iff {P : State → UpdateBody → Prop} (h : s.Reached P) {a : Address} :
    s.HoldsAddress u (btcAddress a) ↔ s.Owns u a := by
  rw [h.holds_iff, owns_iff]
  rfl

/-- An address that is held after an update was held before, or is given out by it. -/
theorem holds_of_applyUpdate (h : s.applyUpdate o up = (s', .ok res)) (hs : ¬up.body.IsSnapshot) {a : CurrencyAddress}
    (ha : s'.HoldsAddress u a) : s.HoldsAddress u a ∨ up.body = .depositAddress { userId := u, address := a } := by
  obtain ⟨c, hm⟩ := ha
  rcases (applyUpdate_account h hs u c).depositInfo with hsame | ⟨token, hb, hc, hnone⟩ | ⟨address, hb, hc, happend⟩
  · exact Or.inl ⟨c, hsame ▸ hm⟩
  · rw [hnone] at hm
    cases hm
  · rw [happend] at hm
    rcases List.mem_append.mp hm with hm | hm
    · exact Or.inl ⟨c, hm⟩
    · rw [List.mem_singleton.mp hm]
      exact Or.inr hb

/-- An address that is held stays so, but for the addresses of a token that is disabled. -/
theorem HoldsAddress.applyUpdate {a : CurrencyAddress} (ha : s.HoldsAddress u a) (h : s.applyUpdate o up = (s', .ok res))
    (hs : ¬up.body.IsSnapshot) (htok : ∀ req, up.body ≠ .updateTokens req) : s'.HoldsAddress u a := by
  obtain ⟨c, hm⟩ := ha
  rcases (applyUpdate_account h hs u c).depositInfo with hsame | ⟨token, hb, -⟩ | ⟨address, -, -, happend⟩
  · exact ⟨c, hsame ▸ hm⟩
  · exact absurd hb (htok _)
  · exact ⟨c, happend ▸ List.mem_append_left _ hm⟩

/-- An address that is given out is held. -/
theorem mem_infoOf_depositAddress {dep : DepositAddress} (h : s.applyUpdate o up = (s', .ok res))
    (hb : up.body = .depositAddress dep) : dep.address ∈ infoOf (s'.currency? dep.userId dep.address.currency) := by
  unfold State.applyUpdate at h
  rw [hb] at h
  obtain ⟨s₁, a, hout, rfl, -⟩ := stamped_eq_ok h
  unfold withDepositAddress at hout
  cases hu : s.users.get? dep.userId with
  | none => simp [hu] at hout
  | some ui =>
    simp only [hu] at hout
    cases hc : ui.currencies.get? dep.address.currency with
    | none => simp [hc] at hout
    | some i =>
      simp only [hc] at hout
      split at hout
      · cases hout
      · simp only [Prod.mk.injEq, and_true] at hout
        rw [← hout]
        change dep.address ∈ infoOf (currency? (modifyCurrency s _ _ _) _ _)
        rw [currency?_modifyCurrency, if_pos ⟨rfl, rfl⟩, currency?_of_get? hu, hc]
        simp [infoOf]

/-- (run) No user has two records of one outpoint. -/
theorem Reached.keysApart {P : State → UpdateBody → Prop} (h : s.Reached P) (u : UserId) : KeysApart (s.deposits u) := by
  refine h.invariant (I := fun s => ∀ u, KeysApart (s.deposits u)) ?_ ?_ ?_ u
  · exact fun now genesisHash u => List.nodup_nil
  · exact fun s created hs => hs
  · intro s o up s' res _ hs _ hsnap happly u
    rcases applyUpdate_deposits happly hsnap u with heq | ⟨tx, -, -, heq⟩ | ⟨c, -, heq⟩
    · exact heq ▸ hs u
    · exact heq ▸ (hs u).recorded
    · exact heq ▸ (hs u).unrecorded

/-! ## A deposit to an address of one user -/

/-- An update of a deposit to an address of one user is recorded with that user. -/
theorem SoleOwner.deposits_update {tx : BtcTransaction} (h : s.SoleOwner u tx.address) (hpos : tx.amount ≥ 0)
    (hb : up.body = .updateBtcTx tx) (happly : s.applyUpdate o up = (s', .ok res)) :
    s'.deposits u = recorded tx (s.deposits u) := by
  unfold State.applyUpdate withBtcTxUpdate at happly
  have howner := withDepositOwner_of_owns (o := o) h.owns h.alone (·.updateBtcTx tx)
  simp only [hb, h.notExchange, Bool.false_eq_true, if_false, howner, stamped, Prod.mk.injEq] at happly
  rw [← happly.1]
  exact deposits_modifyCurrency_self h.owns (fun i => updateBtcTx_transactions hpos)

/-- A cancellation of a deposit to an address of one user is recorded with that user. -/
theorem SoleOwner.deposits_cancel {c : BtcTxCancel} (h : s.SoleOwner u c.address) (hb : up.body = .cancelBtcTx c)
    (happly : s.applyUpdate o up = (s', .ok res)) : s'.deposits u = unrecorded c (s.deposits u) := by
  have hx : ¬s.isExchangeAddress (btcAddress c.address) = true := by
    rw [h.notExchange]
    exact Bool.false_ne_true
  have howner := withDepositOwner_of_owns (o := o) h.owns h.alone (·.cancelBtcTx c)
  unfold State.applyUpdate at happly
  simp only [hb, withBtcTxCancel_eq_afterReject hx howner, stamped, Prod.mk.injEq] at happly
  rw [← happly.1]
  change (afterReject _ o c).deposits u = _
  rw [deposits_afterReject]
  exact deposits_modifyCurrency_self h.owns (fun i => rfl)

end State

end Hexstody
