import Hexstody.Lemmas.LimitChange
import Hexstody.Lemmas.Order

/-!
# Well-formed States

A State is well formed when each record agrees with the keys it is under (`State.WellFormed`): the name of a user, the currency of
an account, of its deposit addresses and of its requests and orders, the user and the currency of a pending change, which has an
account; and when no withdrawal id names two requests. Every accepted update keeps a State well formed if the id of the withdrawal
request that it creates, if it creates one, is not in the State, and if the State it brings, if it is a snapshot, is well formed.
-/

namespace Hexstody

/-- An account is of its currency, and so are its deposit addresses, each of which it has once. -/
structure UserCurrencyInfo.Tidy (c : Currency) (i : UserCurrencyInfo) : Prop where
  currency : i.currency = c
  addresses : ∀ a ∈ i.depositInfo, a.currency = c
  nodup : i.depositInfo.Nodup

/-- The id of a new withdrawal request is that of no request of the State. -/
def State.FreshRequest (s : State) (b : UpdateBody) : Prop :=
  match b with
  | .createWithdrawalRequest info => ∀ u c, s.request? u c info.id = none
  | _ => True

namespace State

/-- Each record agrees with the keys it is under, and no withdrawal id names two requests. -/
structure WellFormed (s : State) : Prop where
  username : ∀ {u ui}, s.users.get? u = some ui → ui.username = u
  account : ∀ {u c i}, s.currency? u c = some i → i.Tidy c
  request : ∀ {u c id r}, s.request? u c id = some r → r.id = id ∧ r.user = u ∧ r.address.currency = c
  order : ∀ {u c id ex}, s.order? u c id = some ex → ex.id = id ∧ ex.user = u ∧ ex.currencyFrom = c
  limit : ∀ {u c l}, s.limitChange? u c = some l → l.currency = c ∧ l.user = u ∧ ∃ i, s.currency? u c = some i
  unique : ∀ {u u' c c' id r r'}, s.request? u c id = some r → s.request? u' c' id = some r' → u = u' ∧ c = c'

variable {s s' : State} {o : Oracle} {up : StateUpdate} {res : Option UpdateResult}

theorem WellFormed.new (now : NaiveDateTime) (genesisHash : String) : (State.new now genesisHash).WellFormed where
  username h := by cases h
  account h := by cases h
  request h := by cases h
  order h := by cases h
  limit h := by cases h
  unique h := by cases h

/-! ## One lemma for each part -/

/-- Well-formedness is about the users. -/
theorem WellFormed.congr (hw : s.WellFormed) (h : s'.users = s.users) : s'.WellFormed := by
  have hcur : ∀ u c, s'.currency? u c = s.currency? u c := currency?_congr h
  have hreq : ∀ u c id, s'.request? u c id = s.request? u c id := fun u c id => by rw [request?, hcur]; rfl
  have hord : ∀ u c id, s'.order? u c id = s.order? u c id := fun u c id => by rw [order?, hcur]; rfl
  have hlim : ∀ u c, s'.limitChange? u c = s.limitChange? u c := fun u c => by rw [limitChange?, h]; rfl
  constructor
  · intro u ui hu
    exact hw.username (h ▸ hu)
  · intro u c i hi
    exact hw.account (hcur u c ▸ hi)
  · intro u c id r hr
    exact hw.request (hreq u c id ▸ hr)
  · intro u c id ex hex
    exact hw.order (hord u c id ▸ hex)
  · intro u c l hl
    rw [hcur]
    exact hw.limit (hlim u c ▸ hl)
  · intro u u' c c' id r r' hr hr'
    exact hw.unique (hreq u c id ▸ hr) (hreq u' c' id ▸ hr')

/-- A change keeps an account tidy. -/
theorem tidy_of_change {u : UserId} {c : Currency} {a : Option UserCurrencyInfo} {i' : UserCurrencyInfo}
    (h : AccountChange s up u c a (some i')) (ha : ∀ i, a = some i → i.Tidy c) : i'.Tidy c := by
  cases h with
  | same => exact ha _ rfl
  | opened => exact ⟨rfl, fun a ha => (by cases ha), List.nodup_nil⟩
  | requested i info hb hu hc hl => exact ⟨(ha i rfl).currency, (ha i rfl).addresses, (ha i rfl).nodup⟩
  | voted i d r r' confirmed hb hu hc hr hd => exact ⟨(ha i rfl).currency, (ha i rfl).addresses, (ha i rfl).nodup⟩
  | completed i info hb => exact ⟨(ha i rfl).currency, (ha i rfl).addresses, (ha i rfl).nodup⟩
  | nodeRejected i info hb => exact ⟨(ha i rfl).currency, (ha i rfl).addresses, (ha i rfl).nodup⟩
  | addressed i address hb hc hn =>
    refine ⟨(ha i rfl).currency, ?_, ?_⟩
    · intro a hm
      rcases List.mem_append.mp hm with hm | hm
      · exact (ha i rfl).addresses a hm
      · rw [List.mem_singleton.mp hm]
        exact hc
    · exact List.Nodup.append (ha i rfl).nodup (List.nodup_singleton _) (by simpa using hn)
  | deposited i tx hb hc =>
    rw [UserCurrencyInfo.updateBtcTx_eq]
    exact ⟨(ha i rfl).currency, (ha i rfl).addresses, (ha i rfl).nodup⟩
  | canceled i tx owner rid hb ho hrid =>
    rw [UserCurrencyInfo.afterCancel_eq]
    exact ⟨(ha i rfl).currency, (ha i rfl).addresses, (ha i rfl).nodup⟩
  | limited i lcd hb hu hc ht => exact ⟨(ha i rfl).currency, (ha i rfl).addresses, (ha i rfl).nodup⟩
  | cleared i span hb =>
    rw [UserCurrencyInfo.clearLimit_eq]
    exact ⟨(ha i rfl).currency, (ha i rfl).addresses, (ha i rfl).nodup⟩
  | ordered i req hb hu hc hbal => exact ⟨(ha i rfl).currency, (ha i rfl).addresses, (ha i rfl).nodup⟩
  | exchanged i k req ex ex' completes hb hu hk hex hd =>
    rw [UserCurrencyInfo.afterExchange_eq]
    exact ⟨(ha i rfl).currency, (ha i rfl).addresses, (ha i rfl).nodup⟩

/-- A request that is there after an update was there before, with the same order, or is created by the update. -/
theorem request_of_applyUpdate (h : s.applyUpdate o up = (s', .ok res)) (hs : ¬up.body.IsSnapshot) {u : UserId}
    {c : Currency} {id : WithdrawalRequestId} {r' : WithdrawalRequest} (hr : s'.request? u c id = some r') :
    (∃ r, s.request? u c id = some r ∧ r.SameOrder r') ∨
      ∃ info, up.body = .createWithdrawalRequest info ∧ info.id = id ∧ info.user = u ∧ info.address.currency = c ∧
        r' = .ofInfo up.created info := by
  have hch := applyUpdate_request h hs u c id
  rw [hr] at hch
  generalize hb : s.request? u c id = before at hch
  cases hch with
  | same => exact Or.inl ⟨r', rfl, .refl _⟩
  | created a info hbody hi hu hc => exact Or.inr ⟨info, hbody, hi, hu, hc, rfl⟩
  | voted r _ d confirmed _ _ _ _ hd => exact Or.inl ⟨r, rfl, WithdrawalRequest.applyDecision_sameOrder hd⟩
  | completed r info _ _ => exact Or.inl ⟨r, rfl, r.sameOrder_status _⟩
  | nodeRejected r info _ _ => exact Or.inl ⟨r, rfl, r.sameOrder_status _⟩
  | canceled r tx _ _ => exact Or.inl ⟨r, rfl, r.sameOrder_status _⟩

/-- Once a token is disabled there is no pending change of its limit. -/
theorem updateTokens_disabled {u : UserId} {token : Erc20Token}
    (h : s.updateTokens { user := u, token := token, action := .disable } = (s', .ok ())) :
    s'.limitChange? u (.erc20 token) = none := by
  unfold updateTokens at h
  simp only at h
  split at h
  · cases h
  · split at h
    · cases h
    · split at h
      · cases h
      · obtain rfl := (Prod.mk.inj h).1
        rw [limitChange?_modifyUser_closed s u (.erc20 token) _ (fun _ => rfl), if_pos ⟨rfl, rfl⟩]

/-- An account that has a pending change after an update is there after it: the one update that closes an account closes the
change with it. -/
theorem account_of_pending (h : s.applyUpdate o up = (s', .ok res)) (hs : ¬up.body.IsSnapshot)
    {u : UserId} {c : Currency} {i : UserCurrencyInfo} {l : LimitChangeData} (hi : s.currency? u c = some i)
    (hl : s'.limitChange? u c = some l) : ∃ i', s'.currency? u c = some i' := by
  cases hi' : s'.currency? u c with
  | some i' => exact ⟨i', rfl⟩
  | none =>
    exfalso
    have hch := applyUpdate_account h hs u c
    rw [hi, hi'] at hch
    cases hch with
    | closed _ token hb hc hbal =>
      -- the method erases both entries of the user
      unfold State.applyUpdate at h
      rw [hb] at h
      obtain ⟨s₁, a, hout, rfl, -⟩ := stamped_eq_ok h
      have hnone := updateTokens_disabled hout
      rw [hc] at hl
      rw [show ({ s₁ with lastChanged := up.created } : State).limitChange? u (.erc20 token) = none from hnone] at hl
      cases hl

/-- A pending change is under its currency and its user, who has an account in it. -/
theorem WellFormed.limit_of_applyUpdate (hw : s.WellFormed) (h : s.applyUpdate o up = (s', .ok res))
    (hs : ¬up.body.IsSnapshot) {u : UserId} {c : Currency} {l : LimitChangeData} (hl : s'.limitChange? u c = some l) :
    l.currency = c ∧ l.user = u ∧ ∃ i, s'.currency? u c = some i := by
  have hch := applyUpdate_pending h hs u c
  rw [hl] at hch
  generalize ha : s.limitChange? u c = a at hch
  cases hch with
  | same =>
    obtain ⟨hc, hu, i, hi⟩ := hw.limit ha
    exact ⟨hc, hu, account_of_pending h hs hi hl⟩
  | asked a ui i req hb hu hc hui hi =>
    have hcur : s.currency? u c = some i := by rw [currency?_of_get? hui, hi]
    exact ⟨hc, hw.username hui, account_of_pending h hs hcur hl⟩
  | voted l₀ _ lcd hb hu hc hd hopen =>
    obtain ⟨hc₀, hu₀, i, hi⟩ := hw.limit ha
    have hsame := LimitChangeData.applyDecision_sameChange hd
    exact ⟨hsame.currency.trans hc₀, hsame.user.trans hu₀, account_of_pending h hs hi hl⟩

/-- An order is under its id, its user and the currency it is paid in. -/
theorem WellFormed.order_of_applyUpdate (hw : s.WellFormed) (h : s.applyUpdate o up = (s', .ok res))
    (hs : ¬up.body.IsSnapshot) {u : UserId} {c : Currency} {id : ExchangeOrderId} {ex : ExchangeOrder}
    (hex : s'.order? u c id = some ex) : ex.id = id ∧ ex.user = u ∧ ex.currencyFrom = c := by
  have hch := applyUpdate_order h hs u c id
  rw [hex] at hch
  generalize ha : s.order? u c id = a at hch
  cases hch with
  | same => exact hw.order ha
  | created a req hb hi hu hc => exact ⟨hi, hu, hc⟩
  | decided ex₀ _ req completes hb hu hc hi hd =>
    have hsame := ExchangeOrder.applyDecision_intoExchangeUpd hd
    obtain ⟨hi₀, hu₀, hc₀⟩ := hw.order ha
    exact ⟨(congrArg ExchangeOrderUpd.id hsame).trans hi₀, (congrArg ExchangeOrderUpd.user hsame).trans hu₀,
      (congrArg ExchangeOrderUpd.currencyFrom hsame).trans hc₀⟩

/-- A request is under its id, its user and the currency of its address. -/
theorem WellFormed.request_of_applyUpdate (hw : s.WellFormed) (h : s.applyUpdate o up = (s', .ok res))
    (hs : ¬up.body.IsSnapshot) {u : UserId} {c : Currency} {id : WithdrawalRequestId} {r : WithdrawalRequest}
    (hr : s'.request? u c id = some r) : r.id = id ∧ r.user = u ∧ r.address.currency = c := by
  rcases State.request_of_applyUpdate h hs hr with ⟨r₀, hr₀, hsame⟩ | ⟨info, -, hi, hu, hc, rfl⟩
  · obtain ⟨hi₀, hu₀, hc₀⟩ := hw.request hr₀
    exact ⟨hsame.id.trans hi₀, hsame.user.trans hu₀, by rw [hsame.address, hc₀]⟩
  · exact ⟨hi, hu, hc⟩

/-- A fresh id names one request. -/
theorem WellFormed.unique_of_applyUpdate (hw : s.WellFormed) (h : s.applyUpdate o up = (s', .ok res))
    (hs : ¬up.body.IsSnapshot) (hfresh : s.FreshRequest up.body) {u u' : UserId} {c c' : Currency} {id : WithdrawalRequestId}
    {r r' : WithdrawalRequest} (hr : s'.request? u c id = some r) (hr' : s'.request? u' c' id = some r') :
    u = u' ∧ c = c' := by
  have hnew : ∀ info, up.body = .createWithdrawalRequest info → ∀ u c, s.request? u c info.id = none := by
    intro info hb
    rw [hb] at hfresh
    exact hfresh
  rcases State.request_of_applyUpdate h hs hr with ⟨r₀, hr₀, -⟩ | ⟨info, hb, hi, hu, hc, -⟩
  · rcases State.request_of_applyUpdate h hs hr' with ⟨r₁, hr₁, -⟩ | ⟨info, hb, hi, -, -, -⟩
    · exact hw.unique hr₀ hr₁
    · rw [← hi, hnew info hb] at hr₀
      cases hr₀
  · rcases State.request_of_applyUpdate h hs hr' with ⟨r₁, hr₁, -⟩ | ⟨info', hb', -, hu', hc', -⟩
    · rw [← hi, hnew info hb] at hr₁
      cases hr₁
    · obtain rfl := UpdateBody.createWithdrawalRequest.inj (hb.symm.trans hb')
      exact ⟨hu.symm.trans hu', hc.symm.trans hc'⟩

/-! ## The step -/

/-- An accepted update keeps a State well formed. -/
theorem WellFormed.applyUpdate (hw : s.WellFormed) (h : s.applyUpdate o up = (s', .ok res)) (hfresh : s.FreshRequest up.body)
    (hsnap : ∀ s₀, up.body = .snapshot s₀ → s₀.WellFormed) : s'.WellFormed := by
  by_cases hs : up.body.IsSnapshot
  · cases hb : up.body with
    | snapshot s₀ =>
      unfold State.applyUpdate at h
      rw [hb] at h
      obtain ⟨s₁, a, hout, rfl, -⟩ := stamped_eq_ok h
      obtain rfl := (Prod.mk.inj hout).1
      exact (hsnap _ hb).congr rfl
    | _ => rw [hb] at hs; exact hs.elim
  · constructor
    · intro u ui hu
      have hname := applyUpdate_username h hs u
      rw [part, part, hu, Option.map_some] at hname
      rcases hname with hsame | ⟨hnew, -⟩
      · obtain ⟨ui₀, hui₀, heq⟩ := Option.map_eq_some_iff.mp hsame.symm
        rw [← heq]
        exact hw.username hui₀
      · exact Option.some.inj hnew
    · intro u c i hi
      have hch := applyUpdate_account h hs u c
      rw [hi] at hch
      exact tidy_of_change hch (fun i₀ hi₀ => hw.account hi₀)
    · exact hw.request_of_applyUpdate h hs
    · exact hw.order_of_applyUpdate h hs
    · exact hw.limit_of_applyUpdate h hs
    · exact hw.unique_of_applyUpdate h hs hfresh

end State

end Hexstody
