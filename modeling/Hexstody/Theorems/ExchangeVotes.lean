import Hexstody.Theorems.PendingOrders

/-!
# The votes on an exchange order

Which votes an exchange order keeps, for every number of confirmations that an order may need. A confirmation is counted and its
signature kept among the confirmations, once for each key; a rejection is counted, but its signature is kept among the
confirmations too, so that nothing is ever among the rejections (`ExchangeOrder.Tallied`). `exchange_votes_recorded_iff` says that
an order keeps its votes as it should (`State.VotesRecorded`) just when every vote that it was given since it was placed is a
confirmation.
-/

namespace Hexstody

/-- The signature of a decision, as an order keeps it. -/
def ExchangeDecision.sdata (v : ExchangeDecision) : SignatureData where
  signature := v.signature
  nonce := v.nonce
  publicKey := v.publicKey

/-- The decision is about the order of a user in a currency with an id. -/
def ExchangeDecision.IsOn (v : ExchangeDecision) (u : UserId) (c : Currency) (i : ExchangeOrderId) : Prop :=
  v.user = u ∧ v.currencyFrom = c ∧ v.id = i

instance (v : ExchangeDecision) (u : UserId) (c : Currency) (i : ExchangeOrderId) : Decidable (v.IsOn u c i) :=
  inferInstanceAs (Decidable (_ ∧ _ ∧ _))

/-- The votes on an order after an update, from those before: a new order starts without votes. -/
def StateUpdate.votesAfter (u : UserId) (c : Currency) (i : ExchangeOrderId) (votes : List ExchangeDecision) (up : StateUpdate) :
    List ExchangeDecision :=
  match up.body with
  | .exchangeRequest req => if req.user = u ∧ req.currencyFrom = c ∧ req.id = i then [] else votes
  | .exchangeDecision v => if v.IsOn u c i then votes ++ [v] else votes
  | _ => votes

/-- The votes on an order that are among some updates, since it was placed. -/
def votesOn (u : UserId) (c : Currency) (i : ExchangeOrderId) (us : List StateUpdate) : List ExchangeDecision :=
  us.foldl (StateUpdate.votesAfter u c i) []

theorem votesOn_concat (u : UserId) (c : Currency) (i : ExchangeOrderId) (us : List StateUpdate) (up : StateUpdate) :
    votesOn u c i (us ++ [up]) = up.votesAfter u c i (votesOn u c i us) := by
  rw [votesOn, List.foldl_append]
  rfl

/-- The votes of a kind. -/
def votesFor (d : ExchangeDecisionType) (votes : List ExchangeDecision) : List ExchangeDecision :=
  votes.filter (fun v => decide (v.decision = d))

theorem votesFor_self {d : ExchangeDecisionType} {votes : List ExchangeDecision} (h : ∀ v ∈ votes, v.decision = d) :
    votesFor d votes = votes := by
  refine List.filter_eq_self.mpr (fun v hv => ?_)
  exact decide_eq_true (h v hv)

theorem votesFor_eq_nil_iff {d : ExchangeDecisionType} {votes : List ExchangeDecision} :
    votesFor d votes = [] ↔ ∀ v ∈ votes, v.decision ≠ d := by
  rw [votesFor, List.filter_eq_nil_iff]
  refine forall₂_congr fun v _ => ?_
  rw [decide_eq_true_iff]

/-- The order keeps some votes on the right sides, and its status follows from them. -/
structure ExchangeOrder.Records (t : Int16) (votes : List ExchangeDecision) (ex : ExchangeOrder) : Prop where
  confirmations : ex.confirmations = (votesFor .confirm votes).map (·.sdata)
  rejections : ex.rejections = (votesFor .reject votes).map (·.sdata)
  confirmKeys : (ex.confirmations.map (·.publicKey)).Nodup
  rejectKeys : (ex.rejections.map (·.publicKey)).Nodup
  counted : ∀ m n, ex.status = .inProgress m n → m.toInt = ex.confirmations.length ∧ n.toInt = ex.rejections.length ∧
    m.toInt - n.toInt < t.toInt ∧ n.toInt - m.toInt < t.toInt
  completed : ex.status = .completed → ex.rejections.length + t.toInt ≤ ex.confirmations.length
  rejected : ex.status = .rejected → ex.confirmations.length + t.toInt ≤ ex.rejections.length

/-- The order keeps the votes that it was given, and takes no second vote of a kind from a key. -/
structure State.VotesRecorded (s : State) (t : Int16) (us : List StateUpdate) (u : UserId) (c : Currency) (i : ExchangeOrderId)
    (ex : ExchangeOrder) : Prop where
  records : ex.Records t (votesOn u c i us)
  once : ∀ v ∈ votesOn u c i us, ∀ o created (w : ExchangeDecision), w.IsOn u c i → w.publicKey = v.publicKey →
    w.decision = v.decision → ∃ e, (s.applyUpdateAt t o { created := created, body := .exchangeDecision w }).2 = .error e

/-- What the order does keep: every signature among the confirmations. Of confirmations alone, one for each key, it is completed by
as many as it needs. -/
structure ExchangeOrder.Tallied (t : Int16) (votes : List ExchangeDecision) (ex : ExchangeOrder) : Prop where
  signed : ex.confirmations = votes.map (·.sdata)
  unrejected : ex.rejections = []
  confirmed : (∀ v ∈ votes, v.decision = .confirm) → (votes.map (·.publicKey)).Nodup ∧
    (ex.status = .inProgress (Int16.ofNat votes.length) 0 ∧ votes.length < t.toInt ∨
      ex.status = .completed ∧ votes.length = t.toInt)

/-! ## One vote -/

namespace ExchangeOrder

variable {t : Int16} {ex ex' : ExchangeOrder} {v : ExchangeDecision} {votes : List ExchangeDecision} {completes : Bool}

/-- Any vote is kept among the confirmations. -/
theorem applyDecision_keeps (h : ex.applyDecision t v = .ok (ex', completes)) :
    ex'.confirmations = ex.confirmations ++ [v.sdata] ∧ ex'.rejections = ex.rejections := by
  unfold applyDecision at h
  cases hst : ex.status with
  | completed => simp [hst] at h
  | rejected => simp [hst] at h
  | inProgress m n =>
    simp only [hst] at h
    cases hd : v.decision with
    | confirm =>
      simp only [hd] at h
      split at h
      · cases h
      · split at h <;>
          · obtain ⟨rfl, -⟩ := Prod.mk.inj (Except.ok.inj h)
            exact ⟨rfl, rfl⟩
    | reject =>
      simp only [hd] at h
      split at h
      · cases h
      · split at h <;>
          · obtain ⟨rfl, -⟩ := Prod.mk.inj (Except.ok.inj h)
            exact ⟨rfl, rfl⟩

/-- A confirmation is by a key that is not among the confirmations, and is counted. -/
theorem applyDecision_confirm (h : ex.applyDecision t v = .ok (ex', completes)) (hd : v.decision = .confirm) :
    ∃ m n, ex.status = .inProgress m n ∧ ex.hasConfirmed v.publicKey = false ∧
      ex'.status = if m + 1 - n ≥ t then .completed else .inProgress (m + 1) n := by
  unfold applyDecision at h
  cases hst : ex.status with
  | completed => simp [hst] at h
  | rejected => simp [hst] at h
  | inProgress m n =>
    simp only [hst, hd] at h
    split at h
    · cases h
    · rename_i hnew
      refine ⟨m, n, rfl, eq_false_of_ne_true hnew, ?_⟩
      split at h
      · rename_i hge
        obtain ⟨rfl, -⟩ := Prod.mk.inj (Except.ok.inj h)
        rw [if_pos hge]
      · rename_i hlt
        obtain ⟨rfl, -⟩ := Prod.mk.inj (Except.ok.inj h)
        rw [if_neg hlt]

theorem hasConfirmed_iff {key : PublicKey} : ex.hasConfirmed key = true ↔ key ∈ ex.confirmations.map (·.publicKey) := by
  simp [hasConfirmed, hasSigned]

/-- The keys of the votes that are kept. -/
theorem Tallied.keys (h : ex.Tallied t votes) : ex.confirmations.map (·.publicKey) = votes.map (·.publicKey) := by
  rw [h.signed, List.map_map]
  rfl

/-- The number of confirmations after one more, while they are fewer than the order needs. -/
theorem count_succ {k : Nat} (hk : k < t.toInt) :
    (Int16.ofNat k + 1 - 0 ≥ t ↔ (k + 1 : Nat) = t.toInt) ∧ Int16.ofNat k + 1 = Int16.ofNat (k + 1) := by
  have ht := Int16.toInt_lt t
  have hsucc : Int16.ofNat k + 1 = Int16.ofNat (k + 1) := (Int16.ofNat_add k 1).symm
  have htoInt : (Int16.ofNat (k + 1)).toInt = (k + 1 : Nat) := Int16.toInt_ofNat_of_lt (by omega)
  refine ⟨?_, hsucc⟩
  rw [hsucc, Int16.sub_zero, ge_iff_le, Int16.le_iff_toInt_le, htoInt]
  omega

/-- A new order has no votes. -/
theorem tallied_ofUpd (ht : 1 ≤ t) (req : ExchangeOrderUpd) : (ofUpd req).Tallied t [] := by
  refine ⟨rfl, rfl, fun _ => ⟨List.nodup_nil, Or.inl ⟨rfl, ?_⟩⟩⟩
  exact Int16.le_iff_toInt_le.mp ht

/-- (step) -/
theorem Tallied.vote (h : ex.Tallied t votes) (hd : ex.applyDecision t v = .ok (ex', completes)) :
    ex'.Tallied t (votes ++ [v]) := by
  obtain ⟨hconf, hrej⟩ := applyDecision_keeps hd
  refine ⟨?_, hrej.trans h.unrejected, fun hall => ?_⟩
  · rw [hconf, h.signed, List.map_append]
    rfl
  · obtain ⟨hkeys, hst⟩ := h.confirmed (fun w hw => hall w (List.mem_append_left _ hw))
    obtain ⟨m, n, hopen, hnew, hst'⟩ := applyDecision_confirm hd (hall v (by simp))
    have hfresh : v.publicKey ∉ votes.map (·.publicKey) := by
      rw [← h.keys, ← hasConfirmed_iff, hnew]
      exact Bool.false_ne_true
    refine ⟨?_, ?_⟩
    · rw [List.map_append]
      exact List.nodup_append.mpr ⟨hkeys, List.nodup_singleton _, by
        rintro a ha b hb rfl
        rw [List.map_singleton, List.mem_singleton] at hb
        exact hfresh (hb ▸ ha)⟩
    · rcases hst with ⟨hst, hlt⟩ | ⟨hst, -⟩
      · obtain ⟨rfl, rfl⟩ := ExchangeStatus.inProgress.inj (hst.symm.trans hopen)
        obtain ⟨hge, hsucc⟩ := count_succ hlt
        rw [List.length_append, List.length_singleton]
        by_cases hlast : ((votes.length + 1 : Nat) : Int) = t.toInt
        · rw [if_pos (hge.mpr hlast)] at hst'
          exact Or.inr ⟨hst', hlast⟩
        · rw [if_neg (fun hc => hlast (hge.mp hc)), hsucc] at hst'
          exact Or.inl ⟨hst', by omega⟩
      · rw [hst] at hopen
        cases hopen

/-- Of votes that are all confirmations, the order keeps a record as it should. -/
theorem Tallied.records (h : ex.Tallied t votes) (hall : ∀ v ∈ votes, v.decision = .confirm) : ex.Records t votes := by
  obtain ⟨hkeys, hst⟩ := h.confirmed hall
  have hlen : ex.confirmations.length = votes.length := by
    rw [h.signed, List.length_map]
  have hlenr : ex.rejections.length = 0 := by
    rw [h.unrejected]
    rfl
  constructor
  · rw [votesFor_self hall, h.signed]
  · rw [h.unrejected, votesFor_eq_nil_iff.mpr]
    · rfl
    · intro v hv hd
      cases (hall v hv).symm.trans hd
  · rw [h.keys]
    exact hkeys
  · rw [h.unrejected]
    exact List.nodup_nil
  · intro m n hopen
    rcases hst with ⟨hst, hlt⟩ | ⟨hst, -⟩
    · obtain ⟨rfl, rfl⟩ := ExchangeStatus.inProgress.inj (hst.symm.trans hopen)
      have ht := Int16.toInt_lt t
      have hm : (Int16.ofNat votes.length).toInt = votes.length := Int16.toInt_ofNat_of_lt (by omega)
      rw [hm, hlen, hlenr]
      have hz : (0 : Int16).toInt = 0 := rfl
      omega
    · rw [hst] at hopen
      cases hopen
  · intro hdone
    rcases hst with ⟨hst, -⟩ | ⟨-, hlt⟩
    · rw [hst] at hdone
      cases hdone
    · omega
  · intro hdone
    rcases hst with ⟨hst, -⟩ | ⟨hst, -⟩
    · rw [hst] at hdone
      cases hdone
    · rw [hst] at hdone
      cases hdone

/-- A second confirmation by a key fails. -/
theorem Tallied.once (h : ex.Tallied t votes) (hv : v ∈ votes) {w : ExchangeDecision} (hw : w.decision = .confirm)
    (hkey : w.publicKey = v.publicKey) : ∃ e, ex.applyDecision t w = .error e := by
  cases hd : ex.applyDecision t w with
  | error e => exact ⟨e, rfl⟩
  | ok p =>
    obtain ⟨-, -, -, hnew, -⟩ := applyDecision_confirm hd hw
    have hmem : w.publicKey ∈ ex.confirmations.map (·.publicKey) := by
      rw [h.keys, hkey]
      exact List.mem_map_of_mem hv
    rw [hasConfirmed_iff.mpr hmem] at hnew
    cases hnew

end ExchangeOrder

/-! ## The votes on the orders of a State -/

namespace State

variable {t : Int16} {s s' : State} {o : Oracle} {up : StateUpdate} {res : Option UpdateResult} {us : List StateUpdate}
  {u : UserId} {c : Currency} {i : ExchangeOrderId}

theorem order?_congr (h : s'.users = s.users) : s'.order? u c i = s.order? u c i := by
  rw [order?, currency?_congr h]
  rfl

/-- An order is replaced in the account it is in. -/
theorem order?_modifyExchange (s : State) (v : ExchangeDecision) (ex' : ExchangeOrder) :
    (s.modifyCurrency v.user v.currencyFrom (fun i =>
      { i with exchangeRequests := i.exchangeRequests.modify v.id (fun _ => ex') })).order? u c i =
      if v.IsOn u c i then (s.order? u c i).map (fun _ => ex') else s.order? u c i := by
  rw [order?, currency?_modifyCurrency]
  by_cases hacc : u = v.user ∧ c = v.currencyFrom
  · obtain ⟨rfl, rfl⟩ := hacc
    rw [if_pos ⟨rfl, rfl⟩, Option.bind_map]
    by_cases hi : i = v.id
    · subst hi
      rw [if_pos ⟨rfl, rfl, rfl⟩, order?, Option.map_bind]
      simp only [Function.comp_def, AssocMap.get?_modify_self]
    · rw [if_neg (fun hon => hi hon.2.2.symm), order?]
      simp only [Function.comp_def, AssocMap.get?_modify, if_neg hi]
  · rw [if_neg hacc, if_neg (fun hon => hacc ⟨hon.1.symm, hon.2.1.symm⟩)]
    rfl

/-- An amount that comes in leaves the orders as they are. -/
theorem order?_addIncomingExchange {v : ExchangeDecision} (h : s.addIncomingExchange v = (s', .ok ())) :
    s'.order? u c i = s.order? u c i := by
  unfold addIncomingExchange at h
  split at h
  · cases h
  · split at h
    · cases h
    · obtain rfl := (Prod.mk.inj h).1
      rw [order?, order?, currency?_modifyCurrency]
      split
      · rw [Option.bind_map]
        rfl
      · rfl

/-- A decision that is accepted is a vote on the order it is about, and leaves the others as they are. -/
theorem withExchangeDecisionAt_eq_ok {v : ExchangeDecision} (h : s.withExchangeDecisionAt t v = (s', .ok ())) :
    ∃ ex ex' completes, s.order? v.user v.currencyFrom v.id = some ex ∧ ex.applyDecision t v = .ok (ex', completes) ∧
      ∀ u c i, s'.order? u c i = if v.IsOn u c i then some ex' else s.order? u c i := by
  unfold withExchangeDecisionAt applyExchangeDecisionAt at h
  cases hu : s.users.get? v.user with
  | none => simp [hu] at h
  | some ui =>
    simp only [hu] at h
    cases hc : ui.currencies.get? v.currencyFrom with
    | none => simp [hc] at h
    | some j =>
      simp only [hc] at h
      cases he : j.exchangeRequests.get? v.id with
      | none => simp [he] at h
      | some ex =>
        simp only [he] at h
        cases hd : ex.applyDecision t v with
        | error e => simp [hd] at h
        | ok p =>
          obtain ⟨ex', completes⟩ := p
          simp only [hd] at h
          have hex : s.order? v.user v.currencyFrom v.id = some ex := by
            rw [order?, currency?_of_get? hu, hc]
            exact he
          refine ⟨ex, ex', completes, hex, hd, fun u c i => ?_⟩
          have hafter : s'.order? u c i = (s.modifyCurrency v.user v.currencyFrom (fun i =>
              { i with exchangeRequests := i.exchangeRequests.modify v.id (fun _ => ex') })).order? u c i := by
            cases completes with
            | true =>
              simp only [if_true] at h
              exact (order?_addIncomingExchange h).trans (order?_congr rfl)
            | false =>
              simp only [Bool.false_eq_true, if_false, Prod.mk.injEq, and_true] at h
              rw [h]
          rw [hafter, order?_modifyExchange]
          by_cases hon : v.IsOn u c i
          · obtain ⟨rfl, rfl, rfl⟩ := hon
            rw [if_pos ⟨rfl, rfl, rfl⟩, if_pos ⟨rfl, rfl, rfl⟩, hex]
            rfl
          · rw [if_neg hon, if_neg hon]

/-- An order that is accepted is placed without votes. -/
theorem order?_addExchangeRequest {req : ExchangeOrderUpd} (h : s.addExchangeRequest req = (s', .ok ())) :
    s'.order? req.user req.currencyFrom req.id = some (.ofUpd req) := by
  unfold addExchangeRequest at h
  cases hu : s.users.get? req.user with
  | none => simp [hu] at h
  | some ui =>
    simp only [hu] at h
    cases hc : ui.currencies.get? req.currencyFrom with
    | none => simp [hc] at h
    | some j =>
      simp only [hc] at h
      split at h
      · cases h
      · obtain rfl := (Prod.mk.inj h).1
        rw [order?, currency?_modifyCurrency, if_pos ⟨rfl, rfl⟩, currency?_of_get? hu, hc]
        simp [UserCurrencyInfo.insertExchange]

/-- Every order is tallied with the votes that it was given since it was placed. -/
def OrdersTallied (t : Int16) (s : State) (us : List StateUpdate) : Prop :=
  ∀ u c i ex, s.order? u c i = some ex → ex.Tallied t (votesOn u c i us)

/-- (step) -/
theorem OrdersTallied.applyUpdateAt (ht : 1 ≤ t) (hs : s.OrdersTallied t us) (hsnap : ¬up.body.IsSnapshot)
    (h : s.applyUpdateAt t o up = (s', .ok res)) : s'.OrdersTallied t (us ++ [up]) := by
  intro u c i ex' hex'
  rw [votesOn_concat]
  by_cases hdec : ∃ v, up.body = .exchangeDecision v
  · obtain ⟨v, hb⟩ := hdec
    unfold State.applyUpdateAt at h
    rw [hb] at h
    obtain ⟨s₁, a, hout, rfl, -⟩ := stamped_eq_ok h
    obtain ⟨ex, ex₁, completes, hex, hd, hafter⟩ := withExchangeDecisionAt_eq_ok hout
    have hsame : s₁.order? u c i = some ex' := hex'
    rw [hafter] at hsame
    simp only [StateUpdate.votesAfter, hb]
    by_cases hon : v.IsOn u c i
    · rw [if_pos hon] at hsame ⊢
      obtain ⟨rfl, rfl, rfl⟩ := hon
      obtain rfl := Option.some.inj hsame
      exact (hs _ _ _ _ hex).vote hd
    · rw [if_neg hon] at hsame ⊢
      exact hs u c i ex' hsame
  · have hdec' : ∀ v, up.body ≠ .exchangeDecision v := fun v hb => hdec ⟨v, hb⟩
    rw [applyUpdateAt_eq hdec'] at h
    have hch := applyUpdate_order h hsnap u c i
    rw [hex'] at hch
    by_cases hreq : ∃ req, up.body = .exchangeRequest req ∧ req.user = u ∧ req.currencyFrom = c ∧ req.id = i
    · obtain ⟨req, hb, rfl, rfl, rfl⟩ := hreq
      unfold State.applyUpdate at h
      rw [hb] at h
      obtain ⟨s₁, a, hout, rfl, -⟩ := stamped_eq_ok h
      obtain rfl := Option.some.inj ((order?_addExchangeRequest hout).symm.trans hex')
      simp only [StateUpdate.votesAfter, hb, and_self, if_true]
      exact ExchangeOrder.tallied_ofUpd ht req
    · have hvotes : up.votesAfter u c i (votesOn u c i us) = votesOn u c i us := by
        unfold StateUpdate.votesAfter
        split
        · rename_i req hb
          rw [if_neg (fun hon => hreq ⟨req, hb, hon⟩)]
        · rename_i v hb
          exact absurd hb (hdec' v)
        · rfl
      rw [hvotes]
      generalize ha : s.order? u c i = a at hch
      cases hch with
      | same => exact hs u c i ex' ha
      | created a req hb hi hu hc => exact absurd ⟨req, hb, hu, hc, hi⟩ hreq
      | decided ex _ v completes hb hu hc hi hd => exact absurd hb (hdec' v)

/-- (run) -/
theorem MadeBy.ordersTallied {P : State → UpdateBody → Prop} (ht : 1 ≤ t) (h : s.MadeBy t P us) : s.OrdersTallied t us := by
  refine h.invariant (I := OrdersTallied t) ?_ ?_ ?_
  · intro now genesisHash u c i ex hex
    cases hex
  · exact fun s us created hs => hs
  · exact fun _ hs _ hsnap happly => hs.applyUpdateAt ht hsnap happly

/-- A vote that fails on its order is an update that fails. -/
theorem exists_error_of_applyDecision {v : ExchangeDecision} {ex : ExchangeOrder} {created : NaiveDateTime}
    (hex : s.order? v.user v.currencyFrom v.id = some ex) (hd : ∃ e, ex.applyDecision t v = .error e) :
    ∃ e, (s.applyUpdateAt t o { created := created, body := .exchangeDecision v }).2 = .error e := by
  obtain ⟨e, hd⟩ := hd
  cases hout : (s.applyUpdateAt t o { created := created, body := .exchangeDecision v }) with
  | mk s' r =>
    cases r with
    | error e => exact ⟨e, rfl⟩
    | ok res =>
      obtain ⟨s₁, a, hok, -, -⟩ := stamped_eq_ok hout
      obtain ⟨ex₁, ex₁', completes, hex₁, hd₁, -⟩ := withExchangeDecisionAt_eq_ok hok
      obtain rfl := Option.some.inj (hex.symm.trans hex₁)
      rw [hd] at hd₁
      cases hd₁

/-- Whatever number of confirmations is needed, in every State that is made by updates, an order records the votes that it was given
since it was placed, and takes no second one of a kind from a key, just when all of them are confirmations. -/
theorem exchange_votes_recorded_iff (t : Int16) (ht : 1 ≤ t) (s : State) (us : List StateUpdate) (h : s.MadeBy t anyUpdate us)
    (u : UserId) (c : Currency) (i : ExchangeOrderId) (ex : ExchangeOrder) (hex : s.order? u c i = some ex) :
    s.VotesRecorded t us u c i ex ↔ ∀ v ∈ votesOn u c i us, v.decision = .confirm := by
  have htally := h.ordersTallied ht u c i ex hex
  constructor
  · intro hrec v hv
    have hnone : (votesFor .reject (votesOn u c i us)).map (·.sdata) = [] := by
      rw [← hrec.records.rejections, htally.unrejected]
    cases hd : v.decision with
    | confirm => rfl
    | reject => exact absurd hd (votesFor_eq_nil_iff.mp (List.map_eq_nil_iff.mp hnone) v hv)
  · intro hall
    refine ⟨htally.records hall, fun v hv o created w hon hkey hkind => ?_⟩
    obtain ⟨rfl, rfl, rfl⟩ := hon
    exact exists_error_of_applyDecision hex (htally.once hv (hkind.trans (hall v hv)) hkey)

end State

namespace Sample

/-- A vote on alice's order for a token. -/
def orderVote (d : ExchangeDecisionType) : ExchangeDecision :=
  { exchangeDecision (.erc20 otherToken) 400 5 with decision := d }

/-- Alice enables a token and orders it, and an operator votes on the order. -/
def votedOrder (d : ExchangeDecisionType) : List (Oracle × StateUpdate) :=
  funded ++ [upd 5 (.updateTokens { user := alice, token := otherToken, action := .enable }),
    upd 6 (.exchangeRequest (orderFor otherToken)), upd 7 (.exchangeDecision (orderVote d))]

end Sample

namespace State

open Sample in
/-- An operator confirms alice's order, and the order records it. -/
theorem exchange_votes_recorded : ∃ (s : State) (us : List StateUpdate) (ex : ExchangeOrder),
    s.MadeBy EXCHANGE_NUMBER_OF_CONFIRMATIONS anyUpdate us ∧ votesOn alice .btc (uuid 8) us = [orderVote .confirm] ∧
      s.order? alice .btc (uuid 8) = some ex ∧ ex.status = .completed ∧
        s.VotesRecorded EXCHANGE_NUMBER_OF_CONFIRMATIONS us alice .btc (uuid 8) ex := by
  obtain ⟨j, hj, hq⟩ := Machine.exists_reachable (P := fun (_ : Journal) (a : Oracle × StateUpdate) => ¬a.2.body.IsSnapshot)
    (votedOrder .confirm)
    (q := fun j => decide (votesOn alice .btc (uuid 8) j.updates = [orderVote .confirm]) &&
      (j.state.order? alice .btc (uuid 8)).any (fun ex : ExchangeOrder => decide (ex.status = .completed)))
    start_init (by decide)
  obtain ⟨hvotes, hex⟩ := Bool.and_eq_true_iff.mp hq
  have hvotes := of_decide_eq_true hvotes
  obtain ⟨ex, hex, hst⟩ := (Option.any_eq_true _ _).mp hex
  have hmade : j.state.MadeBy EXCHANGE_NUMBER_OF_CONFIRMATIONS anyUpdate j.updates :=
    Journal.madeBy_updates (fun _ _ h => ⟨trivial, h⟩) hj
  refine ⟨j.state, j.updates, ex, hmade, hvotes, hex, of_decide_eq_true hst, ?_⟩
  refine (exchange_votes_recorded_iff EXCHANGE_NUMBER_OF_CONFIRMATIONS (by decide) j.state j.updates hmade alice .btc (uuid 8) ex
    hex).mpr ?_
  intro v hv
  rw [hvotes, List.mem_singleton] at hv
  rw [hv]
  rfl

open Sample in
/-- An operator rejects alice's order, and the signature is among the confirmations. -/
theorem exchange_rejection_misfiled :
    (∃ (s : State) (us : List StateUpdate) (ex : ExchangeOrder), s.MadeBy EXCHANGE_NUMBER_OF_CONFIRMATIONS anyUpdate us ∧
      votesOn alice .btc (uuid 8) us = [orderVote .reject] ∧ s.order? alice .btc (uuid 8) = some ex ∧ ex.status = .rejected ∧
        ex.confirmations = [(orderVote .reject).sdata] ∧ ex.rejections = []) ∧
    ¬∀ t : Int16, 1 ≤ t → ∀ (s : State) (us : List StateUpdate), s.MadeBy t anyUpdate us → ∀ u c i ex,
      s.order? u c i = some ex → s.VotesRecorded t us u c i ex := by
  obtain ⟨j, hj, hq⟩ := Machine.exists_reachable (P := fun (_ : Journal) (a : Oracle × StateUpdate) => ¬a.2.body.IsSnapshot)
    (votedOrder .reject)
    (q := fun j => decide (votesOn alice .btc (uuid 8) j.updates = [orderVote .reject]) &&
      (j.state.order? alice .btc (uuid 8)).any (fun ex : ExchangeOrder => decide (ex.status = .rejected ∧
        ex.confirmations = [(orderVote .reject).sdata] ∧ ex.rejections = []))) start_init (by decide)
  obtain ⟨hvotes, hex⟩ := Bool.and_eq_true_iff.mp hq
  have hvotes := of_decide_eq_true hvotes
  obtain ⟨ex, hex, hst⟩ := (Option.any_eq_true _ _).mp hex
  obtain ⟨hst, hconf, hrej⟩ := of_decide_eq_true hst
  have hmade : j.state.MadeBy EXCHANGE_NUMBER_OF_CONFIRMATIONS anyUpdate j.updates :=
    Journal.madeBy_updates (fun _ _ h => ⟨trivial, h⟩) hj
  refine ⟨⟨j.state, j.updates, ex, hmade, hvotes, hex, hst, hconf, hrej⟩, fun h => ?_⟩
  have hrec := h EXCHANGE_NUMBER_OF_CONFIRMATIONS (by decide) j.state j.updates hmade alice .btc (uuid 8) ex hex
  have hkept := hrec.records.rejections
  rw [hrej, hvotes] at hkept
  cases hkept

end State

end Hexstody
