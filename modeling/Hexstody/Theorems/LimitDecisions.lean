import Hexstody.Theorems.Settlement

/-!
# Decisions on limits and the request they name

A decision on a limit carries the id of a request, and so does a cancellation; but the pending change is found by user and
currency, its id is not looked at, and the limit that is set is the one of the last decision. `limit_decisions_named` says exactly
when a decision or a cancellation applies to the request it names, and nothing else (`State.NamesPending`), in every State that is
built; and that in a run in which all do, a limit that is set was asked for, and confirmed by two keys that name the request.
-/

namespace Hexstody

/-- The decision or cancellation applies to the request it names: a decision is counted only if its id is that of the pending
change, and sets the limit of that change when it completes it; a cancellation removes the change only if the ids match. -/
def State.AppliesToNamed (s : State) (o : Oracle) (up : StateUpdate) : Prop :=
  ∀ s' res, s.applyUpdate o up = (s', .ok res) →
    match up.body with
    | .limitChangeDecision lcd => ∃ l, s.limitChange? lcd.user lcd.currency = some l ∧ lcd.id = l.id ∧
        (s.completesLimit lcd = true →
          (s'.currency? lcd.user lcd.currency).map (·.limitInfo.limit) = some l.limit)
    | .cancelLimitChange req => ∀ l, s.limitChange? req.user req.currency = some l →
        s'.limitChange? req.user req.currency = none → req.id = l.id
    | _ => True

/-- A decision that is not a repeated vote has the id of the pending change, and its limit too if it is the last confirmation; a
cancellation has the id of the pending change, if there is one. -/
def State.NamesPending (s : State) : UpdateBody → Prop
  | .limitChangeDecision lcd => ∀ l ∈ s.limitChange? lcd.user lcd.currency, ¬l.HasVote lcd →
      lcd.id = l.id ∧ (l.isLastConfirm lcd = true → lcd.requestedLimit = l.limit)
  | .cancelLimitChange req => ∀ l ∈ s.limitChange? req.user req.currency, req.id = l.id
  | _ => True

instance (l : LimitChangeData) (lcd : LimitChangeDecision) : Decidable (l.HasVote lcd) :=
  inferInstanceAs (Decidable (_ ∨ _))

/-- `NamesPending`, computed. -/
def State.namesPending (s : State) : UpdateBody → Bool
  | .limitChangeDecision lcd => decide (∀ l ∈ s.limitChange? lcd.user lcd.currency, ¬l.HasVote lcd →
      lcd.id = l.id ∧ (l.isLastConfirm lcd = true → lcd.requestedLimit = l.limit))
  | .cancelLimitChange req => decide (∀ l ∈ s.limitChange? req.user req.currency, req.id = l.id)
  | _ => true

theorem State.namesPending_iff (s : State) (b : UpdateBody) : s.namesPending b = true ↔ s.NamesPending b := by
  cases b with
  | limitChangeDecision lcd => exact decide_eq_true_iff
  | cancelLimitChange req => exact decide_eq_true_iff
  | _ => exact iff_of_true rfl trivial

instance (s : State) (b : UpdateBody) : Decidable (s.NamesPending b) := decidable_of_iff _ (s.namesPending_iff b)

namespace State

variable {s s' : State} {o : Oracle} {up : StateUpdate} {res : Option UpdateResult}

/-- The update is a decision that completes a change of the limit of an account: it sets the limit. -/
def SetsLimit (s : State) (up : StateUpdate) (u : UserId) (c : Currency) : Prop :=
  ∃ lcd, up.body = .limitChangeDecision lcd ∧ lcd.user = u ∧ lcd.currency = c ∧ s.completesLimit lcd = true

/-- Every pending change is open, and no key votes twice on a side of it. -/
def LimitsOpen (s : State) : Prop := ∀ u c l, s.limitChange? u c = some l → l.Open ∧ l.Distinct

/-- An update keeps the pending changes open: one that is decided is not pending any more. -/
theorem LimitsOpen.applyUpdate (hl : s.LimitsOpen) (h : s.applyUpdate o up = (s', .ok res))
    (hsnap : ∀ s₀, up.body = .snapshot s₀ → s₀.LimitsOpen) : s'.LimitsOpen := by
  by_cases hs : up.body.IsSnapshot
  · cases hb : up.body with
    | snapshot s₀ =>
      unfold State.applyUpdate at h
      rw [hb] at h
      obtain ⟨s₁, a, hout, rfl, -⟩ := stamped_eq_ok h
      obtain rfl := (Prod.mk.inj hout).1
      exact fun u c l hl => hsnap s₀ hb u c l hl
    | _ => rw [hb] at hs; exact hs.elim
  · intro u c l hlim
    have hch := applyUpdate_pending h hs u c
    rw [hlim] at hch
    generalize ha : s.limitChange? u c = a at hch
    cases hch with
    | same => exact hl u c l ha
    | asked a ui i req hb _ _ _ _ => exact ⟨⟨rfl, Nat.zero_le _, Nat.zero_le _⟩, List.nodup_nil, List.nodup_nil⟩
    | voted l₀ _ lcd hb _ _ hd hopen =>
      obtain ⟨ho, hdistinct⟩ := hl u c l₀ ha
      refine ⟨?_, hdistinct.applyDecision hd⟩
      rcases ho.applyDecision hd with ⟨hst, -, -⟩ | ⟨-, -, ho' | hst⟩
      · simp [LimitChangeData.isDecided, hst] at hopen
      · exact ho'
      · simp [LimitChangeData.isDecided, hst] at hopen

theorem Built.limitsOpen (h : s.Built) : s.LimitsOpen := by
  induction h with
  | new now genesisHash => intro u c l hl; cases hl
  | update _ _ _ happly ih hsnap => exact ih.applyUpdate happly hsnap

/-! ## What a decision does -/

/-- A decision completes a change that is open if it is the last confirmation. -/
theorem completesLimit_eq {lcd : LimitChangeDecision} {l l' : LimitChangeData} (ho : l.Open)
    (hl : s.limitChange? lcd.user lcd.currency = some l) (hd : l.applyDecision lcd = .ok l') :
    s.completesLimit lcd = l.isLastConfirm lcd := by
  unfold completesLimit
  simp only [hl, hd]
  rcases ho.applyDecision hd with ⟨hst, hlast, -⟩ | ⟨hst, hlast, -⟩
  · rw [hlast, hst]
    rfl
  · rw [hlast]
    exact beq_eq_false_iff_ne.mpr hst

/-- An accepted decision is a vote on the pending change; if it completes it, the limit it carries is set. -/
theorem applyUpdate_limitDecision {lcd : LimitChangeDecision} (h : s.applyUpdate o up = (s', .ok res))
    (hb : up.body = .limitChangeDecision lcd) :
    ∃ l l', s.limitChange? lcd.user lcd.currency = some l ∧ l.applyDecision lcd = .ok l' ∧
      (s.completesLimit lcd = true → (s'.currency? lcd.user lcd.currency).map (·.limitInfo.limit) =
        (s.currency? lcd.user lcd.currency).map (fun _ => lcd.requestedLimit)) := by
  unfold State.applyUpdate at h
  rw [hb] at h
  obtain ⟨s₁, a, hout, rfl, -⟩ := stamped_eq_ok h
  obtain ⟨l, l', hl, hd, -, -⟩ := withLimitChangeDecision_eq_ok hout
  refine ⟨l, l', hl, hd, fun hcompletes => ?_⟩
  obtain ⟨ui, hui, hreq⟩ := Option.bind_eq_some_iff.mp hl
  unfold withLimitChangeDecision at hout
  have hst : l'.status = .completed := by
    simpa [completesLimit, hl, hd] using hcompletes
  simp only [hui, hreq, hd, hst, Prod.mk.injEq, and_true] at hout
  rw [← hout]
  change ((modifyUser s lcd.user _).currency? lcd.user lcd.currency).map (·.limitInfo.limit) = _
  rw [currency?_modifyUser, if_pos rfl, currency?_of_get? hui, hui, Option.bind_some, AssocMap.get?_modify_self,
    Option.map_map]
  rfl

/-- A decision on an open change is accepted if its key has not given that vote. -/
theorem exists_applyUpdate_limitDecision {lcd : LimitChangeDecision} {l : LimitChangeData} (ho : l.Open)
    (hl : s.limitChange? lcd.user lcd.currency = some l) (hnew : ¬l.HasVote lcd) (hb : up.body = .limitChangeDecision lcd) :
    ∃ s', s.applyUpdate o up = (s', .ok none) := by
  obtain ⟨l', hd⟩ := ho.exists_ok hnew
  obtain ⟨ui, hui, hreq⟩ := Option.bind_eq_some_iff.mp hl
  unfold State.applyUpdate
  rw [hb]
  unfold withLimitChangeDecision
  simp only [hui, hreq, hd]
  split <;> exact ⟨_, rfl⟩

/-- A cancellation is accepted and closes whatever is pending. -/
theorem applyUpdate_cancel {req : LimitCancelData} {ui : UserInfo} (hui : s.users.get? req.user = some ui)
    (hb : up.body = .cancelLimitChange req) :
    ∃ s', s.applyUpdate o up = (s', .ok none) ∧ s'.limitChange? req.user req.currency = none := by
  refine ⟨{ s.modifyUser req.user (fun u => { u with limitChangeRequests := u.limitChangeRequests.erase req.currency }) with
    lastChanged := up.created }, ?_, ?_⟩
  · unfold State.applyUpdate
    rw [hb]
    simp only [cancelLimitChange, updateUser, hui]
    rfl
  · have hclosed := limitChange?_modifyUser_closed (u := req.user) (c := req.currency) s req.user req.currency
      (fun u => { u with limitChangeRequests := u.limitChangeRequests.erase req.currency }) (fun _ => rfl)
    rw [if_pos ⟨rfl, rfl⟩] at hclosed
    exact hclosed

/-- (step) In a well-formed State with all changes open, a decision or cancellation applies to what it names exactly if it names
what is pending. -/
theorem appliesToNamed_iff (hw : s.WellFormed) (hopen : s.LimitsOpen) (o : Oracle) (up : StateUpdate) :
    s.AppliesToNamed o up ↔ s.NamesPending up.body := by
  unfold AppliesToNamed NamesPending
  cases hb : up.body with
  | limitChangeDecision lcd =>
    constructor
    · intro h l hl hnew
      have ho := (hopen _ _ l hl).1
      obtain ⟨s', happly⟩ := exists_applyUpdate_limitDecision (o := o) ho hl hnew hb
      obtain ⟨l₀, hl₀, hid, hset⟩ := h s' none happly
      obtain rfl := Option.some.inj (hl.symm.trans hl₀)
      refine ⟨hid, fun hlast => ?_⟩
      obtain ⟨l₁, l', hl₁, hd, hset'⟩ := applyUpdate_limitDecision happly hb
      obtain rfl := Option.some.inj (hl.symm.trans hl₁)
      obtain ⟨-, -, i, hi⟩ := hw.limit hl
      rw [← completesLimit_eq ho hl hd] at hlast
      have hafter := hset' hlast
      rw [hset hlast, hi] at hafter
      exact (Option.some.inj hafter).symm
    · intro h s' res happly
      obtain ⟨l, l', hl, hd, hset⟩ := applyUpdate_limitDecision happly hb
      obtain ⟨hid, hlim⟩ := h l hl (LimitChangeData.applyDecision_hasVote hd).1
      refine ⟨l, hl, hid, fun hcompletes => ?_⟩
      obtain ⟨-, -, i, hi⟩ := hw.limit hl
      have hlast : l.isLastConfirm lcd = true := by rw [← completesLimit_eq (hopen _ _ l hl).1 hl hd, hcompletes]
      rw [hset hcompletes, hi, ← hlim hlast]
      rfl
  | cancelLimitChange req =>
    constructor
    · intro h l hl
      obtain ⟨ui, hui, -⟩ := Option.bind_eq_some_iff.mp hl
      obtain ⟨s', happly, hnone⟩ := applyUpdate_cancel (o := o) hui hb
      exact h s' none happly l hl hnone
    · intro h s' res _ l hl _
      exact h l hl
  | _ => exact ⟨fun _ => trivial, fun _ _ _ _ => trivial⟩

end State

/-! ## Who confirmed a limit -/

/-- The row is a confirmation, by a key, of the change of an account's limit with an id. -/
def Row.Confirms (row : Row) (u : UserId) (c : Currency) (id : Uuid) (k : PublicKey) : Prop :=
  ∃ lcd, row.update.body = .limitChangeDecision lcd ∧ lcd.decisionType = .confirm ∧ lcd.user = u ∧ lcd.currency = c ∧
    lcd.id = id ∧ lcd.publicKey = k

namespace Journal

variable {j j' : Journal} {o : Oracle} {up : StateUpdate}

/-- A row asks for a limit of an account, under an id, and each of some keys confirms it in a later row, by that id. -/
def ConfirmedSince (j : Journal) (u : UserId) (c : Currency) (id : Uuid) (limit : Limit) (keys : List PublicKey) : Prop :=
  ∃ pre ask post req, j.rows = pre ++ ask :: post ∧ ask.update.body = .limitsChangeRequest req ∧ req.user = u ∧
    req.currency = c ∧ req.limit = limit ∧ ask.oracle.newId = id ∧ ∀ k ∈ keys, ∃ row ∈ post, row.Confirms u c id k

/-- What is confirmed stays confirmed, and one more row may be one more confirmation. -/
theorem ConfirmedSince.store {u : UserId} {c : Currency} {id : Uuid} {limit : Limit} {keys keys' : List PublicKey}
    (hc : j.ConfirmedSince u c id limit keys) (h : j.store o up = some j')
    (hkeys : ∀ k ∈ keys', k ∈ keys ∨ ({ update := up, oracle := o, result := j'.answer } : Row).Confirms u c id k) :
    j'.ConfirmedSince u c id limit keys' := by
  obtain ⟨pre, ask, post, req, hrows, hask, hu, hcur, hlim, hid, hall⟩ := hc
  obtain ⟨res, happly, hrows'⟩ := store_eq_some h
  refine ⟨pre, ask, post ++ [{ update := up, oracle := o, result := res }], req, ?_, hask, hu, hcur, hlim, hid, ?_⟩
  · rw [hrows', hrows]
    simp
  · intro k hk
    rcases hkeys k hk with hold | hnew
    · obtain ⟨row, hrow, hconf⟩ := hall k hold
      exact ⟨row, List.mem_append_left _ hrow, hconf⟩
    · exact ⟨_, List.mem_append_right _ (List.mem_singleton_self _), hnew⟩

/-- Every key that the votes on a pending change have as confirming confirmed it since it was asked for, by its id. -/
def VotesNamed (j : Journal) : Prop :=
  ∀ u c l, j.state.limitChange? u c = some l → j.ConfirmedSince u c l.id l.limit l.confirmKeys

/-- A vote that names the pending change is one more vote that names it. -/
theorem VotesNamed.vote (hv : j.VotesNamed) (hnames : j.state.NamesPending up.body) (h : j.store o up = some j')
    {lcd : LimitChangeDecision} {l l' : LimitChangeData} (hb : up.body = .limitChangeDecision lcd)
    (hl : j.state.limitChange? lcd.user lcd.currency = some l) (hd : l.applyDecision lcd = .ok l') :
    j'.ConfirmedSince lcd.user lcd.currency l.id l.limit l'.confirmKeys := by
  rw [hb] at hnames
  obtain ⟨hid, -⟩ := hnames l hl (LimitChangeData.applyDecision_hasVote hd).1
  refine (hv _ _ l hl).store h fun k hk => ?_
  rcases LimitChangeData.applyDecision_eq_ok hd with ⟨htype, -, hconf, -⟩ | ⟨-, -, -, hconf⟩
  · rw [hconf] at hk
    rcases List.mem_append.mp hk with hk | hk
    · exact Or.inl hk
    · obtain rfl := List.mem_singleton.mp hk
      exact Or.inr ⟨lcd, hb, htype, rfl, rfl, hid, rfl⟩
  · rw [hconf] at hk
    exact Or.inl hk

/-- (step) An update that names what is pending keeps the votes named. -/
theorem VotesNamed.store (hv : j.VotesNamed) (hs : ¬up.body.IsSnapshot) (hnames : j.state.NamesPending up.body)
    (h : j.store o up = some j') : j'.VotesNamed := by
  intro u c l hl
  have hch := applyUpdate_pending (store_answer h) hs u c
  rw [hl] at hch
  generalize ha : j.state.limitChange? u c = a at hch
  cases hch with
  | same => exact (hv u c l ha).store h (fun k hk => Or.inl hk)
  | asked a ui i req hb hu hc _ _ =>
    obtain ⟨res, -, hrows⟩ := store_eq_some h
    exact ⟨j.rows, _, [], req, hrows, hb, hu, hc, rfl, rfl, fun k hk => (by cases hk)⟩
  | voted l₀ _ lcd hb hu hc hd _ =>
    have hsame := LimitChangeData.applyDecision_sameChange hd
    subst hu hc
    rw [hsame.id, hsame.limit]
    exact hv.vote hnames h hb ha hd

/-- The steps of a run in which every decision and cancellation names what is pending. -/
def NamingStep (j : Journal) (a : Oracle × StateUpdate) : Prop := ¬a.2.body.IsSnapshot ∧ j.state.NamesPending a.2.body

instance (j : Journal) (a : Oracle × StateUpdate) : Decidable (j.NamingStep a) := inferInstanceAs (Decidable (_ ∧ _))

/-- (run) What holds of the pending changes when every decision names one: they are open, and their votes are named. -/
theorem votesNamed_of_reachable (h : machine.Reachable NamingStep j) : j.state.LimitsOpen ∧ j.VotesNamed := by
  refine Machine.Reachable.invariant (I := fun j => j.state.LimitsOpen ∧ j.VotesNamed) h ?_ ?_
  · rintro _ ⟨now, genesisHash, rfl⟩
    exact ⟨fun u c l hl => (by cases hl), fun u c l hl => (by cases hl)⟩
  · rintro j ⟨o, up⟩ j' - ⟨hopen, hv⟩ ⟨hs, hnames⟩ hstep
    refine ⟨hopen.applyUpdate (store_answer hstep) ?_, hv.store hs hnames hstep⟩
    intro s₀ hb
    exact absurd (by rw [show up.body = .snapshot s₀ from hb]; trivial) hs

/-- The limit of an account is changed by nothing but a decision that completes a change of it. -/
theorem limit_of_change {s : State} {u : UserId} {c : Currency} {i i' : UserCurrencyInfo}
    (h : AccountChange s up u c (some i) (some i')) : i'.limitInfo.limit = i.limitInfo.limit ∨ s.SetsLimit up u c := by
  cases h with
  | same => exact Or.inl rfl
  | requested i info _ _ _ _ => exact Or.inl rfl
  | voted i d r r' confirmed _ _ _ _ _ => exact Or.inl rfl
  | completed i info _ => exact Or.inl rfl
  | nodeRejected i info _ => exact Or.inl rfl
  | addressed i address _ _ _ => exact Or.inl rfl
  | deposited i tx _ _ => rw [UserCurrencyInfo.updateBtcTx_eq]; exact Or.inl rfl
  | canceled i tx owner rid _ _ _ => rw [UserCurrencyInfo.afterCancel_eq]; exact Or.inl rfl
  | limited i lcd hb hu hc hcompletes => exact Or.inr ⟨lcd, hb, hu, hc, hcompletes⟩
  | cleared i span _ => rw [UserCurrencyInfo.clearLimit_eq]; exact Or.inl rfl
  | ordered i req _ _ _ _ => exact Or.inl rfl
  | exchanged i k req ex ex' completes _ _ _ _ _ => rw [UserCurrencyInfo.afterExchange_eq]; exact Or.inl rfl

/-- A list without repetitions that has two entries has two different ones. -/
theorem exists_two_of_nodup {l : List PublicKey} (hn : l.Nodup) (hl : 2 ≤ l.length) : ∃ k₁ ∈ l, ∃ k₂ ∈ l, k₁ ≠ k₂ := by
  obtain ⟨k₁, l₁, rfl⟩ := List.exists_cons_of_length_pos (show 0 < l.length by omega)
  obtain ⟨k₂, l₂, rfl⟩ := List.exists_cons_of_length_pos (show 0 < l₁.length by simp at hl; omega)
  refine ⟨k₁, by simp, k₂, by simp, fun heq => ?_⟩
  exact (List.nodup_cons.mp hn).1 (heq ▸ List.mem_cons_self)

/-- (run) When every decision names what is pending, a limit that is set was asked for, and two keys confirmed it since, by the id
it was asked for under. -/
theorem twice_confirmed (hj : machine.Reachable NamingStep j) (hp : j.NamingStep (o, up)) (h : j.store o up = some j')
    {u : UserId} {c : Currency} {i i' : UserCurrencyInfo} (hi : j.state.currency? u c = some i)
    (hi' : j'.state.currency? u c = some i') (hset : j.state.SetsLimit up u c) :
    ∃ id k₁ k₂, k₁ ≠ k₂ ∧ j'.ConfirmedSince u c id i'.limitInfo.limit [k₁, k₂] := by
  obtain ⟨hopen, hv⟩ := votesNamed_of_reachable hj
  obtain ⟨lcd, hb, rfl, rfl, hcompletes⟩ := hset
  obtain ⟨l, l', hl, hd, hafter⟩ := State.applyUpdate_limitDecision (store_answer h) hb
  have hlimit := hafter hcompletes
  rw [hi, hi'] at hlimit
  obtain ⟨ho, hdistinct⟩ := hopen _ _ l hl
  have hlast := hcompletes
  rw [State.completesLimit_eq ho hl hd] at hlast
  have hlen : 2 ≤ l'.confirmKeys.length := by
    rcases ho.applyDecision hd with ⟨-, -, hlen⟩ | ⟨-, hnot, -⟩
    · exact hlen
    · rw [hnot] at hlast
      cases hlast
  have hlim : lcd.requestedLimit = l.limit := by
    have hnames := hp.2
    rw [show (o, up).2.body = .limitChangeDecision lcd from hb] at hnames
    exact (hnames l hl (LimitChangeData.applyDecision_hasVote hd).1).2 hlast
  obtain ⟨k₁, hk₁, k₂, hk₂, hkk⟩ := exists_two_of_nodup (hdistinct.applyDecision hd).confirmations hlen
  refine ⟨l.id, k₁, k₂, hkk, ?_⟩
  obtain ⟨pre, ask, post, req, hrows, hask, hu, hc, hr, hid, hall⟩ := hv.vote hp.2 h hb hl hd
  refine ⟨pre, ask, post, req, hrows, hask, hu, hc, ?_, hid, ?_⟩
  · rw [hr, ← hlim]
    exact (Option.some.inj hlimit).symm
  · intro k hk
    rcases List.mem_pair.mp hk with rfl | rfl
    · exact hall _ hk₁
    · exact hall _ hk₂

/-- In a State that is built, a decision or a cancellation applies to the request it names exactly if it names the pending change;
and in a run in which all do, no limit of an account changes unless it was asked for and two keys confirmed it since, by the id of
the request. -/
theorem limit_decisions_named (s : State) (hb : s.Built) (o : Oracle) (up : StateUpdate) :
    (s.AppliesToNamed o up ↔ s.NamesPending up.body) ∧
      ∀ (j j' : Journal) (o : Oracle) (up : StateUpdate), machine.Reachable NamingStep j → j.NamingStep (o, up) →
        j.store o up = some j' → ∀ (u : UserId) (c : Currency) (i i' : UserCurrencyInfo), j.state.currency? u c = some i →
          j'.state.currency? u c = some i' → i'.limitInfo.limit ≠ i.limitInfo.limit ∨ j.state.SetsLimit up u c →
            ∃ id k₁ k₂, k₁ ≠ k₂ ∧ j'.ConfirmedSince u c id i'.limitInfo.limit [k₁, k₂] := by
  constructor
  · exact State.appliesToNamed_iff hb.wellFormed hb.limitsOpen o up
  · intro j j' o up hj hp h u c i i' hi hi' hset
    have hch := applyUpdate_account (store_answer h) hp.1 u c
    rw [hi, hi'] at hch
    refine twice_confirmed hj hp h hi hi' ?_
    rcases hset with hne | hset
    · exact (limit_of_change hch).resolve_left hne
    · exact hset

end Journal

namespace Sample

/-- Alice asks for a limit, under an id. -/
def askLimit (t : Int) (n : Nat) (amount : UInt64) : Oracle × StateUpdate :=
  ({ oracle with newId := uuid n },
    { created := ⟨t⟩
      body := .limitsChangeRequest { user := alice, currency := .btc, limit := { amount := amount, span := .day } } })

/-- An operator confirms it, by the id. -/
def limitDecision (n : Nat) (k : UInt8) (amount : UInt64) : LimitChangeDecision where
  id := uuid n
  user := alice
  currency := .btc
  createdAt := ""
  requestedLimit := { amount := amount, span := .day }
  url := "url"
  signature := ⟨[]⟩
  nonce := 0
  publicKey := key k
  decisionType := .confirm

end Sample

/-- The key that confirms a change of a limit with an id by a row, if it does. -/
def Row.confirmer? (row : Row) (id : Uuid) : Option PublicKey :=
  match row.update.body with
  | .limitChangeDecision lcd => if lcd.id = id ∧ lcd.decisionType = .confirm then some lcd.publicKey else none
  | _ => none

namespace Journal

/-- Two keys confirm the request that is pending, and its limit is set. -/
theorem limit_decisions_run : ∃ (j : Journal) (i' : UserCurrencyInfo), j.state.currency? Sample.alice .btc = some i' ∧
    i'.limitInfo.limit = { amount := 1000, span := .day } ∧
      ∃ id k₁ k₂, k₁ ≠ k₂ ∧ j.ConfirmedSince Sample.alice .btc id i'.limitInfo.limit [k₁, k₂] := by
  obtain ⟨j, hj, hq⟩ := Machine.exists_reachable (P := NamingStep)
    (Sample.signup ++ [Sample.askLimit 3 1 10, Sample.askLimit 4 2 1000,
      Sample.upd 5 (.limitChangeDecision (Sample.limitDecision 2 1 1000))])
    (q := fun j => decide (j.NamingStep (Sample.upd 6 (.limitChangeDecision (Sample.limitDecision 2 2 1000)))) &&
      ((j.state.currency? Sample.alice .btc).any (·.limitInfo.limit ≠ { amount := 1000, span := .day }) &&
        (j.store Sample.oracle (Sample.upd 6 (.limitChangeDecision (Sample.limitDecision 2 2 1000))).2).any fun j' =>
          (j'.state.currency? Sample.alice .btc).any (·.limitInfo.limit = { amount := 1000, span := .day })))
    Sample.start_init (by decide)
  obtain ⟨hnames, hq⟩ := Bool.and_eq_true_iff.mp hq
  obtain ⟨hbefore, hafter⟩ := Bool.and_eq_true_iff.mp hq
  obtain ⟨i, hi, hne⟩ := (Option.any_eq_true _ _).mp hbefore
  obtain ⟨j', hj', hafter⟩ := (Option.any_eq_true _ _).mp hafter
  obtain ⟨i', hi', heq⟩ := (Option.any_eq_true _ _).mp hafter
  have hlim := of_decide_eq_true heq
  have hb : (State.new ⟨0⟩ "genesis").Built := .new ⟨0⟩ "genesis"
  exact ⟨j', i', hi', hlim, (limit_decisions_named _ hb Sample.oracle
    (Sample.upd 6 (.limitChangeDecision (Sample.limitDecision 2 2 1000))).2).2 j j' _ _ hj (of_decide_eq_true hnames) hj' _ _ i i' hi hi'
    (Or.inl (by rw [hlim]; exact (of_decide_eq_true hne).symm))⟩

/-- An operator confirms a limit of 10 that alice has replaced by one of 1000; the vote is counted for the new one, and the limit
of 1000 is set although one key confirmed it. -/
theorem limit_decision_stray :
    (∃ j, machine.Reachable Fresh j ∧
      (j.state.currency? Sample.alice .btc).map (·.limitInfo.limit) = some { amount := 1000, span := .day } ∧
        j.rows.filterMap (·.confirmer? (Sample.uuid 2)) = [Sample.key 2]) ∧
      ¬∀ s : State, s.Built → ∀ (o : Oracle) (up : StateUpdate), s.AppliesToNamed o up := by
  constructor
  · obtain ⟨j, hj, hq⟩ := Machine.exists_reachable (P := Fresh)
      (Sample.signup ++ [Sample.askLimit 3 1 10, Sample.askLimit 4 2 1000,
        Sample.upd 5 (.limitChangeDecision (Sample.limitDecision 1 1 10)),
        Sample.upd 6 (.limitChangeDecision (Sample.limitDecision 2 2 1000))])
      (q := fun j => decide ((j.state.currency? Sample.alice .btc).map (·.limitInfo.limit) =
          some { amount := 1000, span := .day } ∧ j.rows.filterMap (·.confirmer? (Sample.uuid 2)) = [Sample.key 2]))
      Sample.start_init (by decide)
    exact ⟨j, hj, of_decide_eq_true hq⟩
  · intro h
    obtain ⟨j, hj, hq⟩ := Machine.exists_reachable (P := Fresh)
      (Sample.signup ++ [Sample.askLimit 3 1 10, Sample.askLimit 4 2 1000])
      (q := fun j => (j.state.limitChange? Sample.alice .btc).any (·.id = Sample.uuid 2) &&
        (j.store Sample.oracle (Sample.upd 5 (.limitChangeDecision (Sample.limitDecision 1 1 10))).2).isSome)
      Sample.start_init (by decide)
    obtain ⟨hpending, hstored⟩ := Bool.and_eq_true_iff.mp hq
    obtain ⟨l, hl, hid⟩ := (Option.any_eq_true _ _).mp hpending
    obtain ⟨j', hj'⟩ := Option.isSome_iff_exists.mp hstored
    obtain ⟨l', hl', hid', -⟩ := h j.state (built_of_reachable (fun _ _ h => h) hj) _ _ _ _ (store_answer hj')
    obtain rfl := Option.some.inj (hl.symm.trans hl')
    rw [← hid'] at hid
    exact absurd (of_decide_eq_true hid) (by decide)

end Journal

end Hexstody
