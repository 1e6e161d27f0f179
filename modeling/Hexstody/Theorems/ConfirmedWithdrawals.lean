import Hexstody.Process
import Hexstody.Theorems.Statuses

/-!
# Whether a confirmed withdrawal is forgotten

A request that operators confirmed stays confirmed until an update settles it, and what leads to that update exists only in
memory: the result in the channel, the call of the worker, the update that reports it. It is lost when the process stops; it is not
sent at all after a payment in ether or in a token that succeeds; and an update that the database does not store is dropped. In
every run without such a step, every confirmed request has one of the three (`confirmed_attended`), whatever the handlers, and
however the tasks interleave.
-/

namespace Hexstody

/-- The ids of the requests that are confirmed. -/
def State.confirmedIds (s : State) : List WithdrawalRequestId :=
  s.users.values.flatMap fun user => user.currencies.values.flatMap fun info =>
    (info.withdrawalRequests.values.filter (fun req => req.status == .confirmed)).map (·.id)

/-- Every request is under its own id. -/
def State.Keyed (s : State) : Prop := ∀ u c i r, s.request? u c i = some r → r.id = i

namespace State

variable {s s' : State} {o : Oracle} {up : StateUpdate} {res : Option UpdateResult} {u : UserId} {c : Currency}
  {i : WithdrawalRequestId} {r : WithdrawalRequest}

theorem mem_confirmedIds (h : s.request? u c i = some r) (hst : r.status = .confirmed) : r.id ∈ s.confirmedIds := by
  obtain ⟨info, hinfo, hr⟩ := request?_eq_some h
  obtain ⟨user, hu, hc⟩ := Option.bind_eq_some_iff.mp hinfo
  refine List.mem_flatMap.mpr ⟨user, (AssocMap.mem_values_iff _ _).mpr ⟨u, hu⟩, ?_⟩
  refine List.mem_flatMap.mpr ⟨info, (AssocMap.mem_values_iff _ _).mpr ⟨c, hc⟩, ?_⟩
  refine List.mem_map_of_mem (List.mem_filter.mpr ⟨(AssocMap.mem_values_iff _ _).mpr ⟨i, hr⟩, ?_⟩)
  rw [hst]
  rfl

/-- (step) -/
theorem Keyed.applyUpdate (h : s.Keyed) (ha : s.applyUpdate o up = (s', .ok res)) (hsnap : ¬up.body.IsSnapshot) :
    s'.Keyed := by
  intro u c i r' hr'
  have hch := applyUpdate_request ha hsnap u c i
  rw [hr'] at hch
  generalize hb : s.request? u c i = before at hch
  cases hch with
  | same => exact h u c i r' hb
  | created a info hbody hi _ _ => exact hi
  | voted r _ d confirmed _ _ _ _ hd => exact (WithdrawalRequest.applyDecision_sameOrder hd).id.trans (h u c i r hb)
  | completed r info _ _ => exact h u c i r hb
  | nodeRejected r info _ _ => exact h u c i r hb
  | canceled r tx _ _ => exact h u c i r hb

/-- What was collected with one more update. -/
theorem collect_concat_eq_ok {now : NaiveDateTime} {genesisHash : String} {as : List (Oracle × StateUpdate)}
    (h : collect now genesisHash (as ++ [(o, up)]) = .ok s') :
    ∃ s res, collect now genesisHash as = .ok s ∧ s.applyUpdate o up = (s', .ok res) := by
  cases hc : collect now genesisHash as with
  | error e =>
    unfold collect at h hc
    rw [List.foldlM_append, hc] at h
    cases h
  | ok s =>
    unfold collect at h hc
    rw [List.foldlM_append, hc] at h
    cases ha : s.applyUpdate o up with
    | mk s₁ out =>
      cases out with
      | error e => simp [ha, bind, Except.bind] at h
      | ok res =>
        simp only [bind, Except.bind, List.foldlM_cons, List.foldlM_nil, ha] at h
        obtain rfl := Except.ok.inj h
        exact ⟨s, res, rfl, ha⟩

/-- (run) -/
theorem keyed_of_collect {now : NaiveDateTime} {genesisHash : String} {as : List (Oracle × StateUpdate)}
    (h : collect now genesisHash as = .ok s) (hsnap : ∀ a ∈ as, ¬a.2.body.IsSnapshot) : s.Keyed := by
  induction as using List.reverseRecOn generalizing s with
  | nil =>
    obtain rfl := Except.ok.inj h
    exact fun u c i r hr => by cases hr
  | append_singleton as a ih =>
    obtain ⟨s₀, res, hs₀, ha⟩ := collect_concat_eq_ok h
    have h₀ : s₀.Keyed := ih hs₀ (fun a ha => hsnap a (List.mem_append_left _ ha))
    exact h₀.applyUpdate ha (hsnap a (List.mem_append_right _ (List.mem_singleton.mpr rfl)))

/-- An update that settles a request leaves it not confirmed. -/
theorem not_confirmed_of_settled (ha : s.applyUpdate o up = (s', .ok res)) (hset : up.settled? = some i)
    (hr : s'.request? u c i = some r) : r.status ≠ .confirmed := by
  have key : ∀ (st : WithdrawalRequestStatus), st ≠ .confirmed →
      (s.mapCurrencies (·.setRequestStatus i st)).request? u c i = some r → r.status ≠ .confirmed := by
    intro st hst hreq
    rw [request?, currency?_mapCurrencies, Option.bind_map] at hreq
    obtain ⟨info, -, hget⟩ := Option.bind_eq_some_iff.mp hreq
    have hget : (info.setRequestStatus i st).withdrawalRequests.get? i = some r := hget
    rw [get?_setRequestStatus] at hget
    obtain ⟨r₀, -, rfl⟩ := Option.map_eq_some_iff.mp hget
    rw [if_pos rfl]
    exact hst
  unfold StateUpdate.settled? at hset
  unfold State.applyUpdate at ha
  split at hset
  · rename_i info hb
    obtain rfl := Option.some.inj hset
    rw [hb] at ha
    obtain ⟨s₁, a, hout, rfl, -⟩ := stamped_eq_ok ha
    refine key info.toStatus (fun hc => by cases hc) ?_
    rw [← (Prod.mk.inj hout).1] at hr
    exact hr
  · rename_i info hb
    obtain rfl := Option.some.inj hset
    rw [hb] at ha
    obtain ⟨s₁, a, hout, rfl, -⟩ := stamped_eq_ok ha
    refine key (.nodeRejected info.reason) (fun hc => by cases hc) ?_
    rw [← (Prod.mk.inj hout).1] at hr
    exact hr
  · cases hset

end State

namespace Sample

/-- A restart that selects the rows as they are stamped. -/
def restart (rows : Nat) : Restart where
  selected := (List.range rows).reverse
  now := ⟨0⟩
  orders _ := oracle

/-- What an operator signs about alice's withdrawal in ether. -/
def ethConfirmation : ConfirmationData :=
  { confirmation 7 1000 with address := .eth { account := "out" } }

end Sample

namespace World

variable {ι : Type} {C : Client ι} {k : Clock} {kept : Column} {genesisHash : String} {w w' : World}

/-- Something is under way that settles the request with an id: its result is in the channel, the worker is executing it, or the
update that settles it is in the channel. -/
def Attends (w : World) (id : WithdrawalRequestId) : Prop :=
  .withdrawConfirmed id ∈ w.results ∨ w.worker.request? = some id ∨ ∃ up ∈ w.updates, up.settled? = some id

/-- Every request that is confirmed is attended to. -/
def ConfirmedAttended (w : World) : Prop :=
  ∀ u c i r, w.journal.state.request? u c i = some r → r.status = .confirmed → w.Attends r.id

/-- The request that the worker's call is for. -/
def callingId? (w : World) : Option WithdrawalRequestId :=
  match w.worker with
  | .calling id _ => some id
  | _ => none

/-- The step forgets no confirmed request: the process is not stopped where the State that is read back has one; no payment in
ether or in a token succeeds for one; and no update that settles one fails to be stored. -/
def ForgetsNone (kept : Column) (genesisHash : String) (w : World) : ProcessAction ι → Prop
  | .restart r => ∀ w' ∈ w.restart kept genesisHash r, w'.journal.state.confirmedIds = []
  | .run (.answer .eth _) => ∀ id ∈ w.callingId?, id ∉ w.journal.state.confirmedIds
  | .run (.apply _ false) => ∀ up ∈ w.updates.head?, ∀ id ∈ up.settled?, id ∉ w.journal.state.confirmedIds
  | _ => True

instance (w : World) (a : ProcessAction ι) : Decidable (ForgetsNone kept genesisHash w a) := by
  unfold ForgetsNone
  split <;> exact inferInstance

/-- What is used of the updates, the State and the worker. -/
structure InOrder (w : World) : Prop where
  issued : w.Issued
  keyed : w.journal.state.Keyed
  asked : ∀ id call, w.worker = .calling id call → ∀ i ∈ askedId call, i = id

/-! ## What is used of the updates, the State and the worker -/

theorem mem_queryUpdates {l : List Row} {row : Row} (h : row ∈ queryUpdates l) : row ∈ l := by
  induction l with
  | nil => cases h
  | cons r l ih =>
    rw [queryUpdates] at h
    by_cases hs : r.update.body.IsSnapshot
    · rw [if_pos hs] at h
      exact List.mem_cons.mpr (Or.inl (List.mem_singleton.mp h))
    · rw [if_neg hs] at h
      rcases List.mem_cons.mp h with rfl | h
      · exact List.mem_cons_self
      · exact List.mem_cons_of_mem _ (ih h)

/-- A State that is read back from rows with no snapshot has every request under its own id. -/
theorem keyed_of_queryState {rows : List Row} {s : State} (h : QueryState kept genesisHash rows (.ok s))
    (hsnap : ∀ row ∈ rows, ¬row.update.body.IsSnapshot) : s.Keyed := by
  obtain ⟨l, as, now, hsel, hreplays, hs⟩ := h
  refine State.keyed_of_collect hs (fun a ha => ?_)
  obtain ⟨n, hn, rfl⟩ := List.mem_iff_getElem.mp ha
  obtain ⟨hlen, hget⟩ := List.forall₂_iff_get.mp hreplays
  have hrow := hget n (hlen ▸ hn) hn
  rw [List.get_eq_getElem, List.get_eq_getElem] at hrow
  rw [hrow.body]
  refine hsnap _ (hsel.1.subset (mem_queryUpdates (List.mem_reverse.mp ?_)))
  exact List.getElem_mem _

/-- (step) -/
theorem InOrder.run {a : Action ι} (h : w.InOrder) (hs : Step C k w a w') : w'.InOrder := by
  have hissued := h.issued.step hs
  cases hs with
  | applied o u us j hu hj =>
    exact ⟨hissued, h.keyed.applyUpdate (Journal.store_answer hj) ((h.issued.fresh (o := o) hu).1), h.asked⟩
  | took o r rs id call hw hr ht =>
    refine ⟨hissued, h.keyed, fun id' call' hc => ?_⟩
    obtain ⟨rfl, rfl⟩ := Worker.calling.inj hc
    exact taken_asked ht
  | returned id call reply now wk hw ha =>
    refine ⟨hissued, h.keyed, fun id' call' hc => ?_⟩
    exact absurd hc ((answered_settled ha (h.asked id call hw)).2 id' call')
  | sent u hw => exact ⟨hissued, h.keyed, fun id' call' hc => by cases hc⟩
  | _ => exact ⟨hissued, h.keyed, h.asked⟩

/-- (step) -/
theorem InOrder.restart {r : Restart} (h : w.InOrder) (hs : w.restart kept genesisHash r = some w') : w'.InOrder := by
  obtain ⟨s, hquery, rfl⟩ := exists_restart_iff.mp ⟨r, hs⟩
  refine ⟨?_, keyed_of_queryState hquery (fun row hrow => ?_), fun id call hc => by cases hc⟩
  · refine h.issued.of_subperm (List.Sublist.subperm ?_) rfl (fun u hu => by cases hu) (fun u hu => by cases hu)
    simp only [sentUpdates, restarted, List.append_nil, List.append_assoc]
    exact List.sublist_append_left _ _
  · exact h.issued.noSnapshot _ (List.mem_append_left _ (List.mem_append_left _ (List.mem_map_of_mem hrow)))

/-! ## What attends to a request -/

/-- What the worker does when a call returns, unless a payment in ether or in a token succeeds, reports the request. -/
theorem answered_request {id : WithdrawalRequestId} {call : PayCall} {reply : Reply} {now : NaiveDateTime} {wk : Worker}
    (h : answered id call reply now = some wk) (hasked : ∀ i ∈ askedId call, i = id) (hreply : reply ≠ .eth) :
    wk.request? = some id := by
  rcases answered_cases h with rfl | ⟨resp, t, hi, rfl⟩ | ⟨reason, rfl⟩
  · unfold answered at h
    split at h
    · split at h <;> cases h
    · split at h <;> cases h
    · exact absurd rfl hreply
    · exact absurd rfl hreply
    · cases h
    · cases h
  · exact congrArg some (hasked resp.id hi)
  · rfl

/-- An update that settles a request is accepted. -/
theorem store_settled {j : Journal} {o : Oracle} {up : StateUpdate} {id : WithdrawalRequestId}
    (h : up.settled? = some id) : j.store o up ≠ none := by
  unfold StateUpdate.settled? at h
  unfold Journal.store State.applyUpdate
  split at h
  · rename_i info hb
    rw [hb]
    exact fun hc => by cases hc
  · rename_i info hb
    rw [hb]
    exact fun hc => by cases hc
  · cases h

/-- An update that is taken from the channel and leaves the journal as it is was refused, or was not stored. -/
theorem apply_cases {o : Oracle} {stored : Bool} (h : w.apply o stored = some w') :
    ∃ up us, w.updates = up :: us ∧
      ((stored = true ∧ ∃ j, w.journal.store o up = some j ∧
          w' = { w with updates := us, journal := j, results := w.results ++ j.answer.toList }) ∨
        ((stored = false ∨ w.journal.store o up = none) ∧ w' = { w with updates := us })) := by
  unfold apply at h
  cases hu : w.updates with
  | nil => simp [hu] at h
  | cons up us =>
    simp only [hu] at h
    refine ⟨up, us, rfl, ?_⟩
    cases hj : w.journal.store o up with
    | none =>
      simp only [hj, Option.some.injEq] at h
      exact Or.inr ⟨Or.inr rfl, h.symm⟩
    | some j =>
      simp only [hj] at h
      cases stored with
      | true =>
        simp only [if_true, Option.some.injEq] at h
        exact Or.inl ⟨rfl, j, rfl, h.symm⟩
      | false =>
        simp only [Bool.false_eq_true, if_false, Option.some.injEq] at h
        exact Or.inr ⟨Or.inl rfl, h.symm⟩

/-- (step) An update that is applied: what it confirms has a result, and what it settles is not confirmed any more. -/
theorem ConfirmedAttended.applied {o : Oracle} {up : StateUpdate} {us : List StateUpdate} {j : Journal}
    (h : w.ConfirmedAttended) (hin : w.InOrder) (hu : w.updates = up :: us) (hj : w.journal.store o up = some j)
    (hw' : w' = { w with updates := us, journal := j, results := w.results ++ j.answer.toList }) :
    w'.ConfirmedAttended := by
  have ha := Journal.store_answer hj
  have hsnap := (hin.issued.fresh (o := o) hu).1
  have hkeyed := hin.keyed.applyUpdate ha hsnap
  subst hw'
  intro u c i r hr hst
  -- what attended to it before still does, unless the update settles it
  have hkept : w.Attends r.id → Attends { w with updates := us, journal := j, results := w.results ++ j.answer.toList } r.id := by
    rintro (hres | hwk | ⟨v, hv, hset⟩)
    · exact Or.inl (List.mem_append_left _ hres)
    · exact Or.inr (Or.inl hwk)
    · rw [hu] at hv
      rcases List.mem_cons.mp hv with rfl | hv
      · have hi : r.id = i := hkeyed u c i r hr
        exact absurd hst (State.not_confirmed_of_settled ha (hi ▸ hset) hr)
      · exact Or.inr (Or.inr ⟨v, hv, hset⟩)
  have hch := applyUpdate_request ha hsnap u c i
  have hr : j.state.request? u c i = some r := hr
  rw [hr] at hch
  generalize hb : w.journal.state.request? u c i = before at hch
  cases hch with
  | same => exact hkept (h u c i r hb hst)
  | created a info hbody _ _ _ => cases hst
  | voted r₀ _ d confirmed hbody hu' hc' hi' hd =>
    obtain ⟨n, hst₀, -⟩ := WithdrawalRequest.applyDecision_eq_ok hd
    rcases WithdrawalRequest.applyDecision_status hd with ⟨-, -, hconf⟩ | ⟨-, hrej, -⟩ | ⟨-, -, ⟨m, hm⟩, -⟩
    · obtain ⟨r₁, r₁', confirmed₁, hr₁, hd₁, -, hanswer⟩ := applyUpdate_decision ha hbody
      subst hu' hc' hi'
      obtain rfl := Option.some.inj (hr₁.symm.trans hb)
      rw [hd] at hd₁
      obtain ⟨-, rfl⟩ := Prod.mk.inj (Except.ok.inj hd₁)
      refine Or.inl (List.mem_append_right _ ?_)
      rw [hanswer, hconf, (WithdrawalRequest.applyDecision_sameOrder hd).id]
      exact List.mem_singleton_self _
    · rw [hst] at hrej
      cases hrej
    · rw [hst] at hm
      cases hm
  | completed r₀ info _ _ => cases hst
  | nodeRejected r₀ info _ _ => cases hst
  | canceled r₀ tx _ _ => cases hst

/-- (step) -/
theorem ConfirmedAttended.run {a : Action ι} (h : w.ConfirmedAttended) (hin : w.InOrder)
    (hf : ForgetsNone kept genesisHash w (.run a)) (hs : (machine C k).step w a = some w') : w'.ConfirmedAttended := by
  cases step_eq_some hs with
  | requested i created b hb hnew => exact h
  | delivered n u hu =>
    intro usr c i r hr hst
    rcases h usr c i r hr hst with hres | hwk | ⟨v, hv, hset⟩
    · exact Or.inl hres
    · exact Or.inr (Or.inl hwk)
    · exact Or.inr (Or.inr ⟨v, List.mem_append_left _ hv, hset⟩)
  | applied o u us j hu hj => exact h.applied hin hu hj rfl
  | dropped o stored u us hu =>
    intro usr c i r hr hst
    rcases h usr c i r hr hst with hres | hwk | ⟨v, hv, hset⟩
    · exact Or.inl hres
    · exact Or.inr (Or.inl hwk)
    · rw [hu] at hv
      rcases List.mem_cons.mp hv with rfl | hv
      · -- it is never refused, so it is the database that failed
        cases stored with
        | false =>
          exact absurd (State.mem_confirmedIds hr hst) (hf v (by rw [hu]; rfl) r.id hset)
        | true =>
          obtain ⟨up, us', hu', ⟨-, j, hj, hw'⟩ | ⟨hstored | hnone, hw'⟩⟩ := apply_cases hs
          · -- a journal with a row more is another one
            have hsame : w.journal = j := congrArg World.journal hw'
            obtain ⟨res, -, hrows⟩ := Journal.store_eq_some hj
            have hlen := congrArg List.length hrows
            rw [hsame, List.length_append] at hlen
            exact absurd hlen (by simp)
          · cases hstored
          · rw [hu] at hu'
            obtain ⟨rfl, -⟩ := List.cons.inj hu'
            exact absurd hnone (store_settled hset)
      · exact Or.inr (Or.inr ⟨v, hv, hset⟩)
  | took o r₀ rs id call hw hr₀ ht =>
    intro usr c i r hr hst
    rcases h usr c i r hr hst with hres | hwk | hupd
    · rw [hr₀] at hres
      rcases List.mem_cons.mp hres with rfl | hres
      · exact Or.inr (Or.inl (congrArg some (taken_id ht).symm))
      · exact Or.inl hres
    · rw [hw] at hwk
      cases hwk
    · exact Or.inr (Or.inr hupd)
  | skipped o r₀ rs hw hr₀ ht =>
    intro usr c i r hr hst
    rcases h usr c i r hr hst with hres | hwk | hupd
    · rw [hr₀] at hres
      rcases List.mem_cons.mp hres with rfl | hres
      · -- the request is there, so it is found
        have hi : r.id = i := hin.keyed usr c i r hr
        rw [taken, Option.map_eq_none_iff, hi] at ht
        exact absurd ht (State.getWithdrawalRequest_ne_none hr)
      · exact Or.inl hres
    · exact Or.inr (Or.inl hwk)
    · exact Or.inr (Or.inr hupd)
  | returned id call reply now wk hw ha =>
    intro usr c i r hr hst
    rcases h usr c i r hr hst with hres | hwk | hupd
    · exact Or.inl hres
    · rw [hw] at hwk
      have hid : id = r.id := Option.some.inj hwk
      by_cases hreply : reply = .eth
      · subst hreply
        refine absurd (State.mem_confirmedIds hr hst) (hf r.id ?_)
        rw [callingId?, hw]
        exact congrArg some hid
      · exact Or.inr (Or.inl (hid ▸ answered_request ha (hin.asked id call hw) hreply))
    · exact Or.inr (Or.inr hupd)
  | sent u hw =>
    intro usr c i r hr hst
    rcases h usr c i r hr hst with hres | hwk | ⟨v, hv, hset⟩
    · exact Or.inl hres
    · rw [hw] at hwk
      exact Or.inr (Or.inr ⟨u, List.mem_append_right _ (List.mem_singleton_self _), hwk⟩)
    · exact Or.inr (Or.inr ⟨v, List.mem_append_left _ hv, hset⟩)
  | paidEth user addr amount hu => exact h

/-- No confirmed withdrawal is forgotten: in every run of the process, over any handlers, with stops at any points, in which each
step forgets none, every confirmed request has its result in the channel, is being executed, or has the update that settles it in
the channel. -/
theorem confirmed_attended (h : (process C k kept genesisHash).Reachable (ForgetsNone kept genesisHash) w) :
    w.ConfirmedAttended := by
  refine (h.invariant (I := fun w => w.InOrder ∧ w.ConfirmedAttended) ?_ ?_).2
  · intro w hw
    have hissued : w.Issued := Issued.init (C := C) (k := k) hw
    obtain ⟨now, hash, rfl⟩ := hw
    exact ⟨⟨hissued, fun u c i r hr => (by cases hr), fun id call hc => (by cases hc)⟩, fun u c i r hr => by cases hr⟩
  · intro w a w' _ ⟨hin, hatt⟩ hf hs
    cases a with
    | run a => exact ⟨hin.run (step_eq_some hs), hatt.run hin hf hs⟩
    | restart r =>
      refine ⟨hin.restart hs, fun u c i r' hr' hst => ?_⟩
      have hmem := State.mem_confirmedIds hr' hst
      rw [hf w' hs] at hmem
      cases hmem

/-- The process starts again while alice's withdrawal is in progress; then operators confirm it. -/
theorem confirmed_attended_restarted : ∃ w : World,
    w.journal.state.confirmedIds = [Sample.uuid 7] ∧ w.ConfirmedAttended := by
  obtain ⟨w, hw, hq⟩ := Machine.exists_reachable
    (M := process (hotWallet Sample.ctx) Sample.clock id "genesis") (P := ForgetsNone id "genesis")
    ((Sample.opening 1000000 ++ Sample.done 8 (Sample.withdraw 7 1000)).map .run ++ [.restart (Sample.restart 5)] ++
      (Sample.done 9 (.confirm (Sample.signed 1) (Sample.confirmation 7 1000)) ++
        Sample.done 10 (.confirm (Sample.signed 2) (Sample.confirmation 7 1000))).map .run)
    (q := fun w => w.journal.state.confirmedIds == [Sample.uuid 7]) Sample.world_init (by decide +kernel)
  exact ⟨w, by simpa using hq, confirmed_attended hw⟩

/-- Alice's withdrawal in ether is confirmed and paid, and stays confirmed with nothing under way. -/
theorem confirmed_forgotten : ¬∀ (Γ : Ctx) (k : Clock) (kept : Column) (genesisHash : String) (w : World),
    (process (hotWallet Γ) k kept genesisHash).Reachable Machine.anyStep w → w.ConfirmedAttended := by
  intro h
  obtain ⟨w, hw, hq⟩ := Machine.exists_reachable
    (M := process (hotWallet Sample.ctx) Sample.clock id "genesis") (P := Machine.anyStep)
    ((Sample.opening 1000000 ++
      Sample.done 8 (.postWithdraw Sample.alice { address := .eth { account := "out" }, amount := 1000 } none (Sample.uuid 7)) ++
      Sample.done 9 (.confirm (Sample.signed 1) Sample.ethConfirmation) ++
      Sample.done 10 (.confirm (Sample.signed 2) Sample.ethConfirmation) ++
      [Action.take Sample.oracle, Action.answer .eth ⟨11⟩]).map .run)
    (q := fun w => w.results.isEmpty && w.updates.isEmpty && w.worker.request?.isNone &&
      ((w.journal.state.request? Sample.alice .eth (Sample.uuid 7)).any (·.status == .confirmed)))
    Sample.world_init (by decide +kernel)
  simp only [Bool.and_eq_true, List.isEmpty_iff, Option.isNone_iff_eq_none] at hq
  obtain ⟨⟨⟨hres, hupd⟩, hwk⟩, hreq⟩ := hq
  obtain ⟨r, hr, hst⟩ := (Option.any_eq_true _ _).mp hreq
  rcases h Sample.ctx Sample.clock id "genesis" w hw _ _ _ r hr (beq_iff_eq.mp hst) with hin | hin | ⟨up, hin, -⟩
  · rw [hres] at hin
    cases hin
  · rw [hwk] at hin
    cases hin
  · rw [hupd] at hin
    cases hin

end World

end Hexstody
