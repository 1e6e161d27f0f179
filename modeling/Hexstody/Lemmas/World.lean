import Hexstody.World
import Hexstody.Lemmas.Journal

/-!
# The steps of the hot wallet

What each step of the hot wallet does (`World.Step`), once for all the invariants that follow. The identifiers that the updates
of a run use are distinct, so that the State and its table go through a run of the update worker with fresh identifiers
(`World.journal_reachable`): what holds of the journal in all such runs holds in the hot wallet.
-/

namespace Hexstody

/-- The request that a result is about. -/
def UpdateResult.id : UpdateResult → WithdrawalRequestId
  | .withdrawConfirmed id => id
  | .withdrawalUnderlimit r => r.id

namespace World

variable {ι : Type} {C : Client ι} {k : Clock} {w w' : World}

/-! ## The inversion of a step -/

/-- What each step does, with what it needs. -/
inductive Step (C : Client ι) (k : Clock) (w : World) : Action ι → World → Prop where
  | requested (i : ι) (created : NaiveDateTime) (b : UpdateBody) : C.handle w.journal.state i = some b →
      (∀ id ∈ newIds { created := created, body := b }, id ∉ w.issued) →
      Step C k w (.request i created)
        { w with
          pending := w.pending ++ [{ created := created, body := b }]
          issued := newIds { created := created, body := b } ++ w.issued }
  | delivered (n : Nat) (u : StateUpdate) : w.pending[n]? = some u →
      Step C k w (.deliver n) { w with pending := w.pending.eraseIdx n, updates := w.updates ++ [u] }
  | applied (o : Oracle) (u : StateUpdate) (us : List StateUpdate) (j : Journal) : w.updates = u :: us →
      w.journal.store o u = some j →
      Step C k w (.apply o true)
        { w with updates := us, journal := j, results := w.results ++ j.answer.toList }
  | dropped (o : Oracle) (stored : Bool) (u : StateUpdate) (us : List StateUpdate) : w.updates = u :: us →
      Step C k w (.apply o stored) { w with updates := us }
  | took (o : Oracle) (r : UpdateResult) (rs : List UpdateResult) (id : WithdrawalRequestId) (call : PayCall) :
      w.worker = .idle → w.results = r :: rs → taken k w.journal.state o r = some (id, call) →
      Step C k w (.take o)
        { w with
          results := rs
          worker := .calling id call
          payments := w.payments ++ [{ request := some id, call := call }] }
  | skipped (o : Oracle) (r : UpdateResult) (rs : List UpdateResult) :
      w.worker = .idle → w.results = r :: rs → taken k w.journal.state o r = none →
      Step C k w (.take o) { w with results := rs }
  | returned (id : WithdrawalRequestId) (call : PayCall) (reply : Reply) (now : NaiveDateTime) (wk : Worker) :
      w.worker = .calling id call → answered id call reply now = some wk →
      Step C k w (.answer reply now) { w with worker := wk }
  | sent (u : StateUpdate) : w.worker = .sending u →
      Step C k w .send { w with worker := .idle, updates := w.updates ++ [u] }
  | paidEth (user : UserId) (addr amount : String) : w.journal.state.users.contains user = true →
      Step C k w (.withdrawEth user addr amount)
        { w with payments := w.payments ++ [{ request := none, call := .sendTx "testlogin" addr amount }] }

/-- There is no other step. -/
theorem step_eq_some {a : Action ι} (h : (machine C k).step w a = some w') : Step C k w a w' := by
  cases a with
  | request i created =>
    change w.request C i created = some w' at h
    unfold request at h
    cases hb : C.handle w.journal.state i with
    | none => simp [hb] at h
    | some b =>
      simp only [hb] at h
      split at h
      · obtain rfl := Option.some.inj h
        exact .requested i created b hb ‹_›
      · cases h
  | deliver n =>
    change w.deliver n = some w' at h
    unfold deliver at h
    cases hu : w.pending[n]? with
    | none => simp [hu] at h
    | some u =>
      simp only [hu, Option.some.injEq] at h
      rw [← h]
      exact .delivered n u hu
  | apply o stored =>
    change w.apply o stored = some w' at h
    unfold apply at h
    cases hu : w.updates with
    | nil => simp [hu] at h
    | cons u us =>
      simp only [hu] at h
      cases hj : w.journal.store o u with
      | none =>
        simp only [hj, Option.some.injEq] at h
        rw [← h]
        exact .dropped o stored u us hu
      | some j =>
        simp only [hj] at h
        cases stored with
        | true =>
          simp only [if_true, Option.some.injEq] at h
          rw [← h]
          exact .applied o u us j hu hj
        | false =>
          simp only [Bool.false_eq_true, if_false, Option.some.injEq] at h
          rw [← h]
          exact .dropped o false u us hu
  | take o =>
    change w.take k o = some w' at h
    unfold take at h
    cases hw : w.worker with
    | calling id call => simp [hw] at h
    | sending u => simp [hw] at h
    | idle =>
      cases hr : w.results with
      | nil => simp [hw, hr] at h
      | cons r rs =>
        simp only [hw, hr] at h
        cases ht : taken k w.journal.state o r with
        | none =>
          simp only [ht, Option.some.injEq] at h
          have hs := Step.skipped (C := C) (k := k) o r rs hw hr ht
          rw [hw] at hs
          rw [← h]
          exact hs
        | some p =>
          obtain ⟨id, call⟩ := p
          simp only [ht, Option.some.injEq] at h
          rw [← h]
          exact .took o r rs id call hw hr ht
  | answer reply now =>
    change w.answer reply now = some w' at h
    unfold answer at h
    cases hw : w.worker with
    | idle => simp [hw] at h
    | sending u => simp [hw] at h
    | calling id call =>
      simp only [hw] at h
      obtain ⟨wk, ha, rfl⟩ := Option.map_eq_some_iff.mp h
      exact .returned id call reply now wk hw ha
  | send =>
    change w.send = some w' at h
    unfold send at h
    cases hw : w.worker with
    | idle => simp [hw] at h
    | calling id call => simp [hw] at h
    | sending u =>
      simp only [hw, Option.some.injEq] at h
      rw [← h]
      exact .sent u hw
  | withdrawEth user addr amount =>
    change w.withdrawEth user addr amount = some w' at h
    unfold withdrawEth at h
    split at h
    · obtain rfl := Option.some.inj h
      exact .paidEth user addr amount ‹_›
    · cases h

/-! ## Identifiers -/

/-- Every update of a run: those that are stored, those in the channel, those that are not sent yet. -/
def sentUpdates (w : World) : List StateUpdate := w.journal.rows.map (·.update) ++ w.updates ++ w.pending

/-- The ids of the requests and of the orders that some updates create. -/
def requestIds (us : List StateUpdate) : List Uuid := (us.filterMap (·.request?)).map (·.id)

def orderIds (us : List StateUpdate) : List Uuid := (us.filterMap (·.order?)).map (·.id)

/-- An update that settles a request: its completion, or its rejection by the node. -/
def Settles (u : StateUpdate) : Prop :=
  (∃ info, u.body = .withdrawalRequestComplete info) ∨ (∃ info, u.body = .withdrawalRequestNodeRejected info)

/-- The identifiers that the updates use were given out, each is used once, and no update is a snapshot; what the workers send
settles requests, and what the handlers send does not. -/
structure Issued (w : World) : Prop where
  requests : (requestIds w.sentUpdates).Nodup
  requestsIssued : ∀ id ∈ requestIds w.sentUpdates, id ∈ w.issued
  orders : (orderIds w.sentUpdates).Nodup
  ordersIssued : ∀ id ∈ orderIds w.sentUpdates, id ∈ w.issued
  noSnapshot : ∀ u ∈ w.sentUpdates, ¬u.body.IsSnapshot
  fromHandler : ∀ u ∈ w.pending, u.body.FromHandler
  sending : ∀ u, w.worker = .sending u → Settles u

theorem requestIds_append (us vs : List StateUpdate) : requestIds (us ++ vs) = requestIds us ++ requestIds vs := by
  simp [requestIds]

theorem orderIds_append (us vs : List StateUpdate) : orderIds (us ++ vs) = orderIds us ++ orderIds vs := by
  simp [orderIds]

/-- An update that settles a request creates nothing. -/
theorem Settles.creates_nothing {u : StateUpdate} (h : Settles u) :
    requestIds [u] = [] ∧ orderIds [u] = [] ∧ ¬u.body.IsSnapshot := by
  rcases h with ⟨info, hb⟩ | ⟨info, hb⟩ <;>
    simp [requestIds, orderIds, StateUpdate.request?, StateUpdate.order?, hb, UpdateBody.IsSnapshot]

/-- The request that a call to the BTC module names. -/
def askedId : PayCall → Option WithdrawalRequestId
  | .withdrawBtc cw => some cw.id
  | .withdrawUnderLimit cw => some cw.id
  | _ => none

/-- What the worker does when a call returns: it reports that the request it asked the BTC module for is paid, it reports that
the call failed, or it is done. -/
theorem answered_cases {id : WithdrawalRequestId} {call : PayCall} {reply : Reply} {now : NaiveDateTime} {wk : Worker}
    (h : answered id call reply now = some wk) :
    wk = .idle ∨
      (∃ resp t, askedId call = some resp.id ∧
        wk = .sending { created := now, body := .withdrawalRequestComplete (completeInfo resp now t) }) ∨
      ∃ reason, wk = .sending
        { created := now, body := .withdrawalRequestNodeRejected { id := id, reason := reason } } := by
  unfold answered at h
  split at h
  · rename_i cw resp
    split at h
    · rename_i hid
      exact Or.inr (Or.inl ⟨resp, .overLimit, by rw [askedId, hid], (Option.some.inj h).symm⟩)
    · cases h
  · rename_i cw resp
    split at h
    · rename_i hid
      exact Or.inr (Or.inl ⟨resp, .underLimit, by rw [askedId, hid], (Option.some.inj h).symm⟩)
    · cases h
  · exact Or.inl (Option.some.inj h).symm
  · exact Or.inl (Option.some.inj h).symm
  · exact Or.inr (Or.inr ⟨_, (Option.some.inj h).symm⟩)
  · cases h

/-- What the worker sends after a call settles a request. -/
theorem answered_settles {id : WithdrawalRequestId} {call : PayCall} {reply : Reply} {now : NaiveDateTime}
    {u : StateUpdate} (h : answered id call reply now = some (.sending u)) : Settles u := by
  rcases answered_cases h with hi | ⟨resp, t, -, hu⟩ | ⟨reason, hu⟩
  · cases hi
  · obtain rfl := Worker.sending.inj hu
    exact Or.inl ⟨_, rfl⟩
  · obtain rfl := Worker.sending.inj hu
    exact Or.inr ⟨_, rfl⟩

theorem nodup_of_subperm {l l' : List Uuid} (h : List.Subperm l' l) (hn : l.Nodup) : l'.Nodup := by
  obtain ⟨m, hperm, hsub⟩ := h
  exact hperm.nodup (hn.sublist hsub)

/-- Updates that are dropped or change places leave the identifiers distinct. -/
theorem Issued.of_subperm (h : w.Issued) (hsub : List.Subperm w'.sentUpdates w.sentUpdates) (hissued : w'.issued = w.issued)
    (hpending : ∀ u ∈ w'.pending, u ∈ w.pending) (hworker : ∀ u, w'.worker = .sending u → Settles u) : w'.Issued := by
  obtain ⟨l, hperm, hl⟩ := hsub
  have hreq : List.Subperm (requestIds w'.sentUpdates) (requestIds w.sentUpdates) :=
    ⟨requestIds l, (hperm.filterMap _).map _, (hl.filterMap _).map _⟩
  have hord : List.Subperm (orderIds w'.sentUpdates) (orderIds w.sentUpdates) :=
    ⟨orderIds l, (hperm.filterMap _).map _, (hl.filterMap _).map _⟩
  exact
    { requests := nodup_of_subperm hreq h.requests
      requestsIssued := fun id hid => hissued ▸ h.requestsIssued id (hreq.subset hid)
      orders := nodup_of_subperm hord h.orders
      ordersIssued := fun id hid => hissued ▸ h.ordersIssued id (hord.subset hid)
      noSnapshot := fun u hu => h.noSnapshot u (hl.subset (hperm.symm.subset hu))
      fromHandler := fun u hu => h.fromHandler u (hpending u hu)
      sending := hworker }

/-- An update added to those of a run, whose identifiers are new ones, leaves the identifiers distinct. -/
theorem Issued.of_append {u : StateUpdate} (h : w.Issued) (hperm : w'.sentUpdates.Perm (w.sentUpdates ++ [u]))
    (hnew : ∀ id ∈ newIds u, id ∉ w.issued) (hissued : ∀ id ∈ newIds u ++ w.issued, id ∈ w'.issued)
    (hsnap : ¬u.body.IsSnapshot) (hreq : (requestIds [u]).Nodup) (hord : (orderIds [u]).Nodup)
    (hpending : ∀ v ∈ w'.pending, v.body.FromHandler) (hworker : ∀ v, w'.worker = .sending v → Settles v) :
    w'.Issued := by
  have hids : newIds u = requestIds [u] ++ orderIds [u] := by
    unfold newIds requestIds orderIds
    cases hr : u.request? <;> cases ho : u.order? <;> simp [hr, ho]
  have hr : (requestIds w'.sentUpdates).Perm (requestIds w.sentUpdates ++ requestIds [u]) := by
    rw [← requestIds_append]
    exact (hperm.filterMap _).map _
  have ho : (orderIds w'.sentUpdates).Perm (orderIds w.sentUpdates ++ orderIds [u]) := by
    rw [← orderIds_append]
    exact (hperm.filterMap _).map _
  refine
    { requests := hr.symm.nodup (List.Nodup.append h.requests hreq ?_)
      requestsIssued := ?_
      orders := ho.symm.nodup (List.Nodup.append h.orders hord ?_)
      ordersIssued := ?_
      noSnapshot := ?_
      fromHandler := hpending
      sending := hworker }
  · intro id hid hid'
    exact hnew id (by rw [hids]; exact List.mem_append_left _ hid') (h.requestsIssued id hid)
  · intro id hid
    rcases List.mem_append.mp (hr.subset hid) with hm | hm
    · exact hissued id (List.mem_append_right _ (h.requestsIssued id hm))
    · exact hissued id (List.mem_append_left _ (by rw [hids]; exact List.mem_append_left _ hm))
  · intro id hid hid'
    exact hnew id (by rw [hids]; exact List.mem_append_right _ hid') (h.ordersIssued id hid)
  · intro id hid
    rcases List.mem_append.mp (ho.subset hid) with hm | hm
    · exact hissued id (List.mem_append_right _ (h.ordersIssued id hm))
    · exact hissued id (List.mem_append_left _ (by rw [hids]; exact List.mem_append_right _ hm))
  · intro v hv
    rcases List.mem_append.mp (hperm.subset hv) with hm | hm
    · exact h.noSnapshot v hm
    · obtain rfl := List.mem_singleton.mp hm
      exact hsnap

theorem requestIds_singleton_nodup (u : StateUpdate) : (requestIds [u]).Nodup := by
  cases hu : u.request? <;> simp [requestIds, hu]

theorem orderIds_singleton_nodup (u : StateUpdate) : (orderIds [u]).Nodup := by
  cases hu : u.order? <;> simp [orderIds, hu]

/-- A handler sends no snapshot. -/
theorem fromHandler_not_snapshot {b : UpdateBody} (h : b.FromHandler) : ¬b.IsSnapshot := by
  intro hs
  cases b <;> first | exact h | exact hs

theorem Issued.init {w : World} (h : (machine C k).init w) : w.Issued := by
  obtain ⟨now, genesisHash, rfl⟩ := h
  exact
    { requests := List.nodup_nil
      requestsIssued := fun id hid => by cases hid
      orders := List.nodup_nil
      ordersIssued := fun id hid => by cases hid
      noSnapshot := fun u hu => by cases hu
      fromHandler := fun u hu => by cases hu
      sending := fun u hu => by cases hu }

/-- (step) -/
theorem Issued.step {a : Action ι} (h : w.Issued) (hs : Step C k w a w') : w'.Issued := by
  cases hs with
  | requested i created b hb hnew =>
    have hfrom := C.fromHandler _ _ _ hb
    refine h.of_append (u := { created := created, body := b }) ?_ hnew (fun id hid => hid)
      (fromHandler_not_snapshot hfrom) (requestIds_singleton_nodup _) (orderIds_singleton_nodup _) ?_ h.sending
    · simp [sentUpdates]
    · intro v hv
      rcases List.mem_append.mp hv with hm | hm
      · exact h.fromHandler v hm
      · obtain rfl := List.mem_singleton.mp hm
        exact hfrom
  | delivered n u hu =>
    refine h.of_subperm (List.Perm.subperm ?_) rfl (fun v hv => List.mem_of_mem_eraseIdx hv) h.sending
    have hperm : (u :: w.pending.eraseIdx n).Perm w.pending := by
      obtain ⟨hn, rfl⟩ := List.getElem?_eq_some_iff.mp hu
      exact List.getElem_cons_eraseIdx_perm hn
    simp only [sentUpdates, List.append_assoc]
    exact (List.Perm.append_left _ (List.Perm.append_left _ hperm))
  | applied o u us j hu hj =>
    obtain ⟨res, -, hrows⟩ := Journal.store_eq_some hj
    refine h.of_subperm (List.Perm.subperm ?_) rfl (fun v hv => hv) h.sending
    simp [sentUpdates, hrows, hu]
  | dropped o stored u us hu =>
    refine h.of_subperm (List.Sublist.subperm ?_) rfl (fun v hv => hv) h.sending
    simp only [sentUpdates, hu]
    exact List.Sublist.append (List.Sublist.append (List.Sublist.refl _) (List.sublist_cons_self u us))
      (List.Sublist.refl _)
  | took o r rs id call hw hr ht =>
    exact h.of_subperm (List.Subperm.refl _) rfl (fun v hv => hv) (fun v hv => by cases hv)
  | skipped o r rs hw hr ht => exact h.of_subperm (List.Subperm.refl _) rfl (fun v hv => hv) h.sending
  | returned id call reply now wk hw ha =>
    refine h.of_subperm (List.Subperm.refl _) rfl (fun v hv => hv) (fun v hv => ?_)
    obtain rfl : wk = .sending v := hv
    exact answered_settles ha
  | sent u hw =>
    have hsettles := h.sending u hw
    obtain ⟨hr, ho, hsnap⟩ := hsettles.creates_nothing
    refine h.of_append (u := u) ?_ ?_ ?_ hsnap (hr ▸ List.nodup_nil) (ho ▸ List.nodup_nil) h.fromHandler
      (fun v hv => by cases hv)
    · simp only [sentUpdates, List.append_assoc]
      exact List.Perm.append_left _ (List.Perm.append_left _ List.perm_append_comm)
    all_goals
      have hnil : newIds u = [] := by
        rcases hsettles with ⟨info, hb⟩ | ⟨info, hb⟩ <;> simp [newIds, StateUpdate.request?, StateUpdate.order?, hb]
      rw [hnil]
    · exact fun id hid => by cases hid
    · exact fun id hid => hid
  | paidEth user addr amount hu => exact h.of_subperm (List.Subperm.refl _) rfl (fun v hv => hv) h.sending

theorem issued_of_reachable {P : World → Action ι → Prop} (h : (machine C k).Reachable P w) : w.Issued :=
  h.invariant (fun _ hi => Issued.init hi) (fun _ _ _ _ hi _ hs => hi.step (step_eq_some hs))

/-! ## Results -/

/-- The results in the channel that order a payment of a request. -/
def ordersFor (w : World) (id : WithdrawalRequestId) : List UpdateResult := w.results.filter (·.id = id)

/-- What the worker takes is a payment of the request that the result is about. -/
theorem taken_id {s : State} {o : Oracle} {r : UpdateResult} {id : WithdrawalRequestId} {call : PayCall}
    (h : taken k s o r = some (id, call)) : r.id = id := by
  cases r with
  | withdrawConfirmed id' =>
    obtain ⟨req, -, heq⟩ := Option.map_eq_some_iff.mp h
    exact (Prod.mk.inj heq).1
  | withdrawalUnderlimit wr => exact (Prod.mk.inj (Option.some.inj h)).1

/-! ## The journal of the hot wallet -/

/-- The next update in the channel is a fresh one. -/
theorem Issued.fresh {o : Oracle} {u : StateUpdate} {us : List StateUpdate} (h : w.Issued) (hu : w.updates = u :: us) :
    w.journal.Fresh (o, u) := by
  have hmem : u ∈ w.sentUpdates := by simp [sentUpdates, hu]
  have hsplit : w.sentUpdates = w.journal.rows.map (·.update) ++ (u :: (us ++ w.pending)) := by
    simp [sentUpdates, hu]
  refine ⟨h.noSnapshot u hmem, ?_, ?_⟩
  · intro r hr hm
    have hn := h.requests
    rw [hsplit, requestIds_append, List.nodup_append] at hn
    have hin : r.id ∈ requestIds (w.journal.rows.map (·.update)) := by
      simpa [requestIds, Journal.requests, List.filterMap_map, Function.comp_def] using hm
    have hr' : u.request? = some r := hr
    have hin' : r.id ∈ requestIds (u :: (us ++ w.pending)) := by simp [requestIds, hr']
    exact hn.2.2 _ hin _ hin' rfl
  · intro r hr hm
    have hn := h.orders
    rw [hsplit, orderIds_append, List.nodup_append] at hn
    have hin : r.id ∈ orderIds (w.journal.rows.map (·.update)) := by
      simpa [orderIds, Journal.orders, List.filterMap_map, Function.comp_def] using hm
    have hr' : u.order? = some r := hr
    have hin' : r.id ∈ orderIds (u :: (us ++ w.pending)) := by simp [orderIds, hr']
    exact hn.2.2 _ hin _ hin' rfl

/-- The condition on an update holds of the update that a step makes part of the State, if the State accepts it. -/
def OnAccepted (Q : Journal → StateUpdate → Prop) (w : World) (a : Action ι) : Prop :=
  ∀ x ∈ w.applied? a, (w.journal.store x.1 x.2).isSome = true → Q w.journal x.2

instance (Q : Journal → StateUpdate → Prop) [∀ j u, Decidable (Q j u)] (w : World) (a : Action ι) :
    Decidable (OnAccepted Q w a) :=
  inferInstanceAs (Decidable (∀ x ∈ w.applied? a, (w.journal.store x.1 x.2).isSome = true → Q w.journal x.2))

theorem OnAccepted.of_store {Q : Journal → StateUpdate → Prop} {o : Oracle} {u : StateUpdate} {us : List StateUpdate}
    {j : Journal} (h : OnAccepted Q w (.apply o true : Action ι)) (hu : w.updates = u :: us)
    (hj : w.journal.store o u = some j) : Q w.journal u :=
  h (o, u) (by simp [applied?, hu]) (by rw [hj]; rfl)

/-- The journal of the hot wallet goes through a run of the update worker with fresh identifiers, each of whose steps meets
what the update that is stored met in the hot wallet. -/
theorem journal_reachable {P : World → Action ι → Prop} {Q : Journal → Oracle × StateUpdate → Prop}
    (h : (machine C k).Reachable P w)
    (hPQ : ∀ w o u us j, (machine C k).Reachable P w → P w (.apply o true) → w.updates = u :: us →
      w.journal.store o u = some j → Q w.journal (o, u)) :
    Journal.machine.Reachable (fun j a => j.Fresh a ∧ Q j a) w.journal := by
  refine h.simulate (f := World.journal) ?_ ?_
  · rintro _ ⟨now, genesisHash, rfl⟩
    exact ⟨now, genesisHash, rfl⟩
  · intro w a w' hr hP hs
    cases step_eq_some hs with
    | applied o u us j hu hj =>
      exact Or.inr ⟨(o, u), ⟨(issued_of_reachable hr).fresh hu, hPQ w o u us j hr hP hu hj⟩, hj⟩
    | _ => exact Or.inl rfl

/-- A run that starts with the empty State is a run. -/
theorem reachable_of_new {P : World → Action ι → Prop} {now : NaiveDateTime} {genesisHash : String}
    (h : ((machine C k).startedAt (World.new now genesisHash)).Reachable P w) : (machine C k).Reachable P w :=
  .trans (.init ⟨now, genesisHash, rfl⟩) h

/-- In every run of the hot wallet the requests are filed. -/
theorem filed_of_reachable {P : World → Action ι → Prop} (h : (machine C k).Reachable P w) : w.journal.Filed :=
  Journal.filed_of_reachable (fun _ _ hp => hp.1)
    (journal_reachable (Q := fun _ _ => True) h (fun _ _ _ _ _ _ _ _ _ => trivial))

/-! ## What the updates carry -/

/-- (step) Where the handlers and the workers make only updates of a kind, those that are on their way are of that kind. -/
theorem carried_step {Q : UpdateBody → Prop} (hhandle : ∀ s i b, C.handle s i = some b → Q b)
    (hsettle : ∀ u : StateUpdate, Settles u → Q u.body) {a : Action ι} (h : ∀ u ∈ w.updates ++ w.pending, Q u.body) (hissued : w.Issued)
    (hs : Step C k w a w') : ∀ u ∈ w'.updates ++ w'.pending, Q u.body := by
  cases hs with
  | requested i created b hb =>
    intro u hu
    rw [← List.append_assoc] at hu
    rcases List.mem_append.mp hu with hu | hu
    · exact h u hu
    · obtain rfl := List.mem_singleton.mp hu
      exact hhandle _ i b hb
  | delivered n u hu =>
    intro v hv
    rw [List.append_assoc] at hv
    rcases List.mem_append.mp hv with hv | hv
    · exact h v (List.mem_append_left _ hv)
    · refine h v (List.mem_append_right _ ?_)
      rcases List.mem_append.mp hv with hv | hv
      · obtain rfl := List.mem_singleton.mp hv
        exact List.mem_of_getElem? hu
      · exact List.mem_of_mem_eraseIdx hv
  | applied o u us j hu => exact fun v hv => h v (by rw [hu]; exact List.mem_cons_of_mem _ hv)
  | dropped o stored u us hu => exact fun v hv => h v (by rw [hu]; exact List.mem_cons_of_mem _ hv)
  | sent u hu =>
    intro v hv
    rw [List.append_assoc] at hv
    rcases List.mem_append.mp hv with hv | hv
    · exact h v (List.mem_append_left _ hv)
    · rcases List.mem_append.mp hv with hv | hv
      · obtain rfl := List.mem_singleton.mp hv
        exact hsettle v (hissued.sending v hu)
      · exact h v (List.mem_append_right _ hv)
  | took => exact h
  | skipped => exact h
  | returned => exact h
  | paidEth => exact h

/-- (run) -/
theorem carried_of_reachable {P : World → Action ι → Prop} {Q : UpdateBody → Prop} (hhandle : ∀ s i b, C.handle s i = some b → Q b)
    (hsettle : ∀ u : StateUpdate, Settles u → Q u.body) (h : (machine C k).Reachable P w) :
    ∀ u ∈ w.updates ++ w.pending, Q u.body := by
  refine h.invariant (I := fun w => ∀ u ∈ w.updates ++ w.pending, Q u.body) ?_
    (fun w a w' hr hq _ hs => carried_step hhandle hsettle hq (issued_of_reachable hr) (step_eq_some hs))
  rintro _ ⟨now, genesisHash, rfl⟩
  exact List.forall_mem_nil _

end World

end Hexstody
