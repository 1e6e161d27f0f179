import Hexstody.Lemmas.Journal
import Hexstody.Lemmas.WellFormed
import Hexstody.Listing

/-!
# Settlement touches one request

Every State that is built from the empty one by accepted updates, whose new requests have fresh ids and whose snapshots are built
so too, is well formed (`wellFormed_of_built`). It follows that an update which settles a request, as paid or as rejected by the
node, sets the status of the one request with its id, if there is one, and leaves everything else as it is; that all requests are
listed, each under its id; and that the operators can list the pending changes of limits.
-/

namespace Hexstody

/-- The States that accepted updates lead to: the new requests have fresh ids, and the snapshots are such States. -/
inductive State.Built : State → Prop where
  | new (now : NaiveDateTime) (genesisHash : String) : Built (State.new now genesisHash)
  | update {s s' : State} {o : Oracle} {up : StateUpdate} {res : Option UpdateResult} : Built s → s.FreshRequest up.body →
      (∀ s₀, up.body = .snapshot s₀ → Built s₀) → s.applyUpdate o up = (s', .ok res) → Built s'

/-- The request that an update settles, and the status it gets. -/
def UpdateBody.settles : UpdateBody → Option (WithdrawalRequestId × WithdrawalRequestStatus)
  | .withdrawalRequestComplete info => some (info.id, info.toStatus)
  | .withdrawalRequestNodeRejected info => some (info.id, .nodeRejected info.reason)
  | _ => none

namespace State

/-- Set the status of the request with an id in one account. -/
def setStatusIn (s : State) (u : UserId) (c : Currency) (id : WithdrawalRequestId) (st : WithdrawalRequestStatus) : State :=
  s.modifyCurrency u c fun i =>
    { i with withdrawalRequests := i.withdrawalRequests.modify id (fun r => { r with status := st }) }

/-- The status of the one request with an id is set, if there is one, and nothing else is changed. -/
def SettlesOne (s : State) (id : WithdrawalRequestId) (st : WithdrawalRequestStatus) (s' : State) : Prop :=
  ((∀ u c, s.request? u c id = none) ∧ s' = s) ∨
    ∃ u c r, s.request? u c id = some r ∧ (∀ u' c', ¬(u' = u ∧ c' = c) → s.request? u' c' id = none) ∧
      s' = s.setStatusIn u c id st

variable {s s' : State}

/-! ## Settling -/

/-- A status that is set everywhere for the id of one request is set there. -/
theorem setStatus_present {u : UserId} {c : Currency} {id : WithdrawalRequestId} (st : WithdrawalRequestStatus)
    (h : ∀ u' c', ¬(u' = u ∧ c' = c) → s.request? u' c' id = none) :
    s.mapCurrencies (·.setRequestStatus id st) = s.setStatusIn u c id st := by
  refine congrArg (fun us => ({ s with users := us } : State)) ?_
  apply AssocMap.mapVals_congr
  intro u' ui hu
  by_cases hu' : u' = u
  · rw [if_pos hu']
    refine congrArg (fun cs => ({ ui with currencies := cs } : UserInfo)) ?_
    apply AssocMap.mapVals_congr
    intro c' i hi
    by_cases hc' : c' = c
    · rw [if_pos hc']
      rfl
    · rw [if_neg hc']
      refine setRequestStatus_eq_self fun r hr => ?_
      rw [← request?_of_entries hu hi, h u' c' (fun huc => hc' huc.2)] at hr
      cases hr
  · rw [if_neg hu']
    refine mapCurrencies_eq_self hu fun c' r hr => ?_
    rw [h u' c' (fun huc => hu' huc.1)] at hr
    cases hr

/-- In a well-formed State a status that is set everywhere is set for one request at most. -/
theorem WellFormed.settlesOne (hw : s.WellFormed) (id : WithdrawalRequestId) (st : WithdrawalRequestStatus) :
    s.SettlesOne id st (s.mapCurrencies (·.setRequestStatus id st)) := by
  by_cases h : ∀ u c, s.request? u c id = none
  · refine Or.inl ⟨h, setStatus_eq_self fun u c r hr => ?_⟩
    rw [h u c] at hr
    cases hr
  · push Not at h
    obtain ⟨u, c, hne⟩ := h
    obtain ⟨r, hr⟩ := Option.ne_none_iff_exists'.mp hne
    have hother : ∀ u' c', ¬(u' = u ∧ c' = c) → s.request? u' c' id = none := by
      intro u' c' huc
      cases hr' : s.request? u' c' id with
      | none => rfl
      | some r' =>
        obtain ⟨rfl, rfl⟩ := hw.unique hr' hr
        exact absurd ⟨rfl, rfl⟩ huc
    exact Or.inr ⟨u, c, r, hr, hother, setStatus_present st hother⟩

/-! ## Listing -/

/-- What the loops come to are the requests of the accounts. -/
theorem mem_eachRequest {o : Oracle} {id : WithdrawalRequestId} {r : WithdrawalRequest} :
    (id, r) ∈ s.eachRequest o ↔ ∃ u c, s.request? u c id = some r := by
  simp only [eachRequest, List.mem_flatMap]
  constructor
  · rintro ⟨⟨u, ui⟩, hu, ⟨c, i⟩, hc, hr⟩
    refine ⟨u, c, ?_⟩
    rw [request?_of_entries (AssocMap.mem_iter_iff.mp hu) (AssocMap.mem_iter_iff.mp hc)]
    exact AssocMap.mem_iter_iff.mp hr
  · rintro ⟨u, c, hr⟩
    obtain ⟨i, hcur, hget⟩ := request?_eq_some hr
    obtain ⟨ui, hu, hi⟩ := Option.bind_eq_some_iff.mp hcur
    exact ⟨(u, ui), AssocMap.mem_iter_iff.mpr hu, (c, i), AssocMap.mem_iter_iff.mpr hi, AssocMap.mem_iter_iff.mpr hget⟩

/-- In a well-formed State every request is listed, under its id, and nothing else is. -/
theorem WellFormed.mem_withdrawalRequests (hw : s.WellFormed) {o : Oracle} {id : WithdrawalRequestId} {r : WithdrawalRequest} :
    (s.withdrawalRequests o).get? id = some r ↔ ∃ u c, s.request? u c id = some r := by
  constructor
  · intro h
    exact mem_eachRequest.mp (AssocMap.mem_of_get?_ofList h)
  · rintro ⟨u, c, hr⟩
    refine AssocMap.get?_ofList_of_unique (mem_eachRequest.mpr ⟨u, c, hr⟩) fun r' hr' => ?_
    obtain ⟨u', c', hr'⟩ := mem_eachRequest.mp hr'
    obtain ⟨rfl, rfl⟩ := hw.unique hr hr'
    exact Option.some.inj (hr'.symm.trans hr)

/-- Where every entry is there, the list of them is. -/
theorem mapM_id_isSome {α : Type} {l : List (Option α)} (h : ∀ x ∈ l, x.isSome = true) : (l.mapM id).isSome = true := by
  induction l with
  | nil => rfl
  | cons x l ih =>
    obtain ⟨y, rfl⟩ := Option.isSome_iff_exists.mp (h x List.mem_cons_self)
    obtain ⟨ys, hys⟩ := Option.isSome_iff_exists.mp (ih fun z hz => h z (List.mem_cons_of_mem _ hz))
    simp [List.mapM_cons, hys]

/-- In a well-formed State each pending change has an account to be shown with. -/
theorem WellFormed.getAllChanges (hw : s.WellFormed) (o : Oracle) : s.getAllChanges o ≠ none := by
  have hall : ∀ x ∈ (s.users.iter o.users).flatMap fun e =>
      (e.2.limitChangeRequests.iter o.currencies).map fun e' => changeResponse e.2 e'.2, x.isSome = true := by
    intro x hx
    simp only [List.mem_flatMap, List.mem_map] at hx
    obtain ⟨⟨u, ui⟩, hu, ⟨c, l⟩, hl, rfl⟩ := hx
    have hui := AssocMap.mem_iter_iff.mp hu
    have hpending : s.limitChange? u c = some l := by
      rw [limitChange?, hui, Option.bind_some]
      exact AssocMap.mem_iter_iff.mp hl
    obtain ⟨hc, -, i, hi⟩ := hw.limit hpending
    rw [currency?_of_get? hui] at hi
    simp only [changeResponse, hc, hi, Option.map_some, Option.isSome_some]
  exact Option.isSome_iff_ne_none.mp (mapM_id_isSome hall)

/-! ## The States that are built -/

theorem Built.wellFormed (h : s.Built) : s.WellFormed := by
  induction h with
  | new now genesisHash => exact WellFormed.new now genesisHash
  | update _ hfresh _ happly ih hsnap => exact ih.applyUpdate happly hfresh hsnap

/-- An update that settles is accepted, and does what it says. -/
theorem applyUpdate_settles {up : StateUpdate} {id : WithdrawalRequestId} {st : WithdrawalRequestStatus}
    (h : up.body.settles = some (id, st)) (o : Oracle) :
    s.applyUpdate o up = ({ s.mapCurrencies (·.setRequestStatus id st) with lastChanged := up.created }, .ok none) := by
  unfold UpdateBody.settles at h
  unfold State.applyUpdate
  split at h
  · rename_i info hb
    obtain ⟨rfl, rfl⟩ := Prod.mk.inj (Option.some.inj h)
    rw [hb]
    rfl
  · rename_i info hb
    obtain ⟨rfl, rfl⟩ := Prod.mk.inj (Option.some.inj h)
    rw [hb]
    rfl
  · cases h

end State

namespace Journal

variable {j : Journal}

/-- (run) The State of a journal that is run with fresh ids is built. -/
theorem built_of_reachable {P : Journal → Oracle × StateUpdate → Prop} (hP : ∀ j a, P j a → j.Fresh a)
    (h : machine.Reachable P j) : j.state.Built := by
  refine Machine.Reachable.invariant (I := fun j => j.state.Built) h ?_ ?_
  · rintro _ ⟨now, genesisHash, rfl⟩
    exact .new now genesisHash
  · rintro j ⟨o, up⟩ j' hj hb hp hs
    obtain ⟨hsnap, hfresh, -⟩ := hP _ _ hp
    refine .update hb ?_ ?_ (store_answer hs)
    · unfold State.FreshRequest
      split
      · rename_i info hbody
        have hcreates : up.request? = some (.ofInfo up.created info) := by
          rw [StateUpdate.request?, show up.body = .createWithdrawalRequest info from hbody]
        intro u c
        cases hr : j.state.request? u c info.id with
        | none => rfl
        | some r =>
          have hused := (filed_of_reachable hP hj).mem hr
          exact absurd hused (hfresh (.ofInfo up.created info) hcreates)
      · trivial
    · intro s₀ hbody
      rw [show up.body = .snapshot s₀ from hbody] at hsnap
      exact absurd trivial hsnap

end Journal

/-- Every State that is built is well formed; in it an update that settles a request changes the status of that request and
nothing else but the time; all requests are listed, each under its id; and the pending changes can be listed. -/
theorem State.wellFormed_of_built {s : State} (h : s.Built) :
    s.WellFormed ∧
      (∀ (up : StateUpdate) (o : Oracle) (id : WithdrawalRequestId) (st : WithdrawalRequestStatus),
        up.body.settles = some (id, st) → ∃ s₁, s.SettlesOne id st s₁ ∧
          s.applyUpdate o up = ({ s₁ with lastChanged := up.created }, .ok none)) ∧
      (∀ (o : Oracle) (id : WithdrawalRequestId) (r : WithdrawalRequest),
        (s.withdrawalRequests o).get? id = some r ↔ ∃ u c, s.request? u c id = some r) ∧
      ∀ o : Oracle, s.getAllChanges o ≠ none := by
  have hw := h.wellFormed
  refine ⟨hw, ?_, ?_, ?_⟩
  · intro up o id st hset
    exact ⟨_, hw.settlesOne id st, applyUpdate_settles hset o⟩
  · intro o id r
    exact hw.mem_withdrawalRequests
  · intro o
    exact hw.getAllChanges o

open Journal in
/-- A State with a request that is voted on and a change of a limit that is pending. -/
theorem State.wellFormed_run : ∃ s : State, s.Built ∧ (s.request? Sample.alice .btc (Sample.uuid 7)).isSome = true ∧
    (s.limitChange? Sample.alice .btc).isSome = true ∧ s.WellFormed ∧
      (s.withdrawalRequests Sample.oracle).get? (Sample.uuid 7) = s.request? Sample.alice .btc (Sample.uuid 7) := by
  obtain ⟨j, hj, hq⟩ := Machine.exists_reachable (P := Fresh)
    (Sample.signup ++ [Sample.upd 3 (.createWithdrawalRequest (Sample.request 7 100 .overLimit)),
      Sample.upd 4 (.withdrawalRequestDecision (Sample.decision 7 1 .confirm)),
      Sample.upd 5 (.limitsChangeRequest { user := Sample.alice, currency := .btc, limit := { amount := 10, span := .day } })])
    (q := fun j => (j.state.request? Sample.alice .btc (Sample.uuid 7)).isSome &&
      (j.state.limitChange? Sample.alice .btc).isSome) Sample.start_init (by decide)
  obtain ⟨hreq, hlim⟩ := Bool.and_eq_true_iff.mp hq
  obtain ⟨r, hr⟩ := Option.isSome_iff_exists.mp hreq
  have hb := built_of_reachable (fun _ _ h => h) hj
  obtain ⟨hw, -, hlist, -⟩ := wellFormed_of_built hb
  exact ⟨j.state, hb, hreq, hlim, hw, by rw [hr]; exact (hlist _ _ _).mpr ⟨_, _, hr⟩⟩

end Hexstody
