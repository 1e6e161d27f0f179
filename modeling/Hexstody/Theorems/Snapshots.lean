import Hexstody.Theorems.Restart
import Hexstody.Theorems.StoredForm

/-!
# Snapshots

A snapshot in the table takes the place of everything before it: a restart reads the rows back down to the last snapshot only. So it
does what reading all rows would do, and the rows before the last snapshot may be dropped (`compaction_restores`), whatever State the
snapshots are of. Only a State that JSON can hold is written as a snapshot (`UpdateBody.Storable`), which no State that the hot wallet
comes to is.
-/

namespace Hexstody

theorem State.Same.trans {s₁ s₂ s₃ : State} (h : s₁.Same s₂) (h' : s₂.Same s₃) : s₁.Same s₃ :=
  ⟨h'.users.trans h.users, h'.btcState.trans h.btcState, h'.invites.trans h.invites, h'.exchangeState.trans h.exchangeState⟩

theorem State.Same.symm {s s' : State} (h : s.Same s') : s'.Same s :=
  ⟨h.users.symm, h.btcState.symm, h.invites.symm, h.exchangeState.symm⟩

/-- A snapshot is accepted in every State, and is the State after it. -/
theorem State.applyUpdate_snapshot {s s₀ s' : State} {o : Oracle} {up : StateUpdate} {res : Option UpdateResult}
    (hb : up.body = .snapshot s₀) (h : s.applyUpdate o up = (s', .ok res)) : s₀.Same s' := by
  simp only [State.applyUpdate, hb] at h
  obtain ⟨rfl, -⟩ := Prod.mk.inj h
  exact ⟨rfl, rfl, rfl, rfl⟩

namespace Journal

variable {kept : Column} {genesisHash : String} {j j' : Journal} {o : Oracle} {up : StateUpdate} {rows : List Row}

/-- The rows from the last snapshot on; all rows, if there is none. -/
def sinceSnapshot (rows : List Row) : List Row := (queryUpdates rows.reverse).reverse

/-- Some rows, applied in this order to the empty State, bring the State back. -/
def BroughtBackBy (kept : Column) (genesisHash : String) (j : Journal) (rows : List Row) : Prop :=
  ∀ now as, List.Forall₂ (Replays kept) rows as → ∃ s, State.collect now genesisHash as = .ok s ∧ j.state.Same s

/-! ## The rows that are read back -/

theorem sinceSnapshot_concat_snapshot {r : Row} (h : r.update.body.IsSnapshot) : sinceSnapshot (rows ++ [r]) = [r] := by
  rw [sinceSnapshot, List.reverse_append, List.reverse_singleton, List.singleton_append, queryUpdates, if_pos h]
  rfl

theorem sinceSnapshot_concat {r : Row} (h : ¬r.update.body.IsSnapshot) : sinceSnapshot (rows ++ [r]) = sinceSnapshot rows ++ [r] := by
  rw [sinceSnapshot, List.reverse_append, List.reverse_singleton, List.singleton_append, queryUpdates, if_neg h, List.reverse_cons]
  rfl

/-- What is read of some rows is read of any part of them that contains it. -/
theorem queryUpdates_of_prefix {l l' : List Row} (h : queryUpdates l <+: l') (h' : l' <+: l) : queryUpdates l' = queryUpdates l := by
  induction l generalizing l' with
  | nil => rw [List.prefix_nil.mp h']
  | cons r l ih =>
    rw [queryUpdates] at h ⊢
    by_cases hs : r.update.body.IsSnapshot
    · rw [if_pos hs] at h ⊢
      obtain ⟨t, rfl⟩ := h
      rw [List.singleton_append, queryUpdates, if_pos hs]
    · rw [if_neg hs] at h ⊢
      obtain ⟨t, rfl⟩ := h
      rw [List.cons_append, List.cons_prefix_cons] at h'
      rw [List.cons_append, queryUpdates, if_neg hs, ih (List.prefix_append _ t) h'.2]

theorem sinceSnapshot_of_suffix {rows' : List Row} (h : sinceSnapshot rows <:+ rows') (h' : rows' <:+ rows) :
    sinceSnapshot rows' = sinceSnapshot rows := by
  have hprefix : queryUpdates rows.reverse <+: rows'.reverse := by
    rw [← List.reverse_suffix, List.reverse_reverse]
    exact h
  rw [sinceSnapshot, queryUpdates_of_prefix hprefix (List.reverse_prefix.mpr h')]
  rfl

/-! ## The rows that bring the State back -/

/-- (step) One more row brings the State back with one more update. -/
theorem BroughtBackBy.store (h : j.BroughtBackBy kept genesisHash rows) (ho : j.InOrder kept up) (hst : j.store o up = some j')
    {r : Row} (hr : j'.rows = j.rows ++ [r]) : j'.BroughtBackBy kept genesisHash (rows ++ [r]) := by
  obtain ⟨-, hstamp, hun⟩ := ho
  obtain ⟨res, ha, hrows⟩ := store_eq_some hst
  obtain rfl := List.singleton_inj.mp (List.append_cancel_left (hr.symm.trans hrows))
  intro now as has
  obtain ⟨as₀, a, rfl, has₀, hra⟩ := replays_concat has
  obtain ⟨s, hs, hsame⟩ := h now as₀ has₀
  obtain ⟨s', ha', hsame'⟩ := applyUpdate_same hsame hra.body (fun hk => hra.created.trans (hstamp hk)) hra.newId hra.now hun ha
  exact ⟨s', collect_concat hs ha', hsame'⟩

/-- A snapshot alone brings the State back. -/
theorem broughtBackBy_snapshot {r : Row} {s₀ : State} (hb : r.update.body = .snapshot s₀) (hs : s₀.Same j.state) :
    j.BroughtBackBy kept genesisHash [r] := by
  intro now as has
  obtain ⟨a, as', hra, hnil, rfl⟩ := List.forall₂_cons_left_iff.mp has
  obtain rfl := List.forall₂_nil_left_iff.mp hnil
  rcases happly : (State.new now genesisHash).applyUpdate a.1 a.2 with ⟨s', res⟩
  have hbody : a.2.body = .snapshot s₀ := hra.body.trans hb
  cases res with
  | error e =>
    simp only [State.applyUpdate, hbody] at happly
    cases happly
  | ok res =>
    have hcollect : State.collect now genesisHash ([] ++ [(a.1, a.2)]) = .ok s' := collect_concat rfl happly
    exact ⟨s', hcollect, hs.symm.trans (State.applyUpdate_snapshot hbody happly)⟩

/-- What the rows say, at any time: all of them bring the State back, and so do those from the last snapshot on. -/
structure Compacts (kept : Column) (genesisHash : String) (j : Journal) : Prop where
  ordered : j.rows.Pairwise (fun a b => (kept a.update.created).nanos < (kept b.update.created).nanos)
  all : j.BroughtBackBy kept genesisHash j.rows
  since : j.BroughtBackBy kept genesisHash (sinceSnapshot j.rows)

/-- (step) -/
theorem Compacts.store (h : j.Compacts kept genesisHash) (ho : j.InOrder kept up) (hst : j.store o up = some j') :
    j'.Compacts kept genesisHash := by
  obtain ⟨res, ha, hrows⟩ := store_eq_some hst
  refine ⟨?_, ?_, ?_⟩
  · rw [hrows, List.pairwise_append]
    refine ⟨h.ordered, List.pairwise_singleton _ _, fun r hr r' hr' => ?_⟩
    obtain rfl := List.mem_singleton.mp hr'
    exact ho.1 r hr
  · rw [hrows]
    exact h.all.store ho hst hrows
  · by_cases hsnap : up.body.IsSnapshot
    · rw [hrows, sinceSnapshot_concat_snapshot hsnap]
      cases hb : up.body with
      | snapshot s₀ => exact broughtBackBy_snapshot hb (State.applyUpdate_snapshot hb ha)
      | _ =>
        rw [hb] at hsnap
        cases hsnap
    · rw [hrows, sinceSnapshot_concat hsnap]
      exact h.since.store ho hst hrows

/-- `update_worker`, started with an empty table. -/
def machineFrom (now : NaiveDateTime) (genesisHash : String) : Machine Journal (Oracle × StateUpdate) :=
  machine.startedAt { state := State.new now genesisHash, rows := [] }

theorem broughtBackBy_nil (now : NaiveDateTime) (genesisHash : String) :
    BroughtBackBy kept genesisHash { state := State.new now genesisHash, rows := [] } [] := by
  intro now' as has
  obtain rfl := List.forall₂_nil_left_iff.mp has
  exact ⟨_, rfl, ⟨rfl, rfl, rfl, rfl⟩⟩

/-- The update comes in the order of the table, and can be written. -/
abbrev WrittenInOrder (kept : Column) (j : Journal) (u : StateUpdate) : Prop := j.InOrder kept u ∧ u.body.Storable

/-- (run) With snapshots that can be written among the updates, which come in the order of the table, a restart brings the State back,
also when the rows before the last snapshot, or some of them, are gone; and so do all the rows together. -/
theorem compaction_restores (kept : Column) (now : NaiveDateTime) (genesisHash : String) (j : Journal)
    (h : (machineFrom now genesisHash).Reachable (fun j a => j.WrittenInOrder kept a.2) j) :
    j.BroughtBackBy kept genesisHash j.rows ∧
      ∀ rows, sinceSnapshot j.rows <:+ rows → rows <:+ j.rows → Restores kept genesisHash { j with rows := rows } := by
  have hc : j.Compacts kept genesisHash := by
    refine h.invariant ?_ fun j a j' _ hc hp hst => hc.store hp.1 hst
    rintro _ rfl
    exact ⟨List.Pairwise.nil, broughtBackBy_nil now genesisHash, broughtBackBy_nil now genesisHash⟩
  refine ⟨hc.all, ?_⟩
  rintro rows hsince hrows out ⟨l, as, now', hsel, has, rfl⟩
  obtain rfl := selected_eq hsel (hc.ordered.sublist hrows.sublist)
  change List.Forall₂ (Replays kept) (sinceSnapshot rows) as at has
  rw [sinceSnapshot_of_suffix hsince hrows] at has
  exact hc.since now' as has

end Journal

namespace Sample

/-- A State that can be written: nobody has signed up, and the exchange account has no balance in any currency. -/
def plainState : State :=
  { State.new ⟨0⟩ "genesis" with exchangeState := { ExchangeState.new with balances := AssocMap.empty } }

theorem plainState_storable : plainState.Storable where
  invites := rfl
  users _ _ h := by cases h
  addresses _ h := by cases h
  balances _ h := by cases h

/-- Alice has signed up, and a snapshot is stored. -/
theorem exists_snapshot : ∃ j j' : Journal, j.rows.length = 2 ∧ j.store oracle (upd 9 (.snapshot plainState)).2 = some j' ∧
    (Journal.machineFrom ⟨0⟩ "genesis").Reachable (fun j a => j.WrittenInOrder id a.2) j' := by
  obtain ⟨j, hj, hq⟩ := Machine.exists_reachable (M := Journal.machineFrom ⟨0⟩ "genesis")
    (P := fun j a => j.InOrder id a.2 ∧ ¬a.2.body.IsSnapshot) signup
    (q := fun j => decide (j.rows.length = 2 ∧ ∀ r ∈ j.rows, r.update.created.nanos < 9)) rfl (by decide +kernel)
  obtain ⟨hlen, hearly⟩ := of_decide_eq_true hq
  have hrun := hj.mono (Q := fun j a => j.WrittenInOrder id a.2) fun j a ha => by
    refine ⟨ha.1, ?_⟩
    cases hb : a.2.body with
    | snapshot s => exact (ha.2 (by rw [hb]; trivial)).elim
    | _ => trivial
  exact ⟨j, _, hlen, rfl, hrun.step (a := (oracle, (upd 9 (.snapshot plainState)).2))
    ⟨⟨hearly, fun _ => rfl, rfl⟩, plainState_storable⟩ rfl⟩

end Sample

namespace Journal

open Sample in
/-- After the snapshot, the rows before it may go. -/
theorem compaction_restores_snapshot : ∃ j : Journal, j.rows.length = 3 ∧ (sinceSnapshot j.rows).length = 1 ∧
    Restores id "genesis" { j with rows := sinceSnapshot j.rows } := by
  obtain ⟨j, j', hlen, hst, hj'⟩ := exists_snapshot
  obtain ⟨res, -, hrows⟩ := store_eq_some hst
  have hsince : sinceSnapshot j'.rows = [{ update := (upd 9 (.snapshot plainState)).2, oracle := oracle, result := res }] := by
    rw [hrows]
    exact sinceSnapshot_concat_snapshot trivial
  have hsuffix : sinceSnapshot j'.rows <:+ j'.rows := by
    rw [hsince, hrows]
    exact List.suffix_append _ _
  refine ⟨j', by rw [hrows, List.length_append, hlen]; rfl, by rw [hsince]; rfl, ?_⟩
  exact (compaction_restores id ⟨0⟩ "genesis" j' hj').2 _ (List.suffix_refl _) hsuffix

end Journal

end Hexstody
