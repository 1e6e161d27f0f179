import Hexstody.Handlers
import Hexstody.Lemmas.Replay
import Hexstody.Lemmas.World
import Mathlib.Data.List.Sort

/-!
# Whether a restart brings the State back

The live State is made in the order in which updates arrive in the channel; a restart applies the rows in the order of the times
they are stamped with. An update is stamped before it is sent, so another may overtake it, and the two orders differ. In every
run in which each update that is stored is stamped later than the rows before it, the rows are applied as they were
(`restart_restores`), provided that the table keeps the times which the State keeps, and that searches find one thing only.
-/

namespace Hexstody

namespace Journal

variable {kept : Column} {genesisHash : String} {j j' : Journal} {o : Oracle} {up : StateUpdate}

/-- The update comes after every row in the table; the time it is stamped with is kept if the State keeps it; and its searches
find the same in any order. -/
def InOrder (kept : Column) (j : Journal) (u : StateUpdate) : Prop :=
  (∀ r ∈ j.rows, (kept r.update.created).nanos < (kept u.created).nanos) ∧
    (u.body.keepsStamp = true → kept u.created = u.created) ∧ j.state.unambiguous u.body = true

instance (j : Journal) (u : StateUpdate) : Decidable (j.InOrder kept u) := inferInstanceAs (Decidable (_ ∧ _ ∧ _))

/-- The rows are in the order of their times, and applied in this order they bring the State back. -/
structure ReplaysTo (kept : Column) (genesisHash : String) (j : Journal) : Prop where
  ordered : j.rows.Pairwise (fun a b => (kept a.update.created).nanos < (kept b.update.created).nanos)
  noSnapshot : ∀ r ∈ j.rows, ¬r.update.body.IsSnapshot
  replays : ∀ now as, List.Forall₂ (Replays kept) j.rows as →
    ∃ s, State.collect now genesisHash as = .ok s ∧ j.state.Same s

/-- One more update to collect. -/
theorem collect_concat {now : NaiveDateTime} {as : List (Oracle × StateUpdate)} {s s' : State} {res : Option UpdateResult}
    (h : State.collect now genesisHash as = .ok s) (ha : s.applyUpdate o up = (s', .ok res)) :
    State.collect now genesisHash (as ++ [(o, up)]) = .ok s' := by
  unfold State.collect at h ⊢
  rw [List.foldlM_append, h]
  simp only [bind, Except.bind, List.foldlM_cons, List.foldlM_nil, ha]
  rfl

/-- What is read back of rows and one more row. -/
theorem replays_concat {rows : List Row} {r : Row} {as : List (Oracle × StateUpdate)}
    (h : List.Forall₂ (Replays kept) (rows ++ [r]) as) :
    ∃ as₀ a, as = as₀ ++ [a] ∧ List.Forall₂ (Replays kept) rows as₀ ∧ Replays kept r a := by
  have hr := List.forall₂_reverse_iff.mpr h
  rw [List.reverse_append, List.reverse_singleton, List.singleton_append] at hr
  generalize hb : as.reverse = bs at hr
  cases hr with
  | cons ha hrest =>
    rename_i a bs
    refine ⟨bs.reverse, a, ?_, ?_, ha⟩
    · rw [← List.reverse_reverse as, hb, List.reverse_cons]
    · rw [← List.forall₂_reverse_iff, List.reverse_reverse]
      exact hrest

/-- (step) -/
theorem ReplaysTo.store (h : j.ReplaysTo kept genesisHash) (hsnap : ¬up.body.IsSnapshot) (ho : j.InOrder kept up)
    (hst : j.store o up = some j') : j'.ReplaysTo kept genesisHash := by
  obtain ⟨hlater, hstamp, hun⟩ := ho
  obtain ⟨res, ha, hrows⟩ := store_eq_some hst
  refine ⟨?_, ?_, ?_⟩
  · rw [hrows, List.pairwise_append]
    refine ⟨h.ordered, List.pairwise_singleton _ _, ?_⟩
    intro r hr r' hr'
    obtain rfl := List.mem_singleton.mp hr'
    exact hlater r hr
  · intro r hr
    rw [hrows] at hr
    rcases List.mem_append.mp hr with hr | hr
    · exact h.noSnapshot r hr
    · obtain rfl := List.mem_singleton.mp hr
      exact hsnap
  · intro now as has
    rw [hrows] at has
    obtain ⟨as₀, a, rfl, has₀, hra⟩ := replays_concat has
    obtain ⟨s, hs, hsame⟩ := h.replays now as₀ has₀
    have hcreated : up.body.keepsStamp = true → a.2.created = up.created := fun hk => hra.created.trans (hstamp hk)
    obtain ⟨s', ha', hsame'⟩ := applyUpdate_same hsame hra.body hcreated hra.newId hra.now hun ha
    exact ⟨s', collect_concat hs ha', hsame'⟩

/-- Rows with no snapshot among them are all read. -/
theorem queryUpdates_eq {l : List Row} (h : ∀ r ∈ l, ¬r.update.body.IsSnapshot) : queryUpdates l = l := by
  induction l with
  | nil => rfl
  | cons r l ih =>
    rw [queryUpdates, if_neg (h r List.mem_cons_self), ih (fun r' hr' => h r' (List.mem_cons_of_mem _ hr'))]

/-- Rows in the order of their times come back from the table the other way round. -/
theorem selected_eq {rows l : List Row} (h : Selected kept rows l)
    (ho : rows.Pairwise (fun a b => (kept a.update.created).nanos < (kept b.update.created).nanos)) : l = rows.reverse := by
  obtain ⟨hperm, hdesc⟩ := h
  -- two rows of one time are one row
  have hne : ∀ a b, a ∈ rows → b ∈ rows → (kept a.update.created).nanos = (kept b.update.created).nanos → a = b := by
    intro a b ha hb
    have hpw : rows.Pairwise (fun a b => (kept a.update.created).nanos = (kept b.update.created).nanos → a = b) :=
      ho.imp (fun hlt heq => by omega)
    have hflip : rows.Pairwise (flip fun a b => (kept a.update.created).nanos = (kept b.update.created).nanos → a = b) :=
      ho.imp (fun hlt heq => by omega)
    exact hpw.forall_of_forall_of_flip (fun _ _ _ => rfl) hflip ha hb
  refine (hperm.trans (List.reverse_perm rows).symm).eq_of_pairwise ?_ hdesc ?_
  · intro a b ha hb hab hba
    exact hne a b (hperm.subset ha) (List.mem_reverse.mp hb) (by omega)
  · rw [List.pairwise_reverse]
    exact ho.imp (fun hlt => by omega)

theorem ReplaysTo.restores (h : j.ReplaysTo kept genesisHash) : j.Restores kept genesisHash := by
  rintro out ⟨l, as, now, hsel, has, rfl⟩
  obtain rfl := selected_eq hsel h.ordered
  rw [queryUpdates_eq (fun r hr => h.noSnapshot r (List.mem_reverse.mp hr)), List.reverse_reverse] at has
  exact h.replays now as has

/-! ## A restart that is carried out -/

/-- The rows, the latest first. -/
def latestFirst (kept : Column) (rows : List Row) : List Row :=
  rows.insertionSort (fun a b => (kept b.update.created).nanos ≤ (kept a.update.created).nanos)

/-- The rows as one restart reads them back. -/
def readBack (kept : Column) (rows : List Row) : List (Oracle × StateUpdate) :=
  (queryUpdates (latestFirst kept rows)).reverse.map
    (fun r => (r.oracle, { created := kept r.update.created, body := r.update.body }))

theorem selected_latestFirst (kept : Column) (rows : List Row) : Selected kept rows (latestFirst kept rows) := by
  have htotal : Std.Total (fun a b : Row => (kept b.update.created).nanos ≤ (kept a.update.created).nanos) :=
    ⟨fun a b => by omega⟩
  have htrans : IsTrans Row (fun a b => (kept b.update.created).nanos ≤ (kept a.update.created).nanos) :=
    ⟨fun a b c hab hbc => by omega⟩
  exact ⟨List.perm_insertionSort _ rows, List.pairwise_insertionSort _ rows⟩

/-- There is something that a restart may make of any rows. -/
theorem queryState_readBack (kept : Column) (genesisHash : String) (now : NaiveDateTime) (rows : List Row) :
    QueryState kept genesisHash rows (State.collect now genesisHash (readBack kept rows)) := by
  refine ⟨latestFirst kept rows, readBack kept rows, now, selected_latestFirst kept rows, ?_, rfl⟩
  rw [readBack, List.forall₂_map_right_iff]
  exact List.forall₂_same.mpr (fun r _ => ⟨rfl, rfl, rfl, rfl⟩)

end Journal

namespace World

variable {ι : Type} {C : Client ι} {k : Clock} {w : World} {kept : Column} {now : NaiveDateTime} {genesisHash : String}

/-- A restart restores the State at every moment of every run of the hot wallet, over any handlers, in which each update that is
stored comes in order. -/
theorem restart_restores (h : ((machine C k).startedAt (World.new now genesisHash)).Reachable
    (OnAccepted (Journal.InOrder kept)) w) : w.journal.Restores kept genesisHash := by
  refine Journal.ReplaysTo.restores (h.invariant (I := fun w => w.journal.ReplaysTo kept genesisHash) ?_ ?_)
  · rintro _ rfl
    refine ⟨List.Pairwise.nil, (fun r hr => by cases hr), ?_⟩
    rintro now' _ ⟨⟩
    exact ⟨_, rfl, ⟨rfl, rfl, rfl, rfl⟩⟩
  · intro w a w' hw hr hP hs
    cases step_eq_some hs with
    | applied o u us j hu hj =>
      have hfresh := (issued_of_reachable (reachable_of_new hw)).fresh (o := o) hu
      exact hr.store hfresh.1 (hP.of_store hu hj) hj
    | _ => exact hr

/-- Alice's withdrawal is under way. -/
theorem restart_restores_withdrawal : ∃ w : World, w.journal.rows.length = 6 ∧ w.journal.Restores id "genesis" := by
  obtain ⟨w, hw, hq⟩ := Machine.exists_reachable
    (M := (machine (hotWallet Sample.ctx) Sample.clock).startedAt (World.new ⟨0⟩ "genesis"))
    (P := OnAccepted (Journal.InOrder id))
    (Sample.opening 1000000 ++ Sample.done 8 (Sample.withdraw 7 1000) ++
      Sample.done 9 (.confirm (Sample.signed 1) (Sample.confirmation 7 1000)))
    (q := fun w => w.journal.rows.length == 6) rfl (by decide +kernel)
  exact ⟨w, by simpa using hq, restart_restores hw⟩

/-- The time at which a step stamps an update. -/
def stamp? {ι : Type} : Action ι → Option NaiveDateTime
  | .request _ created => some created
  | .answer _ now => some now
  | _ => none

/-- The clock is ahead of every stamp so far. -/
def ClockAdvances (w : World) (a : Action ι) : Prop :=
  ∀ t ∈ stamp? a, ∀ u ∈ w.sentUpdates, u.created.nanos < t.nanos

instance (w : World) (a : Action ι) : Decidable (w.ClockAdvances a) := by
  unfold ClockAdvances
  exact inferInstance

/-- Two operators decide on alice's withdrawal, which one has confirmed already: the second confirms it, then the third rejects
it, and the rejection is applied first. In the order of the stamps the confirmation decides, and the rejection fails: the hot
wallet does not start again. -/
theorem overtaken : ¬∀ (Γ : Ctx) (k : Clock) (now : NaiveDateTime) (genesisHash : String) (w : World),
    ((machine (hotWallet Γ) k).startedAt (World.new now genesisHash)).Reachable ClockAdvances w →
      w.journal.Restores id genesisHash := by
  intro h
  obtain ⟨w, hw, hq⟩ := Machine.exists_reachable
    (M := (machine (hotWallet Sample.ctx) Sample.clock).startedAt (World.new ⟨0⟩ "genesis")) (P := ClockAdvances)
    (Sample.opening 1000000 ++ Sample.done 8 (Sample.withdraw 7 1000) ++
      Sample.done 9 (.confirm (Sample.signed 1) (Sample.confirmation 7 1000)) ++
      [.request (.confirm (Sample.signed 2) (Sample.confirmation 7 1000)) ⟨10⟩,
        .request (.reject (Sample.signed 3) (Sample.confirmation 7 1000)) ⟨11⟩, .deliver 1, .deliver 0,
        .apply Sample.oracle true, .apply Sample.oracle true])
    (q := fun w => !(State.collect ⟨0⟩ "genesis" (Journal.readBack id w.journal.rows)).isOk) rfl (by decide +kernel)
  obtain ⟨s, hs, -⟩ := h Sample.ctx Sample.clock ⟨0⟩ "genesis" w hw _ (Journal.queryState_readBack id "genesis" ⟨0⟩ _)
  rw [hs] at hq
  cases hq

end World

end Hexstody
