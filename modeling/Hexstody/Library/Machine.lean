/-!
# Machines: runs, invariants, simulation

A machine has initial states and a partial step function: an action that is not enabled in a state has no successor there.
`Reachable P` are the states that runs reach whose every step meets the condition `P` (a condition on the state before the step
and on the action); with `P` always true they are the reachable states. Each induction over a run is made here once: an
invariant is two goals (`Reachable.invariant`), a view that follows a log is replayed from it (`Reachable.replays`), a run that is
executed reaches its last state (`exists_reachable`), a run may go on from where another ended (`Reachable.trans`), and a map between
machines that matches every step by a step or by nothing carries runs to runs (`Reachable.simulate`). Steps that lower a budget come to
an end (`exists_quiescent`), and are no more than the budget (`length_le_of_checkedRun`).
-/

/-- A machine over states `σ` and actions `α`. -/
structure Machine (σ α : Type) where
  init : σ → Prop
  step : σ → α → Option σ

namespace Machine

variable {σ α τ β : Type}

/-- The states of the runs whose every step meets `P`. -/
inductive Reachable (M : Machine σ α) (P : σ → α → Prop) : σ → Prop where
  | init {s : σ} : M.init s → Reachable M P s
  | step {s s' : σ} {a : α} : Reachable M P s → P s a → M.step s a = some s' → Reachable M P s'

/-- No condition on the steps. -/
def anyStep (_ : σ) (_ : α) : Prop := True

instance (s : σ) (a : α) : Decidable (anyStep s a) := isTrue trivial

/-- Run a list of actions, each of which has to meet the condition. -/
def checkedRun (M : Machine σ α) (P : σ → α → Prop) [∀ s a, Decidable (P s a)] : σ → List α → Option σ
  | s, [] => some s
  | s, a :: as => if P s a then (M.step s a).bind (fun s' => checkedRun M P s' as) else none

/-- The invariant rule: what holds initially and is kept by every step that meets the condition holds of every state
reached. The step may use that the state before it is reachable. -/
theorem Reachable.invariant {M : Machine σ α} {P : σ → α → Prop} {I : σ → Prop} {s : σ} (h : M.Reachable P s)
    (hinit : ∀ s, M.init s → I s)
    (hstep : ∀ s a s', M.Reachable P s → I s → P s a → M.step s a = some s' → I s') : I s := by
  induction h with
  | init h => exact hinit _ h
  | step h hP hs ih => exact hstep _ _ _ h ih hP hs

/-- The replay rule: a view of the state that every step changes as the entry says that it puts at the end of a log is, in every state
reached, what the log makes of the first view. -/
theorem Reachable.replays {M : Machine σ α} {P : σ → α → Prop} {l : σ → List β} {v : σ → τ} {f : τ → β → τ} {t : τ} {s : σ}
    (h : M.Reachable P s) (hinit : ∀ s, M.init s → l s = [] ∧ v s = t)
    (hstep : ∀ s a s', M.Reachable P s → P s a → M.step s a = some s' → ∃ b, l s' = l s ++ [b] ∧ v s' = f (v s) b) :
    v s = (l s).foldl f t := by
  refine h.invariant (I := fun s => v s = (l s).foldl f t) ?_ ?_
  · intro s hs
    obtain ⟨hlog, hview⟩ := hinit s hs
    rw [hlog, hview, List.foldl_nil]
  · intro s a s' hr hs hP hstep'
    obtain ⟨b, hlog, hview⟩ := hstep s a s' hr hP hstep'
    rw [hlog, hview, List.foldl_append, List.foldl_cons, List.foldl_nil, ← hs]

/-- A weaker condition on the steps reaches no fewer states. -/
theorem Reachable.mono {M : Machine σ α} {P Q : σ → α → Prop} {s : σ} (h : M.Reachable P s)
    (hPQ : ∀ s a, P s a → Q s a) : M.Reachable Q s := by
  induction h with
  | init h => exact .init h
  | step _ hP hs ih => exact .step ih (hPQ _ _ hP) hs

/-- What a run of actions that meet the condition ends in is reachable from where it starts. -/
theorem Reachable.of_checkedRun {M : Machine σ α} {P : σ → α → Prop} [∀ s a, Decidable (P s a)] {s s' : σ} {as : List α}
    (h : M.Reachable P s) (hr : M.checkedRun P s as = some s') : M.Reachable P s' := by
  induction as generalizing s with
  | nil =>
    obtain rfl := Option.some.inj hr
    exact h
  | cons a as ih =>
    rw [checkedRun] at hr
    by_cases hP : P s a
    · rw [if_pos hP] at hr
      obtain ⟨s₁, hs, hr'⟩ := Option.bind_eq_some_iff.mp hr
      exact ih (.step h hP hs) hr'
    · rw [if_neg hP] at hr
      cases hr

/-- A run that is executed and ends in a state with a property shows that such a state is reachable. -/
theorem exists_reachable {M : Machine σ α} {P : σ → α → Prop} [∀ s a, Decidable (P s a)] {s : σ} (as : List α)
    {q : σ → Bool} (h : M.init s) (hr : (M.checkedRun P s as).any q = true) : ∃ s', M.Reachable P s' ∧ q s' = true := by
  obtain ⟨s', hs', hq⟩ := (Option.any_eq_true q _).mp hr
  exact ⟨s', .of_checkedRun (.init h) hs', hq⟩

/-- The simulation rule: a map of states under which every step of one machine is a step of the other, or no step at all,
maps reachable states to reachable states. -/
theorem Reachable.simulate {M : Machine σ α} {N : Machine τ β} {P : σ → α → Prop} {Q : τ → β → Prop} {f : σ → τ}
    {s : σ} (h : M.Reachable P s) (hinit : ∀ s, M.init s → N.init (f s))
    (hstep : ∀ s a s', M.Reachable P s → P s a → M.step s a = some s' →
      f s' = f s ∨ ∃ b, Q (f s) b ∧ N.step (f s) b = some (f s')) : N.Reachable Q (f s) := by
  induction h with
  | init h => exact .init (hinit _ h)
  | step h hP hs ih =>
    rcases hstep _ _ _ h hP hs with he | ⟨b, hQ, hb⟩
    · rw [he]; exact ih
    · exact .step ih hQ hb

/-- The machine, started in a given state. -/
def startedAt (M : Machine σ α) (s : σ) : Machine σ α where
  init := (· = s)
  step := M.step

/-- A run that goes on from where another one ended is a run. -/
theorem Reachable.trans {M : Machine σ α} {P : σ → α → Prop} {s s' : σ} (h : M.Reachable P s)
    (h' : (M.startedAt s).Reachable P s') : M.Reachable P s' := by
  induction h' with
  | init hs =>
    obtain rfl : _ = s := hs
    exact h
  | step _ hP hs ih => exact .step ih hP hs

/-- One step is a run. -/
theorem Reachable.single {M : Machine σ α} {P : σ → α → Prop} {s s' : σ} {a : α} (hP : P s a) (h : M.step s a = some s') :
    (M.startedAt s).Reachable P s' := .step (.init rfl) hP h

/-- The quiescence rule: where every step that meets the condition lowers a budget, some run of such steps ends where none of them
is enabled. -/
theorem exists_quiescent {M : Machine σ α} {P : σ → α → Prop} {B : Nat → σ → Prop} {n : Nat} {s : σ} (hs : B n s)
    (hstep : ∀ n s a s', B n s → P s a → M.step s a = some s' → ∃ m, m < n ∧ B m s') :
    ∃ s' m, (M.startedAt s).Reachable P s' ∧ B m s' ∧ ∀ a, P s' a → M.step s' a = none := by
  induction n using Nat.strongRecOn generalizing s with
  | ind n ih =>
    by_cases h : ∃ a s₁, P s a ∧ M.step s a = some s₁
    · obtain ⟨a, s₁, hP, ha⟩ := h
      obtain ⟨m, hlt, hB⟩ := hstep n s a s₁ hs hP ha
      obtain ⟨s', m', hr, hB', hq⟩ := ih m hlt hB
      exact ⟨s', m', (Reachable.single hP ha).trans hr, hB', hq⟩
    · refine ⟨s, n, .init rfl, hs, fun a hP => ?_⟩
      cases ha : M.step s a with
      | none => rfl
      | some s₁ => exact absurd ⟨a, s₁, hP, ha⟩ h

/-- The bound: where every step that meets the condition lowers a budget, a run of such steps is no longer than the budget. -/
theorem length_le_of_checkedRun {M : Machine σ α} {P : σ → α → Prop} [∀ s a, Decidable (P s a)] {B : Nat → σ → Prop} {n : Nat}
    {s s' : σ} {as : List α} (hs : B n s)
    (hstep : ∀ n s a s', B n s → P s a → M.step s a = some s' → ∃ m, m < n ∧ B m s') (hr : M.checkedRun P s as = some s') :
    as.length ≤ n := by
  induction as generalizing n s with
  | nil => exact Nat.zero_le n
  | cons a as ih =>
    rw [checkedRun] at hr
    by_cases hP : P s a
    · rw [if_pos hP] at hr
      obtain ⟨s₁, ha, hr'⟩ := Option.bind_eq_some_iff.mp hr
      obtain ⟨m, hlt, hB⟩ := hstep n s a s₁ hs hP ha
      have hle := ih hB hr'
      rw [List.length_cons]
      omega
    · rw [if_neg hP] at hr
      cases hr

end Machine
