import Hexstody.Lemmas.Journal

/-!
# States and the updates that made them

The States that the worker can reach, with all 23 kinds of update: an accepted update is added to the updates that made the State
before it, and a snapshot, which is of such a State, brings the updates that made that one (`State.MadeBy`). Each step meets a
condition on the State before it and on the update; with no condition these are all the States that are reached. The number of
confirmations that an exchange order needs is a parameter here (`State.applyUpdateAt`), as a law of the votes on an order may be
asked for every threshold; the code's own number gives the code's own State (`State.applyUpdateAt_number`).
-/

namespace Hexstody

namespace State

/-! ## Another number of confirmations -/

/-- `applyExchangeDecision`, at a given threshold. -/
def applyExchangeDecisionAt (threshold : Int16) (s : State) (req : ExchangeDecision) : Outcome Bool :=
  match s.users.get? req.user with
  | none => (s, .error (.userNotFound req.user))
  | some uinfo =>
    match uinfo.currencies.get? req.currencyFrom with
    | none => (s, .error (.userMissingCurrency req.user req.currencyFrom))
    | some cinfo =>
      match cinfo.exchangeRequests.get? req.id with
      | none => (s, .error (.userMissingExchange req.user req.currencyFrom))
      | some exchange =>
        match exchange.applyDecision threshold req with
        | .error e => (s, .error e)
        | .ok (exchange', completes) =>
          let s₁ := s.modifyCurrency req.user req.currencyFrom (fun i =>
            { i with exchangeRequests := i.exchangeRequests.modify req.id (fun _ => exchange') })
          if completes then
            ({ s₁ with exchangeState := s₁.exchangeState.processOrder exchange'.intoExchangeUpd }, .ok true)
          else (s₁, .ok false)

/-- `withExchangeDecision`, at a given threshold. -/
def withExchangeDecisionAt (threshold : Int16) (s : State) (req : ExchangeDecision) : Outcome Unit :=
  match s.applyExchangeDecisionAt threshold req with
  | (s', .error e) => (s', .error e)
  | (s', .ok false) => (s', .ok ())
  | (s', .ok true) => s'.addIncomingExchange req

/-- Apply an update where an exchange order needs a given number of confirmations. -/
def applyUpdateAt (threshold : Int16) (s : State) (o : Oracle) (u : StateUpdate) : Outcome (Option UpdateResult) :=
  match u.body with
  | .exchangeDecision req => stamped u.created (s.withExchangeDecisionAt threshold req) noResult
  | _ => s.applyUpdate o u

/-- At the code's number of confirmations this is what the code does. -/
theorem applyUpdateAt_number (s : State) (o : Oracle) (u : StateUpdate) :
    s.applyUpdateAt EXCHANGE_NUMBER_OF_CONFIRMATIONS o u = s.applyUpdate o u := by
  unfold applyUpdateAt
  split
  · rename_i req hb
    rw [applyUpdate, hb]
    rfl
  · rfl

/-- The number of confirmations matters to a decision on an exchange order only. -/
theorem applyUpdateAt_eq {t : Int16} {s : State} {o : Oracle} {u : StateUpdate}
    (h : ∀ req, u.body ≠ .exchangeDecision req) : s.applyUpdateAt t o u = s.applyUpdate o u := by
  unfold applyUpdateAt
  split
  · rename_i req hb
    exact absurd hb (h req)
  · rfl

/-! ## The States that are reached -/

/-- The State is made by some updates, in this order, and each step meets a condition. -/
inductive MadeBy (t : Int16) (P : State → UpdateBody → Prop) : State → List StateUpdate → Prop where
  | new (now : NaiveDateTime) (genesisHash : String) : MadeBy t P (State.new now genesisHash) []
  | update {s s' : State} {us : List StateUpdate} {o : Oracle} {up : StateUpdate} {res : Option UpdateResult} :
      MadeBy t P s us → P s up.body → ¬up.body.IsSnapshot → s.applyUpdateAt t o up = (s', .ok res) → MadeBy t P s' (us ++ [up])
  | restore {s s₀ s' : State} {us us₀ : List StateUpdate} {o : Oracle} {up : StateUpdate} {res : Option UpdateResult} :
      MadeBy t P s us → MadeBy t P s₀ us₀ → up.body = .snapshot s₀ → s.applyUpdateAt t o up = (s', .ok res) → MadeBy t P s' us₀

/-- No condition on the steps. -/
def anyUpdate (_ : State) (_ : UpdateBody) : Prop := True

/-- The State is reached by steps that meet a condition. -/
def Reached (P : State → UpdateBody → Prop) (s : State) : Prop := ∃ us, s.MadeBy EXCHANGE_NUMBER_OF_CONFIRMATIONS P us

variable {t : Int16} {P Q : State → UpdateBody → Prop} {s s' : State} {us : List StateUpdate} {o : Oracle} {up : StateUpdate}
  {res : Option UpdateResult}

/-- A snapshot is taken over as it is, but for the time. -/
theorem applyUpdateAt_snapshot {s₀ : State} (hb : up.body = .snapshot s₀) (h : s.applyUpdateAt t o up = (s', .ok res)) :
    s' = { s₀ with lastChanged := up.created } := by
  unfold applyUpdateAt applyUpdate at h
  rw [hb] at h
  exact (Prod.mk.inj h).1.symm

/-- The invariant rule. -/
theorem MadeBy.invariant {I : State → List StateUpdate → Prop} (h : s.MadeBy t P us)
    (hnew : ∀ now genesisHash, I (State.new now genesisHash) [])
    (htime : ∀ s us created, I s us → I { s with lastChanged := created } us)
    (hstep : ∀ {s us o up s' res}, s.MadeBy t P us → I s us → P s up.body → ¬up.body.IsSnapshot →
      s.applyUpdateAt t o up = (s', .ok res) → I s' (us ++ [up])) : I s us := by
  induction h with
  | new now genesisHash => exact hnew now genesisHash
  | update h hP hs happly ih => exact hstep h ih hP hs happly
  | restore _ _ hb happly _ ih =>
    obtain rfl := applyUpdateAt_snapshot hb happly
    exact htime _ _ _ ih

/-- The invariant rule, at the code's number of confirmations. -/
theorem MadeBy.invariant_number {I : State → List StateUpdate → Prop} (h : s.MadeBy EXCHANGE_NUMBER_OF_CONFIRMATIONS P us)
    (hnew : ∀ now genesisHash, I (State.new now genesisHash) [])
    (htime : ∀ s us created, I s us → I { s with lastChanged := created } us)
    (hstep : ∀ {s us o up s' res}, s.MadeBy EXCHANGE_NUMBER_OF_CONFIRMATIONS P us → I s us → P s up.body →
      ¬up.body.IsSnapshot → s.applyUpdate o up = (s', .ok res) → I s' (us ++ [up])) : I s us := by
  refine h.invariant hnew htime ?_
  intro s us o up s' res hmade hs hP hsnap happly
  rw [applyUpdateAt_number] at happly
  exact hstep hmade hs hP hsnap happly

/-- The invariant rule, for what is about the State alone. -/
theorem Reached.invariant {I : State → Prop} (h : s.Reached P) (hnew : ∀ now genesisHash, I (State.new now genesisHash))
    (htime : ∀ s created, I s → I { s with lastChanged := created })
    (hstep : ∀ {s o up s' res}, s.Reached P → I s → P s up.body → ¬up.body.IsSnapshot →
      s.applyUpdate o up = (s', .ok res) → I s') : I s := by
  obtain ⟨us, h⟩ := h
  refine h.invariant_number (I := fun s _ => I s) hnew (fun s _ created hs => htime s created hs) ?_
  intro s us o up s' res hmade hs hP hsnap happly
  exact hstep ⟨us, hmade⟩ hs hP hsnap happly

/-- A weaker condition on the steps reaches no fewer States. -/
theorem MadeBy.mono (h : s.MadeBy t P us) (hPQ : ∀ s b, P s b → Q s b) : s.MadeBy t Q us := by
  induction h with
  | new now genesisHash => exact .new now genesisHash
  | update _ hP hs happly ih => exact .update ih (hPQ _ _ hP) hs happly
  | restore _ _ hb happly ih ih₀ => exact .restore ih ih₀ hb happly

theorem Reached.mono (h : s.Reached P) (hPQ : ∀ s b, P s b → Q s b) : s.Reached Q := by
  obtain ⟨us, h⟩ := h
  exact ⟨us, h.mono hPQ⟩

/-- Every State that is reached is reached by steps that need meet nothing. -/
theorem Reached.any (h : s.Reached P) : s.Reached anyUpdate := h.mono (fun _ _ _ => trivial)

end State

namespace Journal

/-- The updates of the rows. -/
def updates (j : Journal) : List StateUpdate := j.rows.map (·.update)

theorem updates_store {j j' : Journal} {o : Oracle} {up : StateUpdate} (h : j.store o up = some j') :
    j'.updates = j.updates ++ [up] := by
  obtain ⟨res, -, hrows⟩ := store_eq_some h
  rw [updates, hrows, List.map_append]
  rfl

/-- (run) The State of a journal is made by the updates of the rows. -/
theorem madeBy_updates {P : State → UpdateBody → Prop} {Q : Journal → Oracle × StateUpdate → Prop} {j : Journal}
    (hQ : ∀ j a, Q j a → P j.state a.2.body ∧ ¬a.2.body.IsSnapshot) (h : machine.Reachable Q j) :
    j.state.MadeBy EXCHANGE_NUMBER_OF_CONFIRMATIONS P j.updates := by
  refine Machine.Reachable.invariant
    (I := fun j => j.state.MadeBy EXCHANGE_NUMBER_OF_CONFIRMATIONS P j.updates) h ?_ ?_
  · rintro _ ⟨now, genesisHash, rfl⟩
    exact .new now genesisHash
  · rintro j ⟨o, up⟩ j' - hj hq hs
    obtain ⟨hP, hsnap⟩ := hQ _ _ hq
    obtain ⟨res, happly, -⟩ := store_eq_some hs
    rw [updates_store hs]
    exact .update hj hP hsnap (by rw [State.applyUpdateAt_number]; exact happly)

end Journal

end Hexstody
