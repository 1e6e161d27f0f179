/-!
# Unwinding

A responder changes its state by each event and answers it. One responder follows another if a relation between their states is kept,
step by step, by the events that are handed to both and by those that are handed to the first alone (`Follows`): then what the first
has become after some events is related to what the second has become after those that are kept, and the events that it follows in
answer are answered alike (`Follows.run`, `Follows.answers`). So whatever else happens in between does not matter to what the relation
says.
-/

/-- A state is changed by events, and each is answered. -/
structure Responder (σ ε ρ : Type) where
  respond : σ → ε → σ × ρ

namespace Responder

variable {σ τ ε ρ : Type}

/-- The state after some events. -/
def run (S : Responder σ ε ρ) : σ → List ε → σ
  | s, [] => s
  | s, e :: es => S.run (S.respond s e).1 es

/-- The answers to the events of a kind, in order. -/
def answers (S : Responder σ ε ρ) (own : ε → Bool) : σ → List ε → List ρ
  | _, [] => []
  | s, e :: es =>
    if own e then (S.respond s e).2 :: S.answers own (S.respond s e).1 es else S.answers own (S.respond s e).1 es

/-- Every event meets a condition in the state in which it comes. -/
def Along (S : Responder σ ε ρ) (P : σ → ε → Prop) : σ → List ε → Prop
  | _, [] => True
  | s, e :: es => P s e ∧ S.Along P (S.respond s e).1 es

/-- One responder follows another through the events that are kept, and answers some of them as the other does. -/
structure Follows (S : Responder σ ε ρ) (T : Responder τ ε ρ) (keep own : ε → Bool) (P : σ → ε → Prop) (R : σ → τ → Prop) :
    Prop where
  kept : ∀ s t e, R s t → P s e → keep e = true → R (S.respond s e).1 (T.respond t e).1
  dropped : ∀ s t e, R s t → P s e → keep e = false → R (S.respond s e).1 t
  answer : ∀ s t e, R s t → P s e → own e = true → keep e = true ∧ (S.respond s e).2 = (T.respond t e).2

namespace Follows

variable {S : Responder σ ε ρ} {T : Responder τ ε ρ} {keep own : ε → Bool} {P : σ → ε → Prop} {R : σ → τ → Prop}

/-- (run) The states stay related when the events that are not kept are left out. -/
theorem run (h : S.Follows T keep own P R) {s : σ} {t : τ} {es : List ε} (hR : R s t) (hP : S.Along P s es) :
    R (S.run s es) (T.run t (es.filter keep)) := by
  induction es generalizing s t with
  | nil => exact hR
  | cons e es ih =>
    obtain ⟨he, hes⟩ := hP
    cases hk : keep e with
    | true =>
      rw [List.filter_cons_of_pos hk]
      exact ih (h.kept s t e hR he hk) hes
    | false =>
      rw [List.filter_cons_of_neg (by rw [hk]; exact Bool.false_ne_true)]
      exact ih (h.dropped s t e hR he hk) hes

/-- (run) So are the answers the same. -/
theorem answers (h : S.Follows T keep own P R) {s : σ} {t : τ} {es : List ε} (hR : R s t) (hP : S.Along P s es) :
    S.answers own s es = T.answers own t (es.filter keep) := by
  induction es generalizing s t with
  | nil => rfl
  | cons e es ih =>
    obtain ⟨he, hes⟩ := hP
    cases hk : keep e with
    | true =>
      rw [List.filter_cons_of_pos hk, Responder.answers, Responder.answers, ih (h.kept s t e hR he hk) hes]
      cases ho : own e with
      | true => rw [(h.answer s t e hR he ho).2]
      | false => rfl
    | false =>
      rw [List.filter_cons_of_neg (by rw [hk]; exact Bool.false_ne_true), Responder.answers, ih (h.dropped s t e hR he hk) hes]
      cases ho : own e with
      | true =>
        rw [(h.answer s t e hR he ho).1] at hk
        cases hk
      | false => rfl

end Follows

end Responder
