import Mathlib.Tactic.Tauto

/-!
# Notifications

Tasks wait at a `Notify` until they are woken, one at a time. `notifyOne` releases the task that waits longest, or leaves a permit when
no task waits; a permit that is there already is the same permit. A task that asks takes the permit, or waits (`notified`); one that was
released goes on when it runs (`wake`); one may give up at any time, and hands on the release that it did not use (`giveUp`).

What is left of the notifications are tokens: the permit, and the releases that no task has used. So a notification is not lost
(`tokens_notifyOne_pos`): there is a token until a task goes on (`tokens_notified`, `tokens_wake`), also when tasks give up
(`tokens_giveUp_pos`), and a task that asks while there is a permit does not wait.
-/

/-- Tasks that wait for a notification. -/
structure Notify (τ : Type) where
  permit : Bool
  /-- The task that waits longest comes first. -/
  waiting : List τ
  /-- The tasks that are released, and have not gone on. -/
  released : List τ
  idle : permit = true → waiting = []

namespace Notify

variable {τ : Type}

/-- Nobody waits, and nothing was notified. -/
def new : Notify τ where
  permit := false
  waiting := []
  released := []
  idle _ := rfl

/-- The task that waits longest is released; when nobody waits, a permit is left. -/
def notifyOne (n : Notify τ) : Notify τ :=
  match h : n.waiting with
  | [] => { n with permit := true, idle := fun _ => h }
  | t :: ts =>
    { permit := n.permit
      waiting := ts
      released := n.released ++ [t]
      idle := fun hp => absurd (h ▸ n.idle hp) (List.cons_ne_nil t ts) }

/-- A task asks: it takes the permit, or waits. -/
def notified (n : Notify τ) (t : τ) : Notify τ :=
  if h : n.permit = true then { n with permit := false, idle := fun h => absurd h Bool.false_ne_true }
  else { n with waiting := n.waiting ++ [t], idle := fun hp => absurd hp h }

/-- A task that was released goes on. -/
def wake [DecidableEq τ] (n : Notify τ) (t : τ) : Option (Notify τ) :=
  if t ∈ n.released then some { n with released := n.released.erase t } else none

/-- A task gives up: it waits no more, and its release is for the next. -/
def giveUp [DecidableEq τ] (n : Notify τ) (t : τ) : Notify τ :=
  if t ∈ n.released then notifyOne { n with released := n.released.erase t }
  else
    { n with
      waiting := n.waiting.erase t
      idle := fun hp => by rw [n.idle hp]; rfl }

/-- A task has asked, and has neither gone on nor given up. -/
def Asked (n : Notify τ) (t : τ) : Prop := t ∈ n.waiting ∨ t ∈ n.released

/-- What is left of the notifications. -/
def tokens (n : Notify τ) : Nat := n.permit.toNat + n.released.length

variable {n n' : Notify τ} {t : τ}

@[simp] theorem tokens_new : (new : Notify τ).tokens = 0 := rfl

theorem notifyOne_of_waiting_nil (h : n.waiting = []) :
    n.notifyOne.permit = true ∧ n.notifyOne.waiting = [] ∧ n.notifyOne.released = n.released := by
  unfold notifyOne
  split
  · exact ⟨rfl, h, rfl⟩
  · rename_i ht
    rw [h] at ht
    cases ht

theorem notifyOne_of_waiting_cons {ts : List τ} (h : n.waiting = t :: ts) :
    n.notifyOne.permit = n.permit ∧ n.notifyOne.waiting = ts ∧ n.notifyOne.released = n.released ++ [t] := by
  unfold notifyOne
  split
  · rename_i hnil
    rw [h] at hnil
    cases hnil
  · rename_i ht
    rw [h] at ht
    obtain ⟨rfl, rfl⟩ := List.cons.inj ht
    exact ⟨rfl, rfl, rfl⟩

/-- After a notification there is a token. -/
theorem tokens_notifyOne_pos (n : Notify τ) : 0 < n.notifyOne.tokens := by
  unfold tokens
  cases h : n.waiting with
  | nil =>
    rw [(notifyOne_of_waiting_nil h).1]
    exact Nat.lt_of_lt_of_le Nat.one_pos (Nat.le_add_right _ _)
  | cons t ts =>
    rw [(notifyOne_of_waiting_cons h).2.2, List.length_append]
    exact Nat.lt_of_lt_of_le Nat.one_pos (Nat.le_trans (Nat.le_add_left _ _) (Nat.le_add_left _ _))

/-- One notification is one token at most. -/
theorem tokens_notifyOne_le (n : Notify τ) : n.notifyOne.tokens ≤ n.tokens + 1 := by
  unfold tokens
  cases h : n.waiting with
  | nil =>
    rw [(notifyOne_of_waiting_nil h).1, (notifyOne_of_waiting_nil h).2.2]
    simp only [Bool.toNat_true]
    omega
  | cons t ts =>
    rw [(notifyOne_of_waiting_cons h).1, (notifyOne_of_waiting_cons h).2.2, List.length_append]
    exact Nat.le_refl _

/-- A task that takes the permit uses a token. -/
theorem tokens_notified (h : n.permit = true) : (n.notified t).tokens + 1 = n.tokens := by
  unfold notified tokens
  rw [dif_pos h, h, Bool.toNat_true]
  simp only [Bool.toNat_false]
  omega

theorem notified_of_not_permit (h : ¬n.permit = true) :
    (n.notified t).permit = false ∧ (n.notified t).waiting = n.waiting ++ [t] ∧ (n.notified t).released = n.released := by
  unfold notified
  rw [dif_neg h]
  exact ⟨Bool.eq_false_iff.mpr h, rfl, rfl⟩

/-- A task that waits uses none. -/
theorem tokens_notified_of_not (h : ¬n.permit = true) : (n.notified t).tokens = n.tokens := by
  unfold tokens
  rw [(notified_of_not_permit h).1, (notified_of_not_permit h).2.2, Bool.eq_false_iff.mpr h]

/-- A notification makes the first token, if there is none. -/
theorem tokens_notifyOne_of_zero (h : n.tokens = 0) : n.notifyOne.tokens = 1 :=
  Nat.le_antisymm (Nat.le_trans (tokens_notifyOne_le n) (Nat.succ_le_succ (Nat.le_of_eq h))) (tokens_notifyOne_pos n)

theorem asked_notifyOne : n.notifyOne.Asked t ↔ n.Asked t := by
  unfold Asked
  cases h : n.waiting with
  | nil =>
    obtain ⟨-, hwaiting, hreleased⟩ := notifyOne_of_waiting_nil h
    rw [hwaiting, hreleased]
  | cons t' ts =>
    obtain ⟨-, hwaiting, hreleased⟩ := notifyOne_of_waiting_cons h
    rw [hwaiting, hreleased]
    simp only [List.mem_append, List.mem_cons, List.not_mem_nil, or_false]
    tauto

theorem asked_notified (h : ¬n.permit = true) : (n.notified t).Asked t := by
  refine Or.inl ?_
  rw [(notified_of_not_permit h).2.1]
  exact List.mem_append_right _ List.mem_cons_self

/-- While tasks wait, a token is a release. -/
theorem released_ne_nil (h : 0 < n.tokens) (ht : n.Asked t) : n.released ≠ [] := by
  intro hnil
  unfold tokens at h
  rw [hnil, List.length_nil, Nat.add_zero] at h
  rcases ht with ht | ht
  · cases hp : n.permit with
    | true =>
      rw [n.idle hp] at ht
      cases ht
    | false =>
      rw [hp] at h
      cases h
  · rw [hnil] at ht
    cases ht

section

variable [DecidableEq τ]

/-- Of the releases, one is not used yet. -/
theorem length_erase (h : t ∈ n.released) : (n.released.erase t).length + 1 = n.released.length := by
  rw [List.length_erase_of_mem h]
  exact Nat.sub_add_cancel (List.length_pos_of_mem h)

theorem mem_of_wake (h : n.wake t = some n') : t ∈ n.released := by
  unfold wake at h
  split at h
  · assumption
  · cases h

/-- A task that goes on uses a token. -/
theorem tokens_wake (h : n.wake t = some n') : n'.tokens + 1 = n.tokens := by
  have ht := mem_of_wake h
  rw [wake, if_pos ht] at h
  obtain rfl := Option.some.inj h
  have hlen := length_erase ht
  unfold tokens
  simp only
  omega

/-- When a task gives up, a token that is there stays there. -/
theorem tokens_giveUp_pos (h : 0 < n.tokens) : 0 < (n.giveUp t).tokens := by
  unfold giveUp
  split
  · exact tokens_notifyOne_pos _
  · exact h

theorem tokens_giveUp_le (n : Notify τ) (t : τ) : (n.giveUp t).tokens ≤ n.tokens := by
  unfold giveUp
  split
  · rename_i ht
    refine Nat.le_trans (tokens_notifyOne_le _) ?_
    have hlen := length_erase ht
    unfold tokens
    simp only
    omega
  · exact Nat.le_refl _

end

end Notify
