import Hexstody.Announcing
import Mathlib.Tactic.ByContra

/-!
# That events and transactions are noticed

Notifications of one `Notify` may coincide, and those who wait may give up. Still no events are left lying while a handler waits for
them, as long as no handler is dropped when it is about to take them (`events_announced`); and the balance is looked at after every round
that has found something, once for several rounds maybe, but never more often (`finds_checked`).
-/

namespace Hexstody

namespace Announcing

variable {coldAmount : UInt64} {coldAddress : Address} {m m' : Announcing} {act : AnnouncingAction}

/-! ## The handlers -/

/-- The step drops no handler that waits for the mutex. -/
def KeepsReady (m : Announcing) : AnnouncingAction → Prop
  | .drop h => h ∉ m.ready
  | _ => True

instance (m : Announcing) (act : AnnouncingAction) : Decidable (m.KeepsReady act) :=
  match act with
  | .drop h => inferInstanceAs (Decidable (h ∉ m.ready))
  | .scan _ _ | .announce | .announceTx | .poll _ | .wake _ | .timeOut _ | .take _ | .coldAsk | .coldWake | .coldCheck _ => isTrue trivial

/-- Events that are kept are going to be announced, or were announced to somebody who has not taken them. -/
def Announced (m : Announcing) : Prop :=
  m.scan.events ≠ [] → m.node = .announcing ∨ 0 < m.stateNotify.tokens ∨ m.ready ≠ []

theorem Announced.ready {l : List Nat} {h : Nat} (hm : m.ready = l ++ [h]) : m.Announced := by
  intro _
  refine Or.inr (Or.inr ?_)
  rw [hm]
  exact List.append_ne_nil_of_right_ne_nil l (List.cons_ne_nil h [])

/-- (step) -/
theorem Announced.step (ha : m.Announced) (hk : m.KeepsReady act) (hs : m.step coldAmount coldAddress act = some m') : m'.Announced := by
  cases act with
  | scan answer count =>
    obtain ⟨hnode, hs⟩ := Option.ite_none_right_eq_some.mp hs
    by_cases hf : m.scan.finds answer = true
    · rw [if_pos hf] at hs
      obtain rfl := Option.some.inj hs
      exact fun _ => Or.inl rfl
    · rw [if_neg hf, ScanState.nodeWorker_of_not_finds count (Bool.not_eq_true _ ▸ hf)] at hs
      obtain rfl := Option.some.inj hs
      exact ha
  | announce =>
    obtain ⟨-, hs⟩ := Option.ite_none_right_eq_some.mp hs
    obtain rfl := Option.some.inj hs
    exact fun _ => Or.inr (Or.inl (Notify.tokens_notifyOne_pos _))
  | announceTx =>
    obtain ⟨hnode, hs⟩ := Option.ite_none_right_eq_some.mp hs
    obtain rfl := Option.some.inj hs
    intro hev
    refine Or.inr ((ha hev).resolve_left ?_)
    rw [hnode]
    decide
  | poll h =>
    obtain ⟨-, hs⟩ := Option.ite_none_left_eq_some.mp hs
    by_cases hp : m.stateNotify.permit = true
    · rw [if_pos hp] at hs
      obtain rfl := Option.some.inj hs
      exact Announced.ready rfl
    · rw [if_neg hp] at hs
      obtain rfl := Option.some.inj hs
      intro hev
      change m.node = .announcing ∨ 0 < (m.stateNotify.notified h).tokens ∨ m.ready ≠ []
      rw [Notify.tokens_notified_of_not hp]
      exact ha hev
  | wake h =>
    obtain ⟨n, -, rfl⟩ := Option.map_eq_some_iff.mp hs
    exact Announced.ready rfl
  | timeOut h =>
    obtain ⟨-, hs⟩ := Option.ite_none_right_eq_some.mp hs
    obtain rfl := Option.some.inj hs
    exact Announced.ready rfl
  | take h =>
    obtain ⟨-, hs⟩ := Option.ite_none_right_eq_some.mp hs
    obtain rfl := Option.some.inj hs
    exact fun hev => absurd rfl hev
  | drop h =>
    have hready : h ∉ m.ready := hk
    simp only [Announcing.step, if_neg hready] at hs
    obtain ⟨-, hs⟩ := Option.ite_none_right_eq_some.mp hs
    obtain rfl := Option.some.inj hs
    exact fun hev => (ha hev).imp_right (Or.imp_left Notify.tokens_giveUp_pos)
  | coldAsk =>
    obtain ⟨-, hs⟩ := Option.ite_none_right_eq_some.mp hs
    by_cases hp : m.txNotify.permit = true
    · rw [if_pos hp] at hs
      obtain rfl := Option.some.inj hs
      exact ha
    · rw [if_neg hp] at hs
      obtain rfl := Option.some.inj hs
      exact ha
  | coldWake =>
    obtain ⟨-, hs⟩ := Option.ite_none_right_eq_some.mp hs
    obtain ⟨n, -, rfl⟩ := Option.map_eq_some_iff.mp hs
    exact ha
  | coldCheck answer =>
    obtain ⟨-, hs⟩ := Option.ite_none_right_eq_some.mp hs
    obtain rfl := Option.some.inj hs
    exact ha

/-- (run) Whenever there are events, a notification is about to come, or a handler is about to take them, or the next that comes does
not wait, and then none waits. -/
theorem events_announced (coldAmount : UInt64) (coldAddress : Address) (m : Announcing)
    (h : (machine coldAmount coldAddress).Reachable KeepsReady m) (hev : m.scan.events ≠ []) :
    m.node = .announcing ∨ m.stateNotify.released ++ m.ready ≠ [] ∨
      (m.stateNotify.waiting = [] ∧ ∀ h, ∃ m', m.step coldAmount coldAddress (.poll h) = some m' ∧ h ∈ m'.ready) := by
  have ha : m.Announced := by
    refine h.invariant ?_ (fun s act s' _ ha hk hs => ha.step hk hs)
    rintro s ⟨genesis, rfl⟩
    exact fun hne => absurd rfl hne
  by_cases hway : m.stateNotify.released ++ m.ready = []
  · obtain ⟨hreleased, hready⟩ := List.append_eq_nil_iff.mp hway
    rcases ha hev with hnode | htokens | hne
    · exact Or.inl hnode
    · have hp : m.stateNotify.permit = true := by
        cases hp : m.stateNotify.permit with
        | true => rfl
        | false =>
          rw [Notify.tokens, hp, hreleased] at htokens
          cases htokens
      have hwaiting := m.stateNotify.idle hp
      refine Or.inr (Or.inr ⟨hwaiting, fun h => ?_⟩)
      refine ⟨{ m with stateNotify := m.stateNotify.notified h, ready := m.ready ++ [h], woken := m.woken + 1 }, ?_, ?_⟩
      · rw [Announcing.step, if_neg (by rw [hwaiting, hreleased, hready]; exact List.not_mem_nil), if_pos hp]
      · exact List.mem_append_right _ List.mem_cons_self
    · exact absurd hready hne
  · exact Or.inr (Or.inl hway)

/-! ## The balance -/

/-- Each round that has found something makes one notification of each kind, at most one token, and at most one go on. -/
structure Counted (m : Announcing) : Prop where
  woken : m.woken + m.stateNotify.tokens + m.node.owed ≤ m.finds
  checks : m.checks + m.txNotify.tokens + m.node.owedTx ≤ m.finds
  answers : m.balances.length + (if m.cold = .checking then 1 else 0) ≤ m.checks
  asked : m.cold = .waiting → m.txNotify.Asked ()
  seen : m.seen ≤ m.finds
  unseen : m.seen < m.finds → 0 < m.txNotify.tokens + m.node.owedTx

theorem counted_new (genesis : BlockHash) : (new genesis).Counted where
  woken := Nat.le_refl _
  checks := Nat.le_refl _
  answers := Nat.le_refl _
  asked h := by cases h
  seen := Nat.le_refl _
  unseen h := by cases h

namespace Counted

/-- `cold_wallet_worker` goes on, with a token less. -/
theorem startCheck (h : m.Counted) {n : Notify Unit} (hn : n.tokens + 1 = m.txNotify.tokens) (hcold : m.cold ≠ .checking) :
    (({ m with txNotify := n } : Announcing).startCheck).Counted where
  woken := h.woken
  checks := by
    have hc := h.checks
    simp only [Announcing.startCheck]
    omega
  answers := by
    have ha := h.answers
    rw [if_neg hcold] at ha
    simp only [Announcing.startCheck, if_true]
    omega
  asked hw := by cases hw
  seen := Nat.le_refl _
  unseen hlt := absurd hlt (Nat.lt_irrefl _)

/-- The handlers move, and use at most the tokens they have. -/
theorem handlers (h : m.Counted) {scan : ScanState} {n : Notify Nat} {ready : List Nat} {woken : Nat}
    (hn : woken + n.tokens ≤ m.woken + m.stateNotify.tokens) :
    Counted { m with scan := scan, stateNotify := n, ready := ready, woken := woken } :=
  { h with
    woken := by
      have hw := h.woken
      simp only
      omega }

/-- (step) -/
theorem step (h : m.Counted) (hs : m.step coldAmount coldAddress act = some m') : m'.Counted := by
  cases act with
  | scan answer count =>
    obtain ⟨hnode, hs⟩ := Option.ite_none_right_eq_some.mp hs
    by_cases hf : m.scan.finds answer = true
    · rw [if_pos hf] at hs
      obtain rfl := Option.some.inj hs
      have hw := h.woken
      have hc := h.checks
      rw [hnode] at hw hc
      exact ⟨Nat.succ_le_succ hw, Nat.succ_le_succ hc, h.answers, h.asked, Nat.le_succ_of_le h.seen, fun _ => Nat.succ_pos _⟩
    · rw [if_neg hf] at hs
      obtain rfl := Option.some.inj hs
      exact h.handlers (Nat.le_refl _)
  | announce =>
    obtain ⟨hnode, hs⟩ := Option.ite_none_right_eq_some.mp hs
    obtain rfl := Option.some.inj hs
    have hw := h.woken
    have hc := h.checks
    have hu := h.unseen
    have htokens := Notify.tokens_notifyOne_le m.stateNotify
    rw [hnode] at hw hc hu
    simp only [NodeTask.owed, NodeTask.owedTx] at hw hc hu
    refine ⟨?_, hc, h.answers, h.asked, h.seen, hu⟩
    simp only [NodeTask.owed]
    omega
  | announceTx =>
    obtain ⟨hnode, hs⟩ := Option.ite_none_right_eq_some.mp hs
    obtain rfl := Option.some.inj hs
    have hw := h.woken
    have hc := h.checks
    have htokens := Notify.tokens_notifyOne_le m.txNotify
    rw [hnode] at hw hc
    simp only [NodeTask.owed, NodeTask.owedTx] at hw hc
    refine ⟨hw, ?_, h.answers, fun hwait => Notify.asked_notifyOne.mpr (h.asked hwait), h.seen, fun _ => ?_⟩
    · simp only [NodeTask.owedTx]
      omega
    · exact Nat.add_pos_left (Notify.tokens_notifyOne_pos _) _
  | poll h' =>
    obtain ⟨-, hs⟩ := Option.ite_none_left_eq_some.mp hs
    by_cases hp : m.stateNotify.permit = true
    · rw [if_pos hp] at hs
      obtain rfl := Option.some.inj hs
      refine h.handlers ?_
      have htokens := Notify.tokens_notified (t := h') hp
      omega
    · rw [if_neg hp] at hs
      obtain rfl := Option.some.inj hs
      exact h.handlers (Nat.le_of_eq (by rw [Notify.tokens_notified_of_not hp]))
  | wake h' =>
    obtain ⟨n, hn, rfl⟩ := Option.map_eq_some_iff.mp hs
    refine h.handlers ?_
    have htokens := Notify.tokens_wake hn
    omega
  | timeOut h' =>
    obtain ⟨-, hs⟩ := Option.ite_none_right_eq_some.mp hs
    obtain rfl := Option.some.inj hs
    exact h.handlers (Nat.add_le_add_left (Notify.tokens_giveUp_le _ _) _)
  | take h' =>
    obtain ⟨-, hs⟩ := Option.ite_none_right_eq_some.mp hs
    obtain rfl := Option.some.inj hs
    exact h.handlers (Nat.le_refl _)
  | drop h' =>
    by_cases hready : h' ∈ m.ready
    · simp only [Announcing.step, if_pos hready] at hs
      obtain rfl := Option.some.inj hs
      exact h.handlers (Nat.le_refl _)
    · simp only [Announcing.step, if_neg hready] at hs
      obtain ⟨-, hs⟩ := Option.ite_none_right_eq_some.mp hs
      obtain rfl := Option.some.inj hs
      exact h.handlers (Nat.add_le_add_left (Notify.tokens_giveUp_le _ _) _)
  | coldAsk =>
    obtain ⟨hcold, hs⟩ := Option.ite_none_right_eq_some.mp hs
    by_cases hp : m.txNotify.permit = true
    · rw [if_pos hp] at hs
      obtain rfl := Option.some.inj hs
      exact h.startCheck (Notify.tokens_notified hp) (by rw [hcold]; decide)
    · rw [if_neg hp] at hs
      obtain rfl := Option.some.inj hs
      have ha := h.answers
      rw [hcold] at ha
      have htokens : (m.txNotify.notified ()).tokens = m.txNotify.tokens := Notify.tokens_notified_of_not hp
      refine ⟨h.woken, ?_, ha, fun _ => Notify.asked_notified hp, h.seen, ?_⟩
      · change m.checks + (m.txNotify.notified ()).tokens + _ ≤ _
        rw [htokens]
        exact h.checks
      · change _ → 0 < (m.txNotify.notified ()).tokens + _
        rw [htokens]
        exact h.unseen
  | coldWake =>
    obtain ⟨hcold, hs⟩ := Option.ite_none_right_eq_some.mp hs
    obtain ⟨n, hn, rfl⟩ := Option.map_eq_some_iff.mp hs
    exact h.startCheck (Notify.tokens_wake hn) (by rw [hcold]; decide)
  | coldCheck answer =>
    obtain ⟨hcold, hs⟩ := Option.ite_none_right_eq_some.mp hs
    obtain rfl := Option.some.inj hs
    have ha := h.answers
    rw [if_pos hcold] at ha
    refine ⟨h.woken, h.checks, ?_, ?_, h.seen, h.unseen⟩
    · simp only [List.length_append, List.length_singleton]
      split <;> split <;> simp_all
    · simp only
      split <;> exact fun hw => by cases hw

end Counted

theorem length_coldWalletWorker_le (answers : List (Except String UInt64)) :
    (ColdWallet.coldWalletWorker coldAmount coldAddress answers).length ≤ answers.length := by
  induction answers with
  | nil => exact Nat.le_refl _
  | cons answer answers ih =>
    rw [ColdWallet.coldWalletWorker]
    cases ColdWallet.onNotified coldAmount coldAddress answer with
    | panicked => exact Nat.succ_le_succ (Nat.zero_le _)
    | kept => exact Nat.succ_le_succ ih
    | sent dump => exact Nat.succ_le_succ ih

/-- (run) The handlers that are woken, and the calls that send to the cold wallet, are never more than the rounds that have found
something; and when `cold_wallet_worker` waits for the next one, it has gone on after the last. -/
theorem finds_checked (coldAmount : UInt64) (coldAddress : Address) (m : Announcing)
    (h : (machine coldAmount coldAddress).Reachable Machine.anyStep m) :
    m.woken ≤ m.finds ∧ (m.dumps coldAmount coldAddress).length ≤ m.finds ∧
      (m.node = .sleeping → m.cold = .waiting → m.step coldAmount coldAddress .coldWake = none → m.seen = m.finds) := by
  have hc : m.Counted := by
    refine h.invariant ?_ (fun s act s' _ hc _ hs => hc.step hs)
    rintro s ⟨genesis, rfl⟩
    exact counted_new genesis
  have hwoken := hc.woken
  have hchecks := hc.checks
  have hanswers := hc.answers
  refine ⟨by omega, ?_, fun hnode hcold hwake => ?_⟩
  · have hlen : (ColdWallet.coldWalletWorker coldAmount coldAddress m.balances).length ≤ m.balances.length :=
      length_coldWalletWorker_le m.balances
    refine Nat.le_trans (List.length_filter_le _ _) ?_
    omega
  · by_contra hne
    have hpos := hc.unseen (Nat.lt_of_le_of_ne hc.seen hne)
    rw [hnode] at hpos
    obtain ⟨t, ts, hcons⟩ := List.exists_cons_of_ne_nil (Notify.released_ne_nil hpos (hc.asked hcold))
    simp [Announcing.step, hcold, Notify.wake, hcons] at hwake

end Announcing

namespace Sample

/-- A round finds a payment while a handler waits, which is dropped when it is notified, before it goes on. -/
def noticing : List AnnouncingAction :=
  [.coldAsk, .poll 1, .scan (.ok { transactions := [listed "in" 1 []], removed := [], lastblock := ⟨"b1"⟩ }) (.ok 1), .announce,
    .announceTx, .drop 1, .coldWake, .coldCheck (.ok 150)]

end Sample

namespace Announcing

open Sample in
/-- The handler has left its notification, so the next one does not wait. -/
theorem events_announced_next : ∃ m : Announcing, m.scan.events ≠ [] ∧ m.stateNotify.permit = true ∧
    (m.node = .announcing ∨ m.stateNotify.released ++ m.ready ≠ [] ∨
      (m.stateNotify.waiting = [] ∧ ∀ h, ∃ m', m.step 100 ⟨"cold"⟩ (.poll h) = some m' ∧ h ∈ m'.ready)) := by
  obtain ⟨m, hm, hq⟩ := Machine.exists_reachable (M := machine 100 ⟨"cold"⟩) (P := KeepsReady) noticing
    (q := fun m => !m.scan.events.isEmpty && m.stateNotify.permit) ⟨⟨"b0"⟩, rfl⟩ (by decide)
  obtain ⟨hev, hp⟩ := Bool.and_eq_true_iff.mp hq
  have hne : m.scan.events ≠ [] := by simpa using hev
  exact ⟨m, hne, hp, events_announced 100 ⟨"cold"⟩ m hm hne⟩

open Sample in
theorem finds_checked_once : ∃ m : Announcing,
    m.finds = 1 ∧ (m.dumps 100 ⟨"cold"⟩).length = 1 ∧ (m.dumps 100 ⟨"cold"⟩).length ≤ m.finds := by
  obtain ⟨m, hm, hq⟩ := Machine.exists_reachable (M := machine 100 ⟨"cold"⟩) (P := Machine.anyStep) noticing
    (q := fun m => decide (m.finds = 1 ∧ (m.dumps 100 ⟨"cold"⟩).length = 1)) ⟨⟨"b0"⟩, rfl⟩ (by decide)
  obtain ⟨hfinds, hdumps⟩ := of_decide_eq_true hq
  exact ⟨m, hfinds, hdumps, (finds_checked 100 ⟨"cold"⟩ m hm).2.1⟩

end Announcing

end Hexstody
