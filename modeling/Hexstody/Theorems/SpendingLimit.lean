import Mathlib.Algebra.Order.Ring.Nat
import Hexstody.Handlers
import Hexstody.Lemmas.Limit
import Hexstody.Lemmas.World

/-!
# Whether a limit bounds what is withdrawn without operators

A request under the limit is checked against what is spent of the limit, but nothing is ever added to what is spent
(`nothing_spent`), so each request is checked alone. That is enough where it is alone: in every run in which a request is accepted
under the limit only when those before it in the same period were rejected, and none of a period is completed although it was
rejected, the requests of a period stay within the limit (`within_limit`).
-/

namespace Hexstody

namespace Journal

variable {now : NaiveDateTime} {genesisHash : String} {j j' : Journal} {o : Oracle} {up : StateUpdate}

/-- What was accepted under the limit in the period of an account, and not rejected, is at most the limit. -/
def WithinLimits (now : NaiveDateTime) (genesisHash : String) (j : Journal) : Prop :=
  ∀ u c i, j.state.currency? u c = some i →
    j.state.total u c (j.period now genesisHash u c) ≤ i.limitInfo.limit.amount.toNat

/-- When a request is made under the limit, those of the period before it are rejected; and none of a period that is completed
is. -/
def aloneInPeriod (now : NaiveDateTime) (genesisHash : String) (j : Journal) (u : StateUpdate) : Bool :=
  match u.body with
  | .createWithdrawalRequest info => decide (info.requestType = .underLimit →
      ∀ id ∈ j.period now genesisHash info.user info.address.currency,
        ∀ r ∈ j.state.request? info.user info.address.currency id, r.isRejected = true)
  | .withdrawalRequestComplete info => decide (∀ e ∈ j.state.users.entries, ∀ f ∈ e.2.currencies.entries,
      info.id ∈ j.period now genesisHash e.1 f.1 → ∀ r ∈ j.state.request? e.1 f.1 info.id, r.isRejected = false)
  | _ => true

/-- Nothing is spent of any limit. -/
def NothingSpent (j : Journal) : Prop := ∀ u c i, j.state.currency? u c = some i → i.limitInfo.spent = 0

/-- The periods are about the State and the requests of the journal. -/
structure Metered (now : NaiveDateTime) (genesisHash : String) (j : Journal) : Prop where
  state : (periods now genesisHash j.rows).1 = j.state
  created : ∀ u c, ∀ id ∈ j.period now genesisHash u c, id ∈ j.requests.map (·.id)
  nodup : ∀ u c, (j.period now genesisHash u c).Nodup

/-- The request under the limit that an update creates is the request that it creates. -/
theorem underLimitIn_eq_some {u : UserId} {c : Currency} {id : WithdrawalRequestId}
    (h : up.body.underLimitIn u c = some id) : ∃ info, up.body = .createWithdrawalRequest info ∧
      info.requestType = .underLimit ∧ info.user = u ∧ info.address.currency = c ∧ info.id = id := by
  cases hb : up.body with
  | createWithdrawalRequest info =>
    simp only [hb, UpdateBody.underLimitIn] at h
    by_cases hc : info.requestType = .underLimit ∧ info.user = u ∧ info.address.currency = c
    · rw [if_pos hc] at h
      exact ⟨info, rfl, hc.1, hc.2.1, hc.2.2, Option.some.inj h⟩
    · rw [if_neg hc] at h
      cases h
  | _ =>
    rw [hb] at h
    cases h

/-- The periods after an update is stored. -/
theorem Metered.period_store (h : j.Metered now genesisHash) (hst : j.store o up = some j') :
    (periods now genesisHash j'.rows).1 = j'.state ∧
      j'.period now genesisHash = (j.period now genesisHash).after j.state up.body := by
  obtain ⟨res, ha, hrows⟩ := store_eq_some hst
  have hstate := h.state
  unfold period periods at *
  rw [hrows, List.foldl_append, List.foldl_cons, List.foldl_nil, hstate, ha]
  exact ⟨rfl, rfl⟩

/-- A request of the period after an update is one of the period before, or the new one. -/
theorem mem_after {p : Period} {u : UserId} {c : Currency} {id : WithdrawalRequestId}
    (h : id ∈ p.after j.state up.body u c) : id ∈ p u c ∨ up.body.underLimitIn u c = some id := by
  unfold Period.after at h
  cases hi : j.state.currency? u c with
  | none => simp [hi] at h
  | some i =>
    simp only [hi] at h
    split at h
    · cases h
    · rcases List.mem_append.mp h with hm | hm
      · exact Or.inl hm
      · exact Or.inr (Option.mem_toList.mp hm)

/-- A new request is not in the period yet. -/
theorem Metered.new_notMem (h : j.Metered now genesisHash) (hfresh : j.Fresh (o, up)) {u : UserId} {c : Currency}
    {info : WithdrawalRequestInfo} (hb : up.body = .createWithdrawalRequest info) :
    info.id ∉ j.period now genesisHash u c := by
  intro hm
  have hnew := hfresh.2.1 (.ofInfo up.created info) (by simp [StateUpdate.request?, hb])
  exact hnew (h.created u c _ hm)

/-- (step) -/
theorem Metered.store (h : j.Metered now genesisHash) (hfresh : j.Fresh (o, up)) (hst : j.store o up = some j') :
    j'.Metered now genesisHash := by
  obtain ⟨hstate, hperiod⟩ := h.period_store hst
  refine ⟨hstate, ?_, ?_⟩
  · intro u c id hid
    rw [hperiod] at hid
    rcases mem_after hid with hm | hm
    · exact mem_store hst (h.created u c id hm)
    · obtain ⟨info, hb, -, -, -, rfl⟩ := underLimitIn_eq_some hm
      rw [requests_store hst, List.map_append]
      exact List.mem_append_right _ (by simp [StateUpdate.request?, hb, WithdrawalRequest.ofInfo])
  · intro u c
    rw [hperiod]
    unfold Period.after
    cases hi : j.state.currency? u c with
    | none => exact List.nodup_nil
    | some i =>
      simp only
      split
      · exact List.nodup_nil
      · cases hnew : up.body.underLimitIn u c with
        | none => simpa using h.nodup u c
        | some id =>
          obtain ⟨info, hb, -, -, -, rfl⟩ := underLimitIn_eq_some hnew
          have hn := h.new_notMem hfresh (u := u) (c := c) hb
          exact List.Nodup.append (h.nodup u c) (List.nodup_singleton _) (by simpa using hn)

/-- Requests that are rejected, or gone, count for nothing. -/
theorem total_eq_zero {s : State} {u : UserId} {c : Currency} {ids : List WithdrawalRequestId}
    (h : ∀ id ∈ ids, ∀ r ∈ s.request? u c id, r.isRejected = true) : s.total u c ids = 0 := by
  refine List.sum_eq_zero (fun n hn => ?_)
  obtain ⟨id, hid, rfl⟩ := List.mem_map.mp hn
  unfold State.spentOn
  cases hr : s.request? u c id with
  | none => rfl
  | some r =>
    have hrej : r.spent = 0 := by rw [WithdrawalRequest.spent, if_pos (h id hid r hr)]
    rw [Option.map_some, Option.getD_some, hrej]

/-- The State's own check: the amount of a new request under the limit is within the limit, where nothing is spent. -/
theorem NothingSpent.amount_le_limit (h : j.NothingSpent) (hst : j.store o up = some j') {info : WithdrawalRequestInfo}
    (hb : up.body = .createWithdrawalRequest info) (hunder : info.requestType = .underLimit) {i : UserCurrencyInfo}
    (hi : j.state.currency? info.user info.address.currency = some i) :
    info.amount.toNat ≤ i.limitInfo.limit.amount.toNat := by
  obtain ⟨-, -, i₁, hi₁, hle⟩ := applyUpdate_create (store_answer hst) hb
  obtain rfl := Option.some.inj (hi.symm.trans hi₁)
  have hcheck := hle hunder
  rw [h _ _ _ hi, UInt64.zero_add] at hcheck
  exact UInt64.le_iff_toNat_le.mp hcheck

/-- (step) A request that is alone in its period keeps the requests of every period within the limit. -/
theorem WithinLimits.store (h : j.WithinLimits now genesisHash) (hm : j.Metered now genesisHash) (hspent : j.NothingSpent)
    (hfresh : j.Fresh (o, up)) (hst : j.store o up = some j') (halone : j.aloneInPeriod now genesisHash up = true) :
    j'.WithinLimits now genesisHash := by
  intro u c i' hi'
  have ha := store_answer hst
  rw [(hm.period_store hst).2]
  unfold Period.after
  cases hi : j.state.currency? u c with
  | none => exact Nat.zero_le _
  | some i =>
    have hch := applyUpdate_account ha hfresh.1 u c
    rw [hi, hi'] at hch
    simp only
    by_cases hbegins : j.state.beginsPeriod u c i up.body = true
    · rw [if_pos hbegins]
      exact Nat.zero_le _
    rw [if_neg hbegins]
    have hlimit : i'.limitInfo.limit = i.limitInfo.limit := hch.limit.resolve_right hbegins
    rw [hlimit]
    -- those of the period are not new, and none of them is completed after it was rejected
    have hold : j'.state.total u c (j.period now genesisHash u c) ≤ j.state.total u c (j.period now genesisHash u c) := by
      refine List.sum_le_sum (fun id hid => spentOn_le ha hfresh.1 (fun info hb heq => ?_) (fun info hb heq r hr => ?_))
      · exact hm.new_notMem hfresh (u := u) (c := c) hb (heq ▸ hid)
      · subst heq
        obtain ⟨ui, hui, hc⟩ := Option.bind_eq_some_iff.mp hi
        simp only [aloneInPeriod, hb] at halone
        exact of_decide_eq_true halone ⟨u, ui⟩ ((AssocMap.mem_entries_iff _ _ _).mpr hui) ⟨c, i⟩
          ((AssocMap.mem_entries_iff _ _ _).mpr hc) hid r hr
    cases hnew : up.body.underLimitIn u c with
    | none =>
      rw [Option.toList_none, List.append_nil]
      exact hold.trans (h u c i hi)
    | some id =>
      -- a new request under the limit, which the State checked
      obtain ⟨info, hb, hunder, rfl, rfl, rfl⟩ := underLimitIn_eq_some hnew
      simp only [aloneInPeriod, hb] at halone
      rw [total_eq_zero (of_decide_eq_true halone hunder)] at hold
      have hone := spentOn_created ha hb
      have hle := hspent.amount_le_limit hst hb hunder hi
      rw [State.total, Option.toList_some, List.map_append, List.sum_append, List.map_singleton, List.sum_singleton]
      unfold State.total at hold
      omega

end Journal

namespace World

variable {ι : Type} {C : Client ι} {k : Clock} {w : World} {now : NaiveDateTime} {genesisHash : String}

/-- Nothing is ever recorded as spent of a limit. -/
theorem nothing_spent {P : World → Action ι → Prop} (h : (machine C k).Reachable P w) : w.journal.NothingSpent := by
  refine h.invariant (I := fun w => w.journal.NothingSpent) ?_ ?_
  · rintro _ ⟨now, genesisHash, rfl⟩ u c i hi
    cases hi
  · intro w a w' hw hspent _ hs
    cases step_eq_some hs with
    | applied o up us j hu hj =>
      intro u c i' hi'
      have hch := applyUpdate_account (Journal.store_answer hj) ((issued_of_reachable hw).fresh (o := o) hu).1 u c
      rw [show j.state.currency? u c = some i' from hi'] at hch
      cases hb : w.journal.state.currency? u c with
      | none =>
        rw [hb] at hch
        cases hch with
        | opened => rfl
      | some i =>
        rw [hb] at hch
        rcases hch.spent with he | he
        · rw [he]
          exact hspent u c i hb
        · exact he
    | _ => exact hspent

/-- The requests of every period stay within the limit in every run of the hot wallet, over any handlers, in which one is accepted
under it only when those before it in the period are rejected, and none of a period is completed after it was rejected. -/
theorem within_limit (h : ((machine C k).startedAt (World.new now genesisHash)).Reachable
    (OnAccepted (fun j u => j.aloneInPeriod now genesisHash u = true)) w) : w.journal.WithinLimits now genesisHash := by
  have hboth : w.journal.Metered now genesisHash ∧ w.journal.WithinLimits now genesisHash := by
    refine h.invariant
      (I := fun w => w.journal.Metered now genesisHash ∧ w.journal.WithinLimits now genesisHash) ?_ ?_
    · rintro _ rfl
      exact ⟨⟨rfl, (fun u c id hid => by cases hid), fun u c => List.nodup_nil⟩, fun u c i hi => by cases hi⟩
    · intro w a w' hw hr hP hs
      cases step_eq_some hs with
      | applied o u us j hu hj =>
        have hfresh := (issued_of_reachable (reachable_of_new hw)).fresh (o := o) hu
        have hspent := nothing_spent (reachable_of_new hw)
        exact ⟨hr.1.store hfresh hj, hr.2.store hr.1 hspent hfresh hj (hP.of_store hu hj)⟩
      | _ => exact hr
  exact hboth.2

/-- Alice withdraws under her limit, and again on another day. -/
theorem within_limit_two : ∃ w : World,
    w.journal.state.total Sample.alice .btc [Sample.uuid 7] = 60000 ∧
      w.journal.state.total Sample.alice .btc (w.journal.period ⟨0⟩ "genesis" Sample.alice .btc) = 70000 ∧
        w.journal.WithinLimits ⟨0⟩ "genesis" := by
  obtain ⟨w, hw, hq⟩ := Machine.exists_reachable
    (M := (machine (hotWallet Sample.ctx) Sample.clock).startedAt (World.new ⟨0⟩ "genesis"))
    (P := OnAccepted (fun j u => j.aloneInPeriod ⟨0⟩ "genesis" u = true))
    (Sample.opening 1000000 ++ Sample.limited 100000 ++ Sample.done 8 (Sample.withdraw 7 60000) ++
      Sample.done 9 (.other (.clearLimits .day)) ++ Sample.done 10 (Sample.withdraw 8 70000))
    (q := fun w => w.journal.state.total Sample.alice .btc [Sample.uuid 7] == 60000 &&
      w.journal.state.total Sample.alice .btc (w.journal.period ⟨0⟩ "genesis" Sample.alice .btc) == 70000)
    rfl (by decide +kernel)
  simp only [Bool.and_eq_true, beq_iff_eq] at hq
  exact ⟨w, hq.1, hq.2, within_limit hw⟩

/-- Two withdrawals of alice's, each under her limit, exceed it together. -/
theorem limit_exceeded : ¬∀ (Γ : Ctx) (k : Clock) (now : NaiveDateTime) (genesisHash : String) (w : World),
    ((machine (hotWallet Γ) k).startedAt (World.new now genesisHash)).Reachable Machine.anyStep w →
      w.journal.WithinLimits now genesisHash := by
  intro h
  obtain ⟨w, hw, hq⟩ := Machine.exists_reachable
    (M := (machine (hotWallet Sample.ctx) Sample.clock).startedAt (World.new ⟨0⟩ "genesis")) (P := Machine.anyStep)
    (Sample.opening 1000000 ++ Sample.limited 100000 ++ Sample.done 8 (Sample.withdraw 7 60000) ++
      Sample.done 9 (Sample.withdraw 8 60000))
    (q := fun w => (w.journal.state.currency? Sample.alice .btc).any (fun (i : UserCurrencyInfo) =>
      decide (i.limitInfo.limit.amount.toNat <
        w.journal.state.total Sample.alice .btc (w.journal.period ⟨0⟩ "genesis" Sample.alice .btc))))
    rfl (by decide +kernel)
  obtain ⟨i, hi, hlt⟩ := (Option.any_eq_true _ _).mp hq
  have hle := h Sample.ctx Sample.clock ⟨0⟩ "genesis" w hw Sample.alice .btc i hi
  have hgt := of_decide_eq_true hlt
  omega

end World

end Hexstody
