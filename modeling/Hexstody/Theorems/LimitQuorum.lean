import Hexstody.History
import Hexstody.Theorems.LimitDecisions

/-!
# Limits change by quorum

A limit of an account changes only by a confirmation that puts the confirming keys of the pending change two ahead of the rejecting
ones, no key counted twice on a side; a rejection that puts the other side two ahead closes the change, and no other update touches a
limit. This holds in every State that is reached (`State.QuorumLaws`). The counters of a pending change are 16-bit integers, so they
are the lengths of its lists just as long as each list is shorter than 2^15 (`limits_by_quorum_iff`); that the counters wrap does not
matter to the decision, which looks at their difference only.
-/

namespace Hexstody

namespace State

/-- The update is a vote on the pending change of an account's limit, and makes another of it. -/
structure IsVote (s : State) (up : StateUpdate) (u : UserId) (c : Currency) (lcd : LimitChangeDecision)
    (l l' : LimitChangeData) : Prop where
  body : up.body = .limitChangeDecision lcd
  user : lcd.user = u
  currency : lcd.currency = c
  pending : s.limitChange? u c = some l
  votes : l.applyDecision lcd = .ok l'

/-- What holds of every accepted update. -/
structure QuorumLaws (s : State) : Prop where
  /-- A limit is changed by a confirmation, after which the confirming keys are two ahead. -/
  changed : ∀ {o up s' res u c i i'}, s.applyUpdate o up = (s', .ok res) → ¬up.body.IsSnapshot → s.currency? u c = some i →
    s'.currency? u c = some i' → i'.limitInfo.limit ≠ i.limitInfo.limit →
      ∃ lcd l l', s.IsVote up u c lcd l l' ∧ lcd.decisionType = .confirm ∧ l'.Distinct ∧
        l'.rejectKeys.length + 2 ≤ l'.confirmKeys.length
  /-- A change whose rejecting keys are two ahead is closed, and no account is touched. -/
  rejected : ∀ {o up s' res u c lcd l l'}, s.applyUpdate o up = (s', .ok res) → s.IsVote up u c lcd l l' →
    l'.confirmKeys.length + 2 ≤ l'.rejectKeys.length →
      s'.limitChange? u c = none ∧ ∀ u' c', s'.currency? u' c' = s.currency? u' c'
  /-- A snapshot brings its own entries. -/
  restored : ∀ {o up s' res s₀}, s.applyUpdate o up = (s', .ok res) → up.body = .snapshot s₀ →
    ∀ u c, s'.currency? u c = s₀.currency? u c
  /-- No key votes twice on a side. -/
  distinct : ∀ {u c l}, s.limitChange? u c = some l → l.Distinct

/-- The counters of a change in progress are the lengths of its lists. -/
def VotesCounted (s : State) : Prop :=
  ∀ u c l, s.limitChange? u c = some l → ∃ m n, l.status = .inProgress m n ∧ m.toInt = l.confirmations.length ∧
    n.toInt = l.rejections.length

/-- The lists of every pending change are short enough for 16-bit counters. -/
def VotesFew (s : State) : Prop :=
  ∀ u c l, s.limitChange? u c = some l → l.confirmations.length < 2 ^ 15 ∧ l.rejections.length < 2 ^ 15

variable {s s' : State} {o : Oracle} {up : StateUpdate} {res : Option UpdateResult}

/-- (run) -/
theorem Reached.limitsOpen {P : State → UpdateBody → Prop} (h : s.Reached P) : s.LimitsOpen := by
  refine h.invariant (I := LimitsOpen) ?_ ?_ ?_
  · intro now genesisHash u c l hl
    cases hl
  · exact fun s created hl => hl
  · intro s o up s' res _ hl _ hs happly
    refine hl.applyUpdate happly ?_
    intro s₀ hb
    exact absurd (by rw [hb]; trivial) hs

/-- A vote after which the change is rejected closes it, and leaves the accounts as they are. -/
theorem IsVote.closed {u : UserId} {c : Currency} {lcd : LimitChangeDecision} {l l' : LimitChangeData}
    (hv : s.IsVote up u c lcd l l') (h : s.applyUpdate o up = (s', .ok res)) (hst : l'.status = .rejected) :
    s'.limitChange? u c = none ∧ ∀ u' c', s'.currency? u' c' = s.currency? u' c' := by
  obtain ⟨hb, rfl, rfl, hl, hd⟩ := hv
  unfold State.applyUpdate at h
  rw [hb] at h
  obtain ⟨s₁, a, hout, rfl, -⟩ := stamped_eq_ok h
  obtain ⟨ui, hui, hreq⟩ := Option.bind_eq_some_iff.mp hl
  unfold withLimitChangeDecision at hout
  simp only [hui, hreq, hd, hst, Prod.mk.injEq, and_true] at hout
  rw [← hout]
  refine ⟨?_, fun u' c' => currency?_modifyUser_same s u' lcd.user c' _ (fun _ => rfl)⟩
  have hclosed := limitChange?_modifyUser_closed (u := lcd.user) (c := lcd.currency) s lcd.user lcd.currency
    (fun u => { u with limitChangeRequests := u.limitChangeRequests.erase lcd.currency }) (fun _ => rfl)
  rw [if_pos ⟨rfl, rfl⟩] at hclosed
  exact hclosed

/-- The laws hold wherever every pending change is open. -/
theorem LimitsOpen.quorumLaws (hopen : s.LimitsOpen) : s.QuorumLaws := by
  constructor
  · intro o up s' res u c i i' h hs hi hi' hne
    have hch := applyUpdate_account h hs u c
    rw [hi, hi'] at hch
    obtain ⟨lcd, hb, rfl, rfl, hcompletes⟩ := (Journal.limit_of_change hch).resolve_left hne
    obtain ⟨l, l', hl, hd, -⟩ := limitDecision_of_applyUpdate h hb
    obtain ⟨ho, hdistinct⟩ := hopen _ _ l hl
    have hlast := hcompletes
    rw [completesLimit_eq ho hl hd] at hlast
    refine ⟨lcd, l, l', ⟨hb, rfl, rfl, hl, hd⟩, ?_⟩
    rcases ho.applyDecision_cases hd with ⟨-, -, htype, hlen⟩ | ⟨-, hnot, -⟩ | ⟨-, hnot⟩
    · exact ⟨htype, hdistinct.applyDecision hd, hlen.ge⟩
    · rw [hnot] at hlast
      cases hlast
    · rw [hnot] at hlast
      cases hlast
  · intro o up s' res u c lcd l l' h hv hahead
    obtain ⟨ho, -⟩ := hopen u c l hv.pending
    rcases ho.applyDecision_cases hv.votes with ⟨-, -, -, hlen⟩ | ⟨hst, -⟩ | ⟨hopen', -⟩
    · omega
    · exact hv.closed h hst
    · have hle := hopen'.behind
      omega
  · intro o up s' res s₀ h hb
    unfold State.applyUpdate at h
    rw [hb] at h
    obtain ⟨s₁, a, hout, rfl, -⟩ := stamped_eq_ok h
    obtain rfl := (Prod.mk.inj hout).1
    exact fun u c => rfl
  · exact fun hl => (hopen _ _ _ hl).2

/-- A 16-bit counter shows a number just when it is less than 2^15. -/
theorem toInt_ofNat_iff (n : Nat) : (Int16.ofNat n).toInt = n ↔ n < 2 ^ 15 := by
  constructor
  · intro h
    have hlt := Int16.toInt_lt (Int16.ofNat n)
    omega
  · exact fun h => Int16.toInt_ofNat_of_lt h

theorem LimitsOpen.votesCounted_iff (hopen : s.LimitsOpen) : s.VotesCounted ↔ s.VotesFew := by
  refine forall_congr' fun u => forall_congr' fun c => forall_congr' fun l => ?_
  refine imp_congr_right (fun hl => ?_)
  have hst := (hopen u c l hl).1.status
  have hc : l.confirmKeys.length = l.confirmations.length := List.length_map _
  have hr : l.rejectKeys.length = l.rejections.length := List.length_map _
  rw [hc, hr] at hst
  constructor
  · rintro ⟨m, n, hst', hm, hn⟩
    obtain ⟨rfl, rfl⟩ := LimitChangeStatus.inProgress.inj (hst.symm.trans hst')
    exact ⟨(toInt_ofNat_iff _).mp hm, (toInt_ofNat_iff _).mp hn⟩
  · rintro ⟨hm, hn⟩
    exact ⟨_, _, hst, (toInt_ofNat_iff _).mpr hm, (toInt_ofNat_iff _).mpr hn⟩

/-- In every State that is reached, a limit changes only by a quorum of distinct keys, and a change that a quorum rejects is closed
without a limit being changed; and besides, the counters of every pending change are the lengths of its lists, just when all these
lists are shorter than 2^15. -/
theorem limits_by_quorum_iff (s : State) (h : s.Reached anyUpdate) :
    s.QuorumLaws ∧ (s.QuorumLaws ∧ s.VotesCounted ↔ s.VotesFew) := by
  have hlaws := h.limitsOpen.quorumLaws
  exact ⟨hlaws, (and_iff_right hlaws).trans h.limitsOpen.votesCounted_iff⟩

end State

namespace Sample

/-- The keys of many operators. -/
def voter (n : Nat) : PublicKey := ⟨List.replicate n 0⟩

/-- A vote of one of them on alice's limit. -/
def numberedVote (d : LimitChangeDecisionType) (n : Nat) : LimitChangeDecision where
  id := uuid 2
  user := alice
  currency := .btc
  createdAt := ""
  requestedLimit := { amount := 1000, span := .day }
  url := "url"
  signature := ⟨[]⟩
  nonce := 0
  publicKey := voter n
  decisionType := d

/-- The first operators, in order. -/
def voters (n : Nat) : List PublicKey := (List.range n).map voter

theorem voter_not_mem (n : Nat) : voter n ∉ voters n := by
  intro hm
  obtain ⟨k, hk, heq⟩ := List.mem_map.mp hm
  have hlen : k = n := by
    simpa [voter] using congrArg (fun key : PublicKey => key.bytes.length) heq
  exact absurd (List.mem_range.mp hk) (by omega)

theorem voters_succ (n : Nat) : voters (n + 1) = voters n ++ [voter n] := by
  rw [voters, List.range_succ, List.map_append]
  rfl

theorem length_voters (n : Nat) : (voters n).length = n := by
  rw [voters, List.length_map, List.length_range]

end Sample

namespace State

variable {s : State} {l : LimitChangeData}

/-- A vote that its key has not given leads to a State that is reached, and to a pending change with that vote unless it decides. -/
theorem Reached.vote (h : s.Reached anyUpdate) (lcd : LimitChangeDecision)
    (hl : s.limitChange? lcd.user lcd.currency = some l) (hnew : ¬l.HasVote lcd) :
    ∃ (s' : State) (l' : LimitChangeData), s'.Reached anyUpdate ∧ l.applyDecision lcd = .ok l' ∧
      s'.limitChange? lcd.user lcd.currency = if l'.isDecided then none else some l' := by
  have hb : ({ created := ⟨0⟩, body := .limitChangeDecision lcd } : StateUpdate).body = .limitChangeDecision lcd := rfl
  obtain ⟨s', happly⟩ := exists_applyUpdate_limitDecision (o := Sample.oracle) (h.limitsOpen _ _ l hl).1 hl hnew hb
  obtain ⟨us, hmade⟩ := h
  have hr : s'.Reached anyUpdate := ⟨_, hmade.update trivial id (by rw [applyUpdateAt_number]; exact happly)⟩
  obtain ⟨l₀, l', hl₀, hd, hafter⟩ := limitDecision_of_applyUpdate happly hb
  obtain rfl := Option.some.inj (hl.symm.trans hl₀)
  exact ⟨_, l', hr, hd, hafter⟩

/-- The votes on alice's limit are those of the first operators, on either side. -/
def VotedBy (s : State) (m n : Nat) : Prop :=
  ∃ l, s.limitChange? Sample.alice .btc = some l ∧ l.confirmKeys = Sample.voters m ∧ l.rejectKeys = Sample.voters n

/-- Where the sides are even, one more operator can confirm, and then reject. -/
theorem Reached.voteBoth {n : Nat} (h : s.Reached anyUpdate) (hv : s.VotedBy n n) :
    ∃ s₁ s₂ : State, s₁.Reached anyUpdate ∧ s₁.VotedBy (n + 1) n ∧ s₂.Reached anyUpdate ∧ s₂.VotedBy (n + 1) (n + 1) := by
  obtain ⟨l, hl, hc, hr⟩ := hv
  have hnew : ¬l.HasVote (Sample.numberedVote .confirm n) := by
    rintro (⟨-, hm⟩ | ⟨ht, -⟩)
    · exact Sample.voter_not_mem n (hc ▸ hm)
    · cases ht
  obtain ⟨s₁, l₁, hs₁, hd, hl₁⟩ := h.vote (Sample.numberedVote .confirm n) hl hnew
  have hc₁ : l₁.confirmKeys = Sample.voters (n + 1) ∧ l₁.rejectKeys = Sample.voters n := by
    rcases LimitChangeData.applyDecision_eq_ok hd with ⟨-, -, hcs, hrs⟩ | ⟨ht, -⟩
    · exact ⟨by rw [hcs, hc, Sample.voters_succ]; rfl, by rw [hrs, hr]⟩
    · cases ht
  have hlen := congrArg List.length hc₁.1
  have hlen' := congrArg List.length hc₁.2
  rw [Sample.length_voters] at hlen hlen'
  have ho₁ : l₁.Open := by
    rcases (h.limitsOpen _ _ l hl).1.applyDecision_cases hd with ⟨-, -, -, heq⟩ | ⟨-, -, -, heq⟩ | ⟨ho, -⟩
    · omega
    · omega
    · exact ho
  have hl₁ : s₁.limitChange? Sample.alice .btc = some l₁ := by
    rw [LimitChangeData.isDecided, ho₁.status] at hl₁
    exact hl₁
  have hnew₁ : ¬l₁.HasVote (Sample.numberedVote .reject n) := by
    rintro (⟨ht, -⟩ | ⟨-, hm⟩)
    · cases ht
    · exact Sample.voter_not_mem n (hc₁.2 ▸ hm)
  obtain ⟨s₂, l₂, hs₂, hd₂, hl₂⟩ := hs₁.vote (Sample.numberedVote .reject n) hl₁ hnew₁
  have hc₂ : l₂.confirmKeys = Sample.voters (n + 1) ∧ l₂.rejectKeys = Sample.voters (n + 1) := by
    rcases LimitChangeData.applyDecision_eq_ok hd₂ with ⟨ht, -⟩ | ⟨-, -, hrs, hcs⟩
    · cases ht
    · exact ⟨by rw [hcs, hc₁.1], by rw [hrs, hc₁.2, Sample.voters_succ]; rfl⟩
  have ho₂ : l₂.Open := by
    have hlen₂ := congrArg List.length hc₂.1
    have hlen₂' := congrArg List.length hc₂.2
    rw [Sample.length_voters] at hlen₂ hlen₂'
    rcases ho₁.applyDecision_cases hd₂ with ⟨-, -, -, heq⟩ | ⟨-, -, -, heq⟩ | ⟨ho, -⟩
    · omega
    · omega
    · exact ho
  have hl₂ : s₂.limitChange? Sample.alice .btc = some l₂ := by
    rw [LimitChangeData.isDecided, ho₂.status] at hl₂
    exact hl₂
  exact ⟨s₁, s₂, hs₁, ⟨l₁, hl₁, hc₁⟩, hs₂, ⟨l₂, hl₂, hc₂⟩⟩

/-- Any number of operators can confirm and reject a change. -/
theorem exists_votedBy (n : Nat) : ∃ s : State, s.Reached anyUpdate ∧ s.VotedBy n n := by
  induction n with
  | zero =>
    obtain ⟨j, hj, hq⟩ := Machine.exists_reachable (P := fun (_ : Journal) (a : Oracle × StateUpdate) => ¬a.2.body.IsSnapshot)
      (Sample.signup ++ [Sample.askLimit 3 2 1000])
      (q := fun j => (j.state.limitChange? Sample.alice .btc).any (fun l : LimitChangeData =>
        decide (l.confirmKeys = [] ∧ l.rejectKeys = []))) Sample.start_init (by decide)
    obtain ⟨l, hl, hkeys⟩ := (Option.any_eq_true _ _).mp hq
    exact ⟨j.state, ⟨_, Journal.madeBy_updates (fun _ _ h => ⟨trivial, h⟩) hj⟩, l, hl, of_decide_eq_true hkeys⟩
  | succ n ih =>
    obtain ⟨s, hs, hv⟩ := ih
    obtain ⟨-, s₂, -, -, hs₂, hv₂⟩ := hs.voteBoth hv
    exact ⟨s₂, hs₂, hv₂⟩

/-- 32768 operators confirm a change and 32767 reject it; the counter of the confirmations is -32768. -/
theorem limit_votes_wrap :
    (∃ s : State, s.Reached anyUpdate ∧ ∃ l, s.limitChange? Sample.alice .btc = some l ∧
      l.status = .inProgress (-32768) 32767 ∧ l.confirmations.length = 32768) ∧
    ¬∀ s : State, s.Reached anyUpdate → s.QuorumLaws ∧ s.VotesCounted := by
  obtain ⟨s, hs, hv⟩ := exists_votedBy 32767
  obtain ⟨s₁, -, hs₁, ⟨l, hl, hc, hr⟩, -⟩ := hs.voteBoth hv
  have hlen : l.confirmKeys.length = 32768 := by rw [hc, Sample.length_voters]
  have hlen' : l.rejectKeys.length = 32767 := by rw [hr, Sample.length_voters]
  have hconf : l.confirmations.length = 32768 := by rw [← hlen, LimitChangeData.confirmKeys, List.length_map]
  refine ⟨⟨s₁, hs₁, l, hl, ?_, hconf⟩, fun h => ?_⟩
  · rw [(hs₁.limitsOpen _ _ l hl).1.status, hlen, hlen']
    rfl
  · have hfew := (hs₁.limitsOpen.votesCounted_iff.mp (h s₁ hs₁).2 _ _ l hl).1
    omega

/-- `VotesFew`, computed. -/
def votesFew (s : State) : Bool :=
  s.users.toList.all (fun p => p.2.limitChangeRequests.toList.all (fun q =>
    decide (q.2.confirmations.length < 2 ^ 15 ∧ q.2.rejections.length < 2 ^ 15)))

theorem votesFew_of_eq_true (h : s.votesFew = true) : s.VotesFew := by
  intro u c l hl
  obtain ⟨ui, hui, hc⟩ := Option.bind_eq_some_iff.mp hl
  have hall := List.all_eq_true.mp h (u, ui) ((AssocMap.mem_toList_iff _ _ _).mpr hui)
  exact of_decide_eq_true (List.all_eq_true.mp hall (c, l) ((AssocMap.mem_toList_iff _ _ _).mpr hc))

open Sample in
/-- Two keys confirm a change of alice's limit, and it is set: by the second confirmation, with no rejection. -/
theorem limits_by_quorum_run : ∃ (s s' : State) (i i' : UserCurrencyInfo) (lcd : LimitChangeDecision) (l l' : LimitChangeData),
    s.Reached anyUpdate ∧ s.currency? alice .btc = some i ∧ s'.currency? alice .btc = some i' ∧
      i'.limitInfo.limit ≠ i.limitInfo.limit ∧ s.VotesCounted ∧
        s.IsVote (upd 5 (.limitChangeDecision (numberedVote .confirm 1))).2 alice .btc lcd l l' ∧ lcd.decisionType = .confirm ∧
          l'.Distinct ∧ l'.rejectKeys.length + 2 ≤ l'.confirmKeys.length := by
  obtain ⟨j, hj, hq⟩ := Machine.exists_reachable (P := fun (_ : Journal) (a : Oracle × StateUpdate) => ¬a.2.body.IsSnapshot)
    (signup ++ [askLimit 3 2 1000, upd 4 (.limitChangeDecision (numberedVote .confirm 0))])
    (q := fun j => j.state.votesFew && (j.state.currency? alice .btc).any (fun i : UserCurrencyInfo =>
      (j.store oracle (upd 5 (.limitChangeDecision (numberedVote .confirm 1))).2).any (fun j' =>
        (j'.state.currency? alice .btc).any (fun i' : UserCurrencyInfo => i'.limitInfo.limit ≠ i.limitInfo.limit))))
    start_init (by decide)
  obtain ⟨hfew, hq⟩ := Bool.and_eq_true_iff.mp hq
  obtain ⟨i, hi, hq⟩ := (Option.any_eq_true _ _).mp hq
  obtain ⟨j', hj', hq⟩ := (Option.any_eq_true _ _).mp hq
  obtain ⟨i', hi', hne⟩ := (Option.any_eq_true _ _).mp hq
  have hr : j.state.Reached anyUpdate := ⟨_, Journal.madeBy_updates (fun _ _ h => ⟨trivial, h⟩) hj⟩
  obtain ⟨hlaws, hiff⟩ := limits_by_quorum_iff j.state hr
  obtain ⟨lcd, l, l', hvote, htype, hdistinct, hlen⟩ :=
    hlaws.changed (Journal.store_answer hj') (by decide) hi hi' (of_decide_eq_true hne)
  exact ⟨j.state, j'.state, i, i', lcd, l, l', hr, hi, hi', of_decide_eq_true hne, (hiff.mpr (votesFew_of_eq_true hfew)).2, hvote,
    htype, hdistinct, hlen⟩

end State

end Hexstody
