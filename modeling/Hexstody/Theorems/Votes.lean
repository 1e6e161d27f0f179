import Hexstody.Lemmas.Tally

/-!
# The votes on withdrawal requests

What holds of the votes in every run of the update worker with fresh ids, whoever sends the updates. The evidence agrees with
the score: the signatures kept are those of distinct keys, and their difference is the score that the status counts
(`votes_match_score`). The quorum is tested by equality, and a key that changes its vote moves the score by two: a change of
vote at a score of one, or of minus one, jumps over the quorum, and these are the only votes that leave a request in progress
with the quorum reached (`quorum_decided_iff`).
-/

namespace Hexstody

open WithdrawalRequest

namespace Journal

variable {j j' : Journal} {o : Oracle} {up : StateUpdate}

/-- A score of fewer than 2^15 keys fits in 16 bits. -/
theorem score_bounds {keys : List PublicKey} (hlen : keys.length < 2 ^ 15) {r : WithdrawalRequest} (hd : r.Distinct)
    (hk : ∀ k, k ∈ r.confirmKeys ∨ k ∈ r.rejectKeys → k ∈ keys) : -32768 ≤ r.score ∧ r.score < 32768 := by
  have hc := length_le_of_keys hd.confirmations (fun k hm => hk k (Or.inl hm))
  have hr := length_le_of_keys hd.rejections (fun k hm => hk k (Or.inr hm))
  unfold score
  omega

/-- The votes match the score. In every run with fresh ids and fewer than 2^15 operator keys: the keys that confirm a request
are distinct, so are those that reject it, none does both, and their difference is what the status counts; an update answers
that a request is confirmed exactly when it confirms it; and no id is answered twice. -/
theorem votes_match_score {keys : List PublicKey} (hlen : keys.length < 2 ^ 15)
    (h : machine.Reachable (FreshBy keys) j) :
    (∀ u c i r, j.state.request? u c i = some r → r.Tally) ∧
      (∀ o up s' res, j.FreshBy keys (o, up) → j.state.applyUpdate o up = (s', .ok res) → ∀ id,
        res = some (.withdrawConfirmed id) ↔ ∃ u c, ¬j.state.ConfirmedAt u c id ∧ s'.ConfirmedAt u c id) ∧
      j.confirmed.Nodup := by
  have hfiled := filed_of_reachable (fun j a (hp : j.FreshBy keys a) => hp.1) h
  have htally := tallied_of_reachable (fun j a hp => hp) h
  have hexact : ∀ u c i r, j.state.request? u c i = some r → r.Tally := by
    intro u c i r hr
    have hbound := score_bounds hlen (htally.counted hr).distinct (htally.keys hr)
    exact (htally.counted hr).tally hbound.1 hbound.2
  refine ⟨hexact, ?_, (confirmedOnce_of_reachable (fun j a hp => hp.1) h).nodup⟩
  intro o up s' res hp ha id
  exact confirmed_iff hfiled hp.1.1 ha id

/-- Two operators confirm a request of alice's: its id is answered, once. -/
theorem votes_match_score_two_confirm : ∃ j : Journal, j.confirmed = [Sample.uuid 7] ∧
    (∀ u c i r, j.state.request? u c i = some r → r.Tally) ∧ j.confirmed.Nodup := by
  obtain ⟨j, hj, hq⟩ := Machine.exists_reachable (P := FreshBy [Sample.key 1, Sample.key 2])
    (Sample.signup ++ [Sample.upd 3 (.createWithdrawalRequest (Sample.request 7 100 .overLimit)),
      Sample.upd 4 (.withdrawalRequestDecision (Sample.decision 7 1 .confirm)),
      Sample.upd 5 (.withdrawalRequestDecision (Sample.decision 7 2 .confirm))])
    (q := fun j => j.confirmed == [Sample.uuid 7]) Sample.start_init (by decide)
  have h := votes_match_score (by decide) hj
  exact ⟨j, by simpa using hq, h.1, h.2.2⟩

end Journal

/-! ## The quorum -/

namespace WithdrawalRequest

/-- The vote changes a rejection to a confirmation at a score of one, or a confirmation to a rejection at minus one. -/
def Jumps (r : WithdrawalRequest) (d : WithdrawalRequestDecisionInfo) : Prop :=
  (d.decisionType = .confirm ∧ r.isRejectedByKey d.publicKey = true ∧ r.status = .inProgress 1) ∨
    (d.decisionType = .reject ∧ r.isConfirmedByKey d.publicKey = true ∧ r.status = .inProgress (-1))

instance (r : WithdrawalRequest) (d : WithdrawalRequestDecisionInfo) : Decidable (r.Jumps d) :=
  inferInstanceAs (Decidable (_ ∨ _))

/-- The request is confirmed when the quorum for it exists, rejected when the quorum against it exists, and in progress only
below both. -/
structure QuorumKept (r : WithdrawalRequest) : Prop where
  confirmed : r.status = .confirmed ↔ 2 ≤ r.score
  opRejected : r.status = .opRejected ↔ r.score ≤ -2
  inProgress : ∀ n, r.status = .inProgress n → -2 < n.toInt ∧ n.toInt < 2

/-- A request in progress counts its score, and its score is below the quorum. -/
def BelowQuorum (r : WithdrawalRequest) : Prop :=
  ∀ n, r.status = .inProgress n → n.toInt = r.score ∧ -2 < n.toInt ∧ n.toInt < 2

variable {r r' : WithdrawalRequest} {d : WithdrawalRequestDecisionInfo} {confirmed : Option WithdrawalRequestId}

/-- A count below the quorum is one of three. -/
theorem count_cases {n : Int16} (h1 : -2 < n.toInt) (h2 : n.toInt < 2) : n = -1 ∨ n = 0 ∨ n = 1 := by
  have hm : (-1 : Int16).toInt = -1 := rfl
  have hz : (0 : Int16).toInt = 0 := rfl
  have ho : (1 : Int16).toInt = 1 := rfl
  rcases (by omega : n.toInt = -1 ∨ n.toInt = 0 ∨ n.toInt = 1) with h | h | h
  · exact Or.inl (Int16.toInt_inj.mp (h.trans hm.symm))
  · exact Or.inr (Or.inl (Int16.toInt_inj.mp (h.trans hz.symm)))
  · exact Or.inr (Or.inr (Int16.toInt_inj.mp (h.trans ho.symm)))

/-- What the tests of `QuorumKept` are, for a status and a score that are known. -/
theorem quorumKept_of_eq (st : WithdrawalRequestStatus) (k : Int) (hst : r.status = st) (hk : r.score = k)
    (h : (st = .confirmed ↔ 2 ≤ k) ∧ (st = .opRejected ↔ k ≤ -2) ∧
      ∀ n, st = .inProgress n → n.toInt = k ∧ -2 < n.toInt ∧ n.toInt < 2) : r.QuorumKept ∧ r.BelowQuorum := by
  subst hst hk
  exact ⟨⟨h.1, h.2.1, fun n hn => (h.2.2 n hn).2⟩, h.2.2⟩

/-- A vote from below the quorum that jumps leaves the request in progress beyond the quorum; any other does not. -/
theorem applyDecision_quorum (hd : r.Distinct) (hb : r.BelowQuorum) (ha : r.applyDecision d = .ok (r', confirmed)) :
    (r.Jumps d ∧ ¬r'.QuorumKept) ∨ (¬r.Jumps d ∧ r'.QuorumKept ∧ r'.BelowQuorum) := by
  obtain ⟨n, hst, hvote⟩ := applyDecision_score hd ha
  obtain ⟨hs, h1, h2⟩ := hb n hst
  rcases hvote with ⟨ht, hs', hst'⟩ | ⟨ht, hs', hst'⟩
  · cases hk : r.isRejectedByKey d.publicKey with
    | false =>
      rw [hk, ← hs] at hs'
      rw [hk] at hst'
      refine Or.inr ⟨?_, ?_⟩
      · simp [Jumps, hk, ht]
      · rcases count_cases h1 h2 with rfl | rfl | rfl
        · exact quorumKept_of_eq (.inProgress 0) 0 hst' hs' (by simp)
        · exact quorumKept_of_eq (.inProgress 1) 1 hst' hs' (by simp)
        · exact quorumKept_of_eq .confirmed 2 hst' hs' (by simp)
    | true =>
      rw [hk, ← hs] at hs'
      rw [hk] at hst'
      rcases count_cases h1 h2 with rfl | rfl | rfl
      · refine Or.inr ⟨by simp [Jumps, ht, hst], ?_⟩
        exact quorumKept_of_eq (.inProgress 1) 1 hst' hs' (by simp)
      · refine Or.inr ⟨by simp [Jumps, ht, hst], ?_⟩
        exact quorumKept_of_eq .confirmed 2 hst' hs' (by simp)
      · -- from one, over the quorum, to three
        refine Or.inl ⟨Or.inl ⟨ht, hk, hst⟩, fun hq => ?_⟩
        have h3 : r'.status = .inProgress 3 := hst'
        have hlt := (hq.inProgress 3 h3).2
        exact absurd hlt (by decide)
  · cases hk : r.isConfirmedByKey d.publicKey with
    | false =>
      rw [hk, ← hs] at hs'
      rw [hk] at hst'
      refine Or.inr ⟨?_, ?_⟩
      · simp [Jumps, hk, ht]
      · rcases count_cases h1 h2 with rfl | rfl | rfl
        · exact quorumKept_of_eq .opRejected (-2) hst' (hs'.trans (by decide)) (by simp)
        · exact quorumKept_of_eq (.inProgress (-1)) (-1) hst' (hs'.trans (by decide)) (by simp)
        · exact quorumKept_of_eq (.inProgress 0) 0 hst' hs' (by simp)
    | true =>
      rw [hk, ← hs] at hs'
      rw [hk] at hst'
      rcases count_cases h1 h2 with rfl | rfl | rfl
      · -- from minus one, over the quorum, to minus three
        refine Or.inl ⟨Or.inr ⟨ht, hk, hst⟩, fun hq => ?_⟩
        have h3 : r'.status = .inProgress (-3) := hst'
        have hlt := (hq.inProgress (-3) h3).1
        exact absurd hlt (by decide)
      · refine Or.inr ⟨by simp [Jumps, ht, hst], ?_⟩
        exact quorumKept_of_eq .opRejected (-2) hst' (hs'.trans (by decide)) (by simp)
      · refine Or.inr ⟨by simp [Jumps, ht, hst], ?_⟩
        exact quorumKept_of_eq (.inProgress (-1)) (-1) hst' (hs'.trans (by decide)) (by simp)

end WithdrawalRequest

namespace Journal

variable {j j' : Journal} {o : Oracle} {up : StateUpdate}

/-- The update is a decision that jumps over the quorum of a request of the State. -/
def Jumps (j : Journal) (a : Oracle × StateUpdate) : Prop :=
  match a.2.body with
  | .withdrawalRequestDecision d => ∃ r ∈ j.state.request? d.userId d.currency d.requestId, r.Jumps d
  | _ => False

instance (j : Journal) (a : Oracle × StateUpdate) : Decidable (j.Jumps a) :=
  decidable_of_iff (∃ d ∈ a.2.decision?, ∃ r ∈ j.state.request? d.userId d.currency d.requestId, r.Jumps d)
    a.2.exists_decision_iff

/-- Every request of the State has distinct votes, and is below the quorum while it is in progress. -/
structure Undecided (j : Journal) : Prop where
  distinct : ∀ {u c i r}, j.state.request? u c i = some r → r.Distinct
  below : ∀ {u c i r}, j.state.request? u c i = some r → r.BelowQuorum

/-- (step) -/
theorem Undecided.store (hu : j.Undecided) (hp : j.Fresh (o, up)) (hj : ¬j.Jumps (o, up)) (h : j.store o up = some j') :
    j'.Undecided := by
  obtain ⟨res, ha, -⟩ := store_eq_some h
  have key : ∀ {u c i r'}, j'.state.request? u c i = some r' → r'.Distinct ∧ r'.BelowQuorum := by
    intro u c i r' hr'
    have hch := applyUpdate_request ha hp.1 u c i
    rw [hr'] at hch
    generalize hb : j.state.request? u c i = before at hch
    cases hch with
    | same => exact ⟨hu.distinct hb, hu.below hb⟩
    | created a info _ _ _ _ =>
      refine ⟨(Counted.ofInfo _ _).distinct, fun n hn => ?_⟩
      obtain rfl := WithdrawalRequestStatus.inProgress.inj hn
      exact ⟨rfl, by decide, by decide⟩
    | voted r _ d confirmed hbody hu' hc hi hd =>
      subst hu' hc hi
      refine ⟨(hu.distinct hb).applyDecision hd, ?_⟩
      rcases applyDecision_quorum (hu.distinct hb) (hu.below hb) hd with ⟨hjump, -⟩ | ⟨-, -, hbelow⟩
      · exact absurd (by unfold Jumps; simp only [hbody]; exact ⟨r, hb, hjump⟩) hj
      · exact hbelow
    | completed r info _ _ => exact ⟨(hu.distinct hb).setStatus _, fun n hn => by cases hn⟩
    | nodeRejected r info _ _ => exact ⟨(hu.distinct hb).setStatus _, fun n hn => by cases hn⟩
    | canceled r tx _ _ => exact ⟨(hu.distinct hb).setStatus _, fun n hn => by cases hn⟩
  exact ⟨fun hr => (key hr).1, fun hr => (key hr).2⟩

/-- The quorum decides. In every run with fresh ids in which no vote jumps over the quorum, a request in progress is below the
quorum; and the next vote on a request decides it exactly at the quorum if and only if it does not jump over it. -/
theorem quorum_decided_iff (h : machine.Reachable (fun j a => j.Fresh a ∧ ¬j.Jumps a) j) :
    (∀ u c i r n, j.state.request? u c i = some r → r.status = .inProgress n →
        n.toInt = r.score ∧ -2 < n.toInt ∧ n.toInt < 2) ∧
      ∀ o up d j' r r', j.Fresh (o, up) → up.body = .withdrawalRequestDecision d → j.store o up = some j' →
        j.state.request? d.userId d.currency d.requestId = some r →
        j'.state.request? d.userId d.currency d.requestId = some r' → (r'.QuorumKept ↔ ¬r.Jumps d) := by
  have hu : j.Undecided := by
    refine h.invariant ?_ ?_
    · rintro _ ⟨now, genesisHash, rfl⟩
      exact ⟨fun hr => (by cases hr), fun hr => (by cases hr)⟩
    · intro j a j' _ hu hp hs
      exact hu.store hp.1 hp.2 hs
  refine ⟨fun u c i r n hr hst => hu.below hr n hst, ?_⟩
  intro o up d j' r r' hp hbody hs hr hr'
  obtain ⟨res, ha, -⟩ := store_eq_some hs
  obtain ⟨r₁, r₁', confirmed, hr₁, hd, hr₁', -⟩ := applyUpdate_decision ha hbody
  obtain rfl := Option.some.inj (hr.symm.trans hr₁)
  obtain rfl := Option.some.inj (hr'.symm.trans hr₁')
  rcases applyDecision_quorum (hu.distinct hr) (hu.below hr) hd with ⟨hjump, hq⟩ | ⟨hjump, hq, -⟩
  · exact ⟨fun h => absurd h hq, fun h => absurd hjump h⟩
  · exact ⟨fun _ => hjump, fun _ => hq⟩

/-- A second operator's vote confirms a request of alice's, and does not jump. -/
theorem quorum_decided_iff_two_confirm : ∃ r r' : WithdrawalRequest,
    r.status = .inProgress 1 ∧ (r'.QuorumKept ↔ ¬r.Jumps (Sample.decision 7 2 .confirm)) := by
  obtain ⟨j, hj, hq⟩ := Machine.exists_reachable (P := fun j a => j.Fresh a ∧ ¬j.Jumps a)
    (Sample.signup ++ [Sample.upd 3 (.createWithdrawalRequest (Sample.request 7 100 .overLimit)),
      Sample.upd 4 (.withdrawalRequestDecision (Sample.decision 7 1 .confirm))])
    (q := fun j => (j.state.request? Sample.alice .btc (Sample.uuid 7)).any (·.status = .inProgress 1) &&
      (j.store Sample.oracle (Sample.upd 5 (.withdrawalRequestDecision (Sample.decision 7 2 .confirm))).2).any
        (fun j' => (j'.state.request? Sample.alice .btc (Sample.uuid 7)).isSome)) Sample.start_init (by decide)
  obtain ⟨h1, h2⟩ := Bool.and_eq_true_iff.mp hq
  obtain ⟨r, hr, hst⟩ := (Option.any_eq_true _ _).mp h1
  obtain ⟨j', hs, h3⟩ := (Option.any_eq_true _ _).mp h2
  obtain ⟨r', hr'⟩ := Option.isSome_iff_exists.mp h3
  have hfresh : j.Fresh (Sample.upd 5 (.withdrawalRequestDecision (Sample.decision 7 2 .confirm))) :=
    ⟨fun h => h, fun r hr => (by cases hr), fun o ho => (by cases ho)⟩
  exact ⟨r, r', of_decide_eq_true hst, (quorum_decided_iff hj).2 _ _ _ j' r r' hfresh rfl hs hr hr'⟩

/-- One operator confirms, one rejects, a third confirms, and the second changes sides: three operators confirm the request,
none rejects it, and it is in progress, at three. -/
theorem quorum_jumped : ¬∀ j, machine.Reachable Fresh j → ∀ u c i r n, j.state.request? u c i = some r →
    r.status = .inProgress n → -2 < n.toInt ∧ n.toInt < 2 := by
  intro h
  obtain ⟨j, hj, hq⟩ := Machine.exists_reachable (P := Fresh)
    (Sample.signup ++ [Sample.upd 3 (.createWithdrawalRequest (Sample.request 7 100 .overLimit)),
      Sample.upd 4 (.withdrawalRequestDecision (Sample.decision 7 1 .confirm)),
      Sample.upd 5 (.withdrawalRequestDecision (Sample.decision 7 2 .reject)),
      Sample.upd 6 (.withdrawalRequestDecision (Sample.decision 7 3 .confirm)),
      Sample.upd 7 (.withdrawalRequestDecision (Sample.decision 7 2 .confirm))])
    (q := fun j => (j.state.request? Sample.alice .btc (Sample.uuid 7)).any (·.status = .inProgress 3))
    Sample.start_init (by decide)
  obtain ⟨r, hr, hst⟩ := (Option.any_eq_true _ _).mp hq
  have hlt := (h j hj _ _ _ r 3 hr (of_decide_eq_true hst)).2
  exact absurd hlt (by decide)

end Journal

end Hexstody
