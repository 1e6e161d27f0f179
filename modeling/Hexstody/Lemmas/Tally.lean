import Hexstody.Lemmas.Journal

/-!
# The tally of the votes on a request

The score of a request is the number of keys that confirm it minus the number of keys that reject it, in exact integers
(`WithdrawalRequest.score`). `Distinct` says that each key votes once, on one side: a vote keeps it, and moves the score by the
weight of the vote, which is two when the key changes sides. The status counts in 16 bits, so it agrees with the score up to
wrapping (`Counted`), and exactly where the score fits (`Tally`). In the journal every request is counted, by the keys that may
vote (`Journal.Tallied`), and an id is answered as confirmed once, when the request is (`Journal.ConfirmedOnce`).
-/

namespace Hexstody

namespace WithdrawalRequest

/-- The keys that confirm the request. -/
def confirmKeys (r : WithdrawalRequest) : List PublicKey := r.confirmations.map (·.publicKey)

/-- The keys that reject the request. -/
def rejectKeys (r : WithdrawalRequest) : List PublicKey := r.rejections.map (·.publicKey)

/-- The number of keys that confirm minus the number of keys that reject. -/
def score (r : WithdrawalRequest) : Int := r.confirmKeys.length - r.rejectKeys.length

/-- Each key votes once, on one side. -/
structure Distinct (r : WithdrawalRequest) : Prop where
  confirmations : r.confirmKeys.Nodup
  rejections : r.rejectKeys.Nodup
  disjoint : ∀ k ∈ r.confirmKeys, k ∉ r.rejectKeys

/-- What a status says of the score. -/
def StatusScore (st : WithdrawalRequestStatus) (score : Int) : Prop :=
  match st with
  | .inProgress n => n.toInt = score
  | .confirmed => score = 2
  | .opRejected => score = -2
  | _ => True

/-- Each key votes once, on one side, and the status agrees with the score. -/
structure Tally (r : WithdrawalRequest) : Prop where
  distinct : r.Distinct
  score : StatusScore r.status r.score

/-- What a status says of the score, up to multiples of 2^16. -/
def StatusCount (st : WithdrawalRequestStatus) (score : Int) : Prop :=
  match st with
  | .inProgress n => (65536 : Int) ∣ score - n.toInt
  | .confirmed => (65536 : Int) ∣ score - 2
  | .opRejected => (65536 : Int) ∣ score + 2
  | _ => True

/-- Each key votes once, on one side, and the status agrees with the score up to wrapping. -/
structure Counted (r : WithdrawalRequest) : Prop where
  distinct : r.Distinct
  count : StatusCount r.status r.score

theorem isConfirmedByKey_iff {r : WithdrawalRequest} {k : PublicKey} : r.isConfirmedByKey k = true ↔ k ∈ r.confirmKeys := by
  simp [isConfirmedByKey, confirmKeys]

theorem isRejectedByKey_iff {r : WithdrawalRequest} {k : PublicKey} : r.isRejectedByKey k = true ↔ k ∈ r.rejectKeys := by
  simp [isRejectedByKey, rejectKeys]

/-! ## Taking back a vote -/

/-- The votes without those of a key. -/
def without (ds : List WithdrawalRequestDecision) (k : PublicKey) : List WithdrawalRequestDecision :=
  ds.filter (·.publicKey != k)

theorem mem_keys_without {ds : List WithdrawalRequestDecision} {k k' : PublicKey} :
    k' ∈ (without ds k).map (·.publicKey) ↔ k' ∈ ds.map (·.publicKey) ∧ k' ≠ k := by
  simp only [without, List.mem_map, List.mem_filter, bne_iff_ne]
  constructor
  · rintro ⟨d, ⟨hd, hne⟩, rfl⟩
    exact ⟨⟨d, hd, rfl⟩, hne⟩
  · rintro ⟨⟨d, hd, rfl⟩, hne⟩
    exact ⟨d, ⟨hd, hne⟩, rfl⟩

theorem nodup_keys_without {ds : List WithdrawalRequestDecision} {k : PublicKey}
    (h : (ds.map (·.publicKey)).Nodup) : ((without ds k).map (·.publicKey)).Nodup :=
  h.sublist (List.filter_sublist.map _)

/-- A key that did not vote for a side has nothing to take back there. -/
theorem without_eq_self {ds : List WithdrawalRequestDecision} {k : PublicKey} (h : k ∉ ds.map (·.publicKey)) :
    without ds k = ds := by
  refine List.filter_eq_self.mpr (fun e he => ?_)
  have hne : e.publicKey ≠ k := fun heq => h (heq ▸ List.mem_map_of_mem he)
  simpa using hne

/-- A key that voted once took one vote. -/
theorem length_without {ds : List WithdrawalRequestDecision} {k : PublicKey} (h : (ds.map (·.publicKey)).Nodup)
    (hk : k ∈ ds.map (·.publicKey)) : (without ds k).length + 1 = ds.length := by
  induction ds with
  | nil => cases hk
  | cons d ds ih =>
    rw [List.map_cons, List.nodup_cons] at h
    by_cases hd : d.publicKey = k
    · subst hd
      -- no vote of the rest is by this key
      have hrest : without ds d.publicKey = ds := without_eq_self h.1
      rw [without, List.filter_cons_of_neg (by simp)]
      change (without ds d.publicKey).length + 1 = _
      rw [hrest, List.length_cons]
    · have hk' : k ∈ ds.map (·.publicKey) := by
        rcases List.mem_cons.mp hk with heq | hm
        · exact absurd heq.symm hd
        · exact hm
      rw [without, List.filter_cons_of_pos (by simpa using hd), List.length_cons, List.length_cons]
      exact congrArg (· + 1) (ih h.2 hk')

/-! ## A vote and the tally -/

theorem weight_toInt (b : Bool) : (weight b).toInt = if b then 2 else 1 := by
  cases b <;> rfl

variable {r r' : WithdrawalRequest} {n : Int16} {d : WithdrawalRequestDecisionInfo} {confirmed : Option WithdrawalRequestId}

theorem confirm_lists : (r.confirm n d).1.confirmKeys = r.confirmKeys ++ [d.publicKey] ∧
    (r.confirm n d).1.rejectKeys = (without r.rejections d.publicKey).map (·.publicKey) := by
  refine ⟨?_, ?_⟩
  · rw [confirmKeys, confirm_confirmations, List.map_append]
    rfl
  · rw [rejectKeys, confirm_rejections]
    by_cases hk : r.isRejectedByKey d.publicKey = true
    · rw [if_pos hk]
      rfl
    · rw [if_neg hk, without_eq_self (fun hm => hk (isRejectedByKey_iff.mpr hm))]

theorem reject_lists : (r.reject n d).rejectKeys = r.rejectKeys ++ [d.publicKey] ∧
    (r.reject n d).confirmKeys = (without r.confirmations d.publicKey).map (·.publicKey) := by
  refine ⟨?_, ?_⟩
  · rw [rejectKeys, reject_rejections, List.map_append]
    rfl
  · rw [confirmKeys, reject_confirmations]
    by_cases hk : r.isConfirmedByKey d.publicKey = true
    · rw [if_pos hk]
      rfl
    · rw [if_neg hk, without_eq_self (fun hm => hk (isConfirmedByKey_iff.mpr hm))]

/-- The length of a side after a key that may have voted for it took its vote back. -/
theorem length_without_eq {ds : List WithdrawalRequestDecision} {k : PublicKey} (h : (ds.map (·.publicKey)).Nodup)
    {b : Bool} (hb : b = true ↔ k ∈ ds.map (·.publicKey)) :
    ((without ds k).length : Int) = ds.length - (if b then 1 else 0) := by
  cases b with
  | true =>
    have hlen := length_without h (hb.mp rfl)
    simp only [if_true]
    omega
  | false =>
    have hk : k ∉ ds.map (·.publicKey) := fun hm => by cases hb.mpr hm
    rw [without_eq_self hk]
    simp

theorem Distinct.confirm (h : r.Distinct) (hk : r.isConfirmedByKey d.publicKey = false) :
    (r.confirm n d).1.Distinct ∧
      (r.confirm n d).1.score = r.score + (weight (r.isRejectedByKey d.publicKey)).toInt := by
  have hk' : d.publicKey ∉ r.confirmKeys := fun hm => by rw [isConfirmedByKey_iff.mpr hm] at hk; cases hk
  obtain ⟨hc, hr⟩ := confirm_lists (r := r) (n := n) (d := d)
  refine ⟨⟨?_, ?_, ?_⟩, ?_⟩
  · rw [hc]
    exact List.Nodup.append h.confirmations (List.nodup_singleton _) (by simpa using hk')
  · rw [hr]
    exact nodup_keys_without h.rejections
  · rw [hc, hr]
    intro k hm hm'
    obtain ⟨hm', hne⟩ := mem_keys_without.mp hm'
    rcases List.mem_append.mp hm with hm | hm
    · exact h.disjoint k hm hm'
    · exact hne (List.mem_singleton.mp hm)
  · have hlen := length_without_eq (b := r.isRejectedByKey d.publicKey) h.rejections isRejectedByKey_iff
    rw [score, hc, hr, List.length_append, List.length_map, hlen, score, weight_toInt, rejectKeys, List.length_map]
    cases r.isRejectedByKey d.publicKey <;> simp <;> omega

theorem Distinct.reject (h : r.Distinct) (hk : r.isRejectedByKey d.publicKey = false) :
    (r.reject n d).Distinct ∧
      (r.reject n d).score = r.score - (weight (r.isConfirmedByKey d.publicKey)).toInt := by
  have hk' : d.publicKey ∉ r.rejectKeys := fun hm => by rw [isRejectedByKey_iff.mpr hm] at hk; cases hk
  obtain ⟨hr, hc⟩ := reject_lists (r := r) (n := n) (d := d)
  refine ⟨⟨?_, ?_, ?_⟩, ?_⟩
  · rw [hc]
    exact nodup_keys_without h.confirmations
  · rw [hr]
    exact List.Nodup.append h.rejections (List.nodup_singleton _) (by simpa using hk')
  · rw [hc, hr]
    intro k hm hm'
    obtain ⟨hm, hne⟩ := mem_keys_without.mp hm
    rcases List.mem_append.mp hm' with hm' | hm'
    · exact h.disjoint k hm hm'
    · exact hne (List.mem_singleton.mp hm')
  · have hlen := length_without_eq (b := r.isConfirmedByKey d.publicKey) h.confirmations isConfirmedByKey_iff
    rw [score, hc, hr, List.length_append, List.length_map, hlen, score, weight_toInt, confirmKeys, List.length_map]
    cases r.isConfirmedByKey d.publicKey <;> simp <;> omega

/-- A vote keeps the votes distinct. -/
theorem Distinct.applyDecision (h : r.Distinct) (ha : r.applyDecision d = .ok (r', confirmed)) : r'.Distinct := by
  obtain ⟨n, -, ⟨-, hk, rfl, -⟩ | ⟨-, hk, rfl, -⟩⟩ := applyDecision_eq_ok ha
  · exact (h.confirm hk).1
  · exact (h.reject hk).1

/-- The keys that vote on a request are those of earlier votes and that of the last. -/
theorem applyDecision_keys (ha : r.applyDecision d = .ok (r', confirmed)) {k : PublicKey}
    (hk : k ∈ r'.confirmKeys ∨ k ∈ r'.rejectKeys) : k = d.publicKey ∨ k ∈ r.confirmKeys ∨ k ∈ r.rejectKeys := by
  obtain ⟨n, -, ⟨-, -, rfl, -⟩ | ⟨-, -, rfl, -⟩⟩ := applyDecision_eq_ok ha
  · obtain ⟨hc, hr⟩ := confirm_lists (r := r) (n := n) (d := d)
    rw [hc, hr] at hk
    rcases hk with hk | hk
    · rcases List.mem_append.mp hk with hk | hk
      · exact Or.inr (Or.inl hk)
      · exact Or.inl (List.mem_singleton.mp hk)
    · exact Or.inr (Or.inr (mem_keys_without.mp hk).1)
  · obtain ⟨hr, hc⟩ := reject_lists (r := r) (n := n) (d := d)
    rw [hc, hr] at hk
    rcases hk with hk | hk
    · exact Or.inr (Or.inl (mem_keys_without.mp hk).1)
    · rcases List.mem_append.mp hk with hk | hk
      · exact Or.inr (Or.inr hk)
      · exact Or.inl (List.mem_singleton.mp hk)

/-- What a vote does to the score and to the status: the score moves by the weight of the vote, and so does the count in the
status unless the vote decides the request. -/
theorem applyDecision_score (h : r.Distinct) (ha : r.applyDecision d = .ok (r', confirmed)) :
    ∃ n, r.status = .inProgress n ∧
      ((d.decisionType = .confirm ∧ r'.score = r.score + (weight (r.isRejectedByKey d.publicKey)).toInt ∧
          r'.status = if n = 2 - weight (r.isRejectedByKey d.publicKey) then .confirmed
            else .inProgress (n + weight (r.isRejectedByKey d.publicKey))) ∨
        (d.decisionType = .reject ∧ r'.score = r.score - (weight (r.isConfirmedByKey d.publicKey)).toInt ∧
          r'.status = if n = weight (r.isConfirmedByKey d.publicKey) - 2 then .opRejected
            else .inProgress (n - weight (r.isConfirmedByKey d.publicKey)))) := by
  obtain ⟨n, hst, ⟨ht, hk, rfl, -⟩ | ⟨ht, hk, rfl, -⟩⟩ := applyDecision_eq_ok ha
  · exact ⟨n, hst, Or.inl ⟨ht, (h.confirm hk).2, confirm_status⟩⟩
  · exact ⟨n, hst, Or.inr ⟨ht, (h.reject hk).2, reject_status⟩⟩

/-! ## The count and the score -/

theorem int16_add (a b : Int16) : (65536 : Int) ∣ a.toInt + b.toInt - (a + b).toInt := by
  rw [Int16.toInt_add, Int.bmod_def]
  omega

theorem int16_sub (a b : Int16) : (65536 : Int) ∣ a.toInt - b.toInt - (a - b).toInt := by
  rw [Int16.toInt_sub, Int.bmod_def]
  omega

/-- A vote keeps the count. -/
theorem Counted.applyDecision (h : r.Counted) (ha : r.applyDecision d = .ok (r', confirmed)) : r'.Counted := by
  refine ⟨h.distinct.applyDecision ha, ?_⟩
  obtain ⟨n, hst, hvote⟩ := applyDecision_score h.distinct ha
  have hn : (65536 : Int) ∣ r.score - n.toInt := by
    have hc := h.count
    rwa [hst] at hc
  rcases hvote with ⟨-, hs, hst'⟩ | ⟨-, hs, hst'⟩
  · generalize r.isRejectedByKey d.publicKey = b at hs hst'
    by_cases hq : n = 2 - weight b
    · have htwo : n.toInt + (weight b).toInt = 2 := by cases b <;> subst hq <;> rfl
      rw [hst', if_pos hq, hs]
      change (65536 : Int) ∣ _
      omega
    · have hsum := int16_add n (weight b)
      rw [hst', if_neg hq, hs]
      change (65536 : Int) ∣ _
      omega
  · generalize r.isConfirmedByKey d.publicKey = b at hs hst'
    by_cases hq : n = weight b - 2
    · have htwo : n.toInt - (weight b).toInt = -2 := by cases b <;> subst hq <;> rfl
      rw [hst', if_pos hq, hs]
      change (65536 : Int) ∣ _
      omega
    · have hsum := int16_sub n (weight b)
      rw [hst', if_neg hq, hs]
      change (65536 : Int) ∣ _
      omega

/-- A score that fits in 16 bits is what the status counts. -/
theorem Counted.tally (h : r.Counted) (h1 : -32768 ≤ r.score) (h2 : r.score < 32768) : r.Tally := by
  refine ⟨h.distinct, ?_⟩
  have hc := h.count
  cases hst : r.status with
  | inProgress n =>
    rw [hst] at hc
    change (65536 : Int) ∣ _ at hc
    have hlo := n.le_toInt
    have hhi := n.toInt_lt
    change n.toInt = r.score
    omega
  | confirmed =>
    rw [hst] at hc
    change (65536 : Int) ∣ _ at hc
    change r.score = 2
    omega
  | opRejected =>
    rw [hst] at hc
    change (65536 : Int) ∣ _ at hc
    change r.score = -2
    omega
  | _ => trivial

/-- A new request. -/
theorem Counted.ofInfo (t : NaiveDateTime) (info : WithdrawalRequestInfo) : (WithdrawalRequest.ofInfo t info).Counted :=
  ⟨⟨List.nodup_nil, List.nodup_nil, fun k hk => by cases hk⟩, dvd_zero _⟩

/-- A status that is set from outside the vote keeps the votes. -/
theorem Distinct.setStatus (h : r.Distinct) (st : WithdrawalRequestStatus) :
    ({ r with status := st } : WithdrawalRequest).Distinct :=
  ⟨h.confirmations, h.rejections, h.disjoint⟩

/-- The number of keys on a side is that of a list of keys they come from, at most. -/
theorem length_le_of_keys {l keys : List PublicKey} (hn : l.Nodup) (hs : ∀ k ∈ l, k ∈ keys) : l.length ≤ keys.length :=
  (hn.subperm hs).length_le

end WithdrawalRequest

open WithdrawalRequest

/-- The request with an id in an account is confirmed. -/
def State.ConfirmedAt (s : State) (u : UserId) (c : Currency) (i : WithdrawalRequestId) : Prop :=
  ∃ r, s.request? u c i = some r ∧ r.status = .confirmed

namespace Journal

variable {j j' : Journal} {o : Oracle} {up : StateUpdate}

/-! ## The evidence -/

/-- A fresh update, which is by one of the operators if it is a decision. -/
def FreshBy (keys : List PublicKey) (j : Journal) (a : Oracle × StateUpdate) : Prop :=
  j.Fresh a ∧
    match a.2.body with
    | .withdrawalRequestDecision d => d.publicKey ∈ keys
    | _ => True

instance (keys : List PublicKey) (j : Journal) (a : Oracle × StateUpdate) : Decidable (j.FreshBy keys a) :=
  decidable_of_iff (j.Fresh a ∧ ∀ d ∈ a.2.decision?, d.publicKey ∈ keys) (and_congr_right' a.2.forall_decision_iff)

/-- Every request of the State is counted, and voted on by operators. -/
structure Tallied (keys : List PublicKey) (j : Journal) : Prop where
  counted : ∀ {u c i r}, j.state.request? u c i = some r → r.Counted
  keys : ∀ {u c i r}, j.state.request? u c i = some r → ∀ k, k ∈ r.confirmKeys ∨ k ∈ r.rejectKeys → k ∈ keys

/-- (step) -/
theorem Tallied.store {keys : List PublicKey} (ht : j.Tallied keys) (hp : j.FreshBy keys (o, up))
    (h : j.store o up = some j') : j'.Tallied keys := by
  obtain ⟨res, ha, -⟩ := store_eq_some h
  have key : ∀ {u c i r'}, j'.state.request? u c i = some r' →
      r'.Counted ∧ ∀ k, k ∈ r'.confirmKeys ∨ k ∈ r'.rejectKeys → k ∈ keys := by
    intro u c i r' hr'
    have hch := applyUpdate_request ha hp.1.1 u c i
    rw [hr'] at hch
    generalize hb : j.state.request? u c i = before at hch
    cases hch with
    | same => exact ⟨ht.counted hb, ht.keys hb⟩
    | created a info _ _ _ _ => exact ⟨Counted.ofInfo _ _, fun k hk => by rcases hk with hk | hk <;> cases hk⟩
    | voted r _ d confirmed hbody _ _ _ hd =>
      have hkeys : ∀ k, k ∈ r'.confirmKeys ∨ k ∈ r'.rejectKeys → k ∈ keys := by
        intro k hk
        rcases applyDecision_keys hd hk with rfl | hk
        · have hmem := hp.2
          simp only [hbody] at hmem
          exact hmem
        · exact ht.keys hb k hk
      exact ⟨(ht.counted hb).applyDecision hd, hkeys⟩
    | completed r info _ _ => exact ⟨⟨(ht.counted hb).distinct.setStatus _, trivial⟩, fun k hk => ht.keys hb k hk⟩
    | nodeRejected r info _ _ => exact ⟨⟨(ht.counted hb).distinct.setStatus _, trivial⟩, fun k hk => ht.keys hb k hk⟩
    | canceled r tx _ _ => exact ⟨⟨(ht.counted hb).distinct.setStatus _, trivial⟩, fun k hk => ht.keys hb k hk⟩
  exact ⟨fun hr => (key hr).1, fun hr => (key hr).2⟩

theorem tallied_of_reachable {keys : List PublicKey} {P : Journal → Oracle × StateUpdate → Prop}
    (hP : ∀ j a, P j a → j.FreshBy keys a) (h : machine.Reachable P j) : j.Tallied keys := by
  refine h.invariant ?_ ?_
  · rintro _ ⟨now, genesisHash, rfl⟩
    exact ⟨fun hr => (by cases hr), fun hr => (by cases hr)⟩
  · intro j a j' _ ht hp hs
    exact ht.store (hP j a hp) hs

/-! ## The answer -/

/-- (step) An update answers that a request is confirmed exactly when it confirms it. -/
theorem confirmed_iff {s' : State} {res : Option UpdateResult} (hf : j.Filed) (hs : ¬up.body.IsSnapshot)
    (ha : j.state.applyUpdate o up = (s', .ok res)) (id : WithdrawalRequestId) :
    res = some (.withdrawConfirmed id) ↔ ∃ u c, ¬j.state.ConfirmedAt u c id ∧ s'.ConfirmedAt u c id := by
  constructor
  · rintro rfl
    rcases applyUpdate_result ha with ⟨info, -, -, hres⟩ | ⟨d, r, r', id', -, hr, hd, hr', hres⟩
    · cases hres
    obtain rfl := UpdateResult.withdrawConfirmed.inj hres
    rcases applyDecision_status hd with ⟨hq, hst, hid⟩ | ⟨-, -, hid⟩ | ⟨-, -, -, hid⟩
    · have hi : id = d.requestId := (Option.some.inj hid).trans (hf.id hr)
      subst hi
      refine ⟨d.userId, d.currency, ?_, r', hr', hst⟩
      rintro ⟨r₁, hr₁, hst₁⟩
      rw [hr] at hr₁
      obtain rfl := Option.some.inj hr₁
      rw [hq.2] at hst₁
      cases hst₁
    · cases hid
    · cases hid
  · rintro ⟨u, c, hn, r', hr', hst⟩
    have hch := applyUpdate_request ha hs u c id
    rw [hr'] at hch
    generalize hb : j.state.request? u c id = before at hch
    cases hch with
    | same => exact absurd ⟨r', hb, hst⟩ hn
    | created a info _ _ _ _ => cases hst
    | voted r _ d confirmed hbody hu hc hi hd =>
      subst hu hc hi
      obtain ⟨r₁, r₁', confirmed₁, hr₁, hd₁, -, hres⟩ := applyUpdate_decision ha hbody
      rw [hb] at hr₁
      obtain rfl := Option.some.inj hr₁
      rw [hd] at hd₁
      obtain ⟨rfl, rfl⟩ := Prod.mk.inj (Except.ok.inj hd₁)
      rcases applyDecision_status hd with ⟨-, -, hid⟩ | ⟨-, hst', -⟩ | ⟨-, -, ⟨n, hst'⟩, -⟩
      · rw [hres, hid, Option.map_some, hf.id hb]
      · rw [hst'] at hst
        cases hst
      · rw [hst'] at hst
        cases hst
    | completed r info _ _ => cases hst
    | nodeRejected r info _ _ => cases hst
    | canceled r tx _ _ => cases hst

/-- The ids answered as confirmed, after one more row. -/
theorem confirmed_store {res : Option UpdateResult}
    (hrows : j'.rows = j.rows ++ [{ update := up, oracle := o, result := res }]) :
    j'.confirmed = j.confirmed ++ (Row.confirmed? { update := up, oracle := o, result := res }).toList := by
  rw [Journal.confirmed, Journal.confirmed, hrows, List.filterMap_append]
  cases hq : Row.confirmed? { update := up, oracle := o, result := res } <;> simp [hq]

/-- An id that was answered as confirmed was answered once, and its request is not in progress any more. -/
structure ConfirmedOnce (j : Journal) : Prop where
  nodup : j.confirmed.Nodup
  decided : ∀ id ∈ j.confirmed, id ∈ j.requests.map (·.id) ∧
    ∀ u c r n, j.state.request? u c id = some r → r.status ≠ .inProgress n

/-- (step) -/
theorem ConfirmedOnce.store (hf : j.Filed) (hc : j.ConfirmedOnce) (hp : j.Fresh (o, up)) (h : j.store o up = some j') :
    j'.ConfirmedOnce := by
  obtain ⟨res, ha, hrows⟩ := store_eq_some h
  have hreq : ∀ id, id ∈ j.requests.map (·.id) → id ∈ j'.requests.map (·.id) := fun id hm => mem_store h hm
  -- what was decided stays decided
  have hold : ∀ id ∈ j.confirmed, ∀ u c r n, j'.state.request? u c id = some r → r.status ≠ .inProgress n := by
    intro id hid u c r' n hr'
    have hch := applyUpdate_request ha hp.1 u c id
    rw [hr'] at hch
    generalize hb : j.state.request? u c id = before at hch
    cases hch with
    | same => exact (hc.decided id hid).2 u c r' n hb
    | created a info hbody hi _ _ =>
      have hnew := hp.2.1 (.ofInfo up.created info) (by simp [StateUpdate.request?, hbody])
      exact absurd (hc.decided id hid).1 (by rw [← hi]; exact hnew)
    | voted r _ d confirmed _ _ _ _ hd =>
      obtain ⟨n', hst, -⟩ := applyDecision_eq_ok hd
      exact absurd hst ((hc.decided id hid).2 u c r n' hb)
    | completed r info _ _ => exact fun hst => by cases hst
    | nodeRejected r info _ _ => exact fun hst => by cases hst
    | canceled r tx _ _ => exact fun hst => by cases hst
  have hconf := confirmed_store hrows
  cases hq : Row.confirmed? { update := up, oracle := o, result := res } with
  | none =>
    rw [hq, Option.toList_none, List.append_nil] at hconf
    exact ⟨hconf ▸ hc.nodup, fun id hid => ⟨hreq id (hc.decided id (hconf ▸ hid)).1, hold id (hconf ▸ hid)⟩⟩
  | some id =>
    rw [hq, Option.toList_some] at hconf
    obtain rfl : res = some (.withdrawConfirmed id) := by
      cases res with
      | none => cases hq
      | some x =>
        cases x with
        | withdrawConfirmed id' => rw [show id' = id from Option.some.inj hq]
        | withdrawalUnderlimit r => cases hq
    -- the request was in progress before, so its id was not answered yet
    rcases applyUpdate_result ha with ⟨info, -, -, hres⟩ | ⟨d, r, r', id', -, hr, hd, hr', hres⟩
    · cases hres
    obtain rfl := UpdateResult.withdrawConfirmed.inj hres
    rcases applyDecision_status hd with ⟨hquorum, hst, hid⟩ | ⟨-, -, hid⟩ | ⟨-, -, -, hid⟩
    · have hi : id = d.requestId := (Option.some.inj hid).trans (hf.id hr)
      subst hi
      have hnew : d.requestId ∉ j.confirmed := fun hm => (hc.decided _ hm).2 _ _ r _ hr hquorum.2
      refine ⟨?_, ?_⟩
      · rw [hconf]
        exact List.Nodup.append hc.nodup (List.nodup_singleton _) (by simpa using hnew)
      · intro id hm
        rw [hconf] at hm
        rcases List.mem_append.mp hm with hm | hm
        · exact ⟨hreq id (hc.decided id hm).1, hold id hm⟩
        · obtain rfl := List.mem_singleton.mp hm
          refine ⟨hreq _ (hf.mem hr), fun u c r₁ n hr₁ => ?_⟩
          obtain ⟨-, -, rfl⟩ := (hf.store hp h).unique hr₁ hr'
          rw [hst]
          exact fun hc => by cases hc
    · cases hid
    · cases hid

theorem confirmedOnce_of_reachable {P : Journal → Oracle × StateUpdate → Prop} (hP : ∀ j a, P j a → j.Fresh a)
    (h : machine.Reachable P j) : j.ConfirmedOnce := by
  refine h.invariant ?_ ?_
  · rintro _ ⟨now, genesisHash, rfl⟩
    exact ⟨List.nodup_nil, fun id hid => by cases hid⟩
  · intro j a j' hj hc hp hs
    exact hc.store (filed_of_reachable hP hj) (hP j a hp) hs

end Journal

end Hexstody
