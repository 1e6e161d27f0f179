import Hexstody.Handlers
import Hexstody.Theorems.Settlement
import Hexstody.Theorems.SignatureCount
import Hexstody.Lemmas.Tally

/-!
# The hot wallet and the BTC module agree on what is confirmed

The State counts votes as they come, by a score; the BTC module counts the signatures that the hot wallet sends it, of a text that
it puts together itself. When each vote passed the operators' guard with what the operators are shown of its request
(`GuardedStep`), every stored vote is a valid signature in the sense of the BTC module too (`SignedVotes`), and a confirmed request
has two more confirmations than rejections up to a multiple of 2^16, at any later time (`ConfirmedScore`). So the two agree but
for the wrapping of the 16-bit counters of the BTC module, which the number of rejections decides (`confirmed_passes_iff`).
-/

namespace Hexstody

open WithdrawalRequest

namespace BtcModule

variable {Γ : BtcCtx} {cw : ConfirmedWithdrawal}

/-- The signatures pass the counting of `withdraw_btc`. -/
def Passes (Γ : BtcCtx) (cw : ConfirmedWithdrawal) : Prop :=
  let validConfirms := countValid Γ (signedText Γ WITHDRAWAL_CONFIRM_URI cw) cw.confirmations
  let validRejections := countValid Γ (signedText Γ WITHDRAWAL_REJECT_URI cw) cw.rejections
  validConfirms > validRejections ∧ validConfirms - validRejections ≥ Γ.cfg.minConfirmations

/-- A withdrawal that passes is sent to the node. -/
theorem withdrawBtc_of_passes (h : Passes Γ cw) : withdrawBtc Γ cw = send Γ.node Γ.cfg.network cw := if_pos h

/-- The counts of the valid signatures pass for a quorum. -/
theorem passes_iff : Passes Γ cw ↔ PassAsQuorum (validKeys Γ WITHDRAWAL_CONFIRM_URI cw cw.confirmations).length
    (validKeys Γ WITHDRAWAL_REJECT_URI cw cw.rejections).length Γ.cfg.minConfirmations := by
  unfold Passes PassAsQuorum
  dsimp only
  rw [countValid_eq, countValid_eq, ← Counting.toInt_ofNat, ← Counting.toInt_ofNat, ← Counting.toInt_ofNat_sub,
    gt_iff_lt, ge_iff_le, Int16.lt_iff_toInt_lt, Int16.le_iff_toInt_le]

/-- Where all signatures of a list are valid, all are counted. -/
theorem length_validKeys {uri : String} {sigs : List SignatureData}
    (h : ∀ sd ∈ sigs, isValid Γ (signedText Γ uri cw) sd = true) : (validKeys Γ uri cw sigs).length = sigs.length := by
  rw [validKeys, List.length_map, List.filter_eq_self.mpr h]

/-- Two more confirmations than rejections, up to a multiple of 2^16, pass for a quorum of two unless the count of the rejections
is at one of the two last values before it wraps. -/
theorem passAsQuorum_iff {m n : Nat} (h : (65536 : Int) ∣ (m : Int) - n - 2) :
    PassAsQuorum m n REQUIRED_NUMBER_OF_CONFIRMATIONS ↔ ¬(n % 65536 = 32766 ∨ n % 65536 = 32767) := by
  have hreq : REQUIRED_NUMBER_OF_CONFIRMATIONS.toInt = 2 := rfl
  unfold PassAsQuorum
  rw [hreq, Int.bmod_def, Int.bmod_def, Int.bmod_def]
  omega

end BtcModule

/-- The BTC module of an operator's hot wallet: the same signatures, the same keys, domain and way of writing a confirmation, and as
many confirmations as the State requires. -/
def Ctx.btcModule (Γ : Ctx) (node : BtcNode) (network : Network) : BtcCtx where
  verify := Γ.verify
  confirmationJson := Γ.confirmationJson
  cfg :=
    { minConfirmations := REQUIRED_NUMBER_OF_CONFIRMATIONS
      opPublicKeys := Γ.operatorPublicKeys
      hotDomain := Γ.domain
      network := network }
  node := node

/-- What the operators are shown of a request, by the endpoint that lists the requests. -/
def State.Serves (k : Clock) (s : State) (body : ConfirmationData) : Prop :=
  ∃ lowercase o name filter, ∃ w ∈ s.list k lowercase o name filter, w.confirmationData = body

/-- In a well-formed State the operators are shown each request, and nothing else. -/
theorem State.WellFormed.serves_iff {k : Clock} {s : State} (hw : s.WellFormed) {body : ConfirmationData} :
    s.Serves k body ↔ ∃ u c id r, s.request? u c id = some r ∧ (r.toApi k).confirmationData = body := by
  constructor
  · rintro ⟨lowercase, o, name, filter, w, hmem, rfl⟩
    obtain ⟨⟨id, r⟩, hr, hw'⟩ := List.mem_filterMap.mp hmem
    split at hw'
    · obtain ⟨u, c, hreq⟩ := hw.mem_withdrawalRequests.mp (AssocMap.mem_iter_iff.mp hr)
      exact ⟨u, c, id, r, hreq, by rw [Option.some.inj hw']⟩
    · cases hw'
  · rintro ⟨u, c, id, r, hr, rfl⟩
    refine ⟨(·), ⟨⟨0⟩, "", .stored, .stored, .stored⟩, r.address.currency.tickerLowercase (·), .all, r.toApi k, ?_, rfl⟩
    refine List.mem_filterMap.mpr ⟨(_, r), AssocMap.mem_iter_iff.mpr (hw.mem_withdrawalRequests.mpr ⟨u, c, hr⟩), ?_⟩
    rw [if_pos ⟨rfl, rfl⟩]

namespace Journal

variable {Γ : Ctx} {k : Clock} {j j' : Journal} {o : Oracle} {up : StateUpdate}

/-- A fresh update; if it is a decision, it passed the operators' guard, and its body is what the operators are shown of a request. -/
def GuardedStep (Γ : Ctx) (k : Clock) (j : Journal) (a : Oracle × StateUpdate) : Prop :=
  j.Fresh a ∧
    match a.2.body with
    | .withdrawalRequestDecision d => ∃ sd body, j.state.Serves k body ∧
        (Handlers.confirm Γ sd body = .ok (.withdrawalRequestDecision d) ∨
          Handlers.reject Γ sd body = .ok (.withdrawalRequestDecision d))
    | _ => True

/-- A stored vote is a valid signature, by an operator's key, of the route, of what is signed, and of a nonce. -/
def ValidVote (Γ : Ctx) (uri : String) (body : ConfirmationData) (d : WithdrawalRequestDecision) : Prop :=
  d.publicKey ∈ Γ.operatorPublicKeys ∧
    Γ.verify d.publicKey (joined [Γ.domain ++ uri, Γ.confirmationJson body, toString d.nonce]) d.signature = true

/-- The stored votes on a request are valid signatures of what is shown of it. -/
structure SignedVotes (Γ : Ctx) (k : Clock) (r : WithdrawalRequest) : Prop where
  confirmations : ∀ d ∈ r.confirmations, ValidVote Γ confirmUri (r.toApi k).confirmationData d
  rejections : ∀ d ∈ r.rejections, ValidVote Γ rejectUri (r.toApi k).confirmationData d

/-! ## The votes are signed -/

/-- What is shown of a request is what is not changed. -/
theorem confirmationData_of_sameOrder {r r' : WithdrawalRequest} (h : r.SameOrder r') :
    (r'.toApi k).confirmationData = (r.toApi k).confirmationData := by
  simp only [WithdrawalRequestApi.confirmationData, WithdrawalRequest.toApi, h.id, h.user, h.address, h.createdAt, h.amount]

/-- A decision that a handler makes is of the body, and its signature is valid. -/
theorem validVote_of_decided {uri : String} {t : WithdrawalRequestDecisionType} {sd : SignatureData}
    {body : ConfirmationData} {d : WithdrawalRequestDecisionInfo}
    (h : Handlers.decideWithdrawal Γ uri t sd body = .ok (.withdrawalRequestDecision d)) :
    d = .ofSigned body sd t (Γ.domain ++ uri) ∧ ValidVote Γ uri body (.ofInfo d) := by
  obtain ⟨hb, hv⟩ := Handlers.decideWithdrawal_eq_ok h
  obtain rfl := UpdateBody.withdrawalRequestDecision.inj hb
  exact ⟨rfl, hv⟩

/-- A decision that passed the guard is on the request that is shown, and its signature is valid. -/
theorem GuardedStep.valid {d : WithdrawalRequestDecisionInfo} (hp : j.GuardedStep Γ k (o, up)) (hw : j.state.WellFormed)
    (hb : up.body = .withdrawalRequestDecision d) {r : WithdrawalRequest}
    (hr : j.state.request? d.userId d.currency d.requestId = some r) :
    (d.decisionType = .confirm → ValidVote Γ confirmUri (r.toApi k).confirmationData (.ofInfo d)) ∧
      (d.decisionType = .reject → ValidVote Γ rejectUri (r.toApi k).confirmationData (.ofInfo d)) := by
  have hguard := hp.2
  rw [show (o, up).2.body = .withdrawalRequestDecision d from hb] at hguard
  obtain ⟨sd, body, hserves, hguard⟩ := hguard
  obtain ⟨u, c, id, r₀, hr₀, rfl⟩ := hw.serves_iff.mp hserves
  obtain ⟨hid, hu, hc⟩ := hw.request hr₀
  -- the body names the user, the currency and the id that the request is under
  have hsame : ∀ t url, d = .ofSigned (r₀.toApi k).confirmationData sd t url → r = r₀ := by
    rintro t url rfl
    have hkeys : j.state.request? r₀.user r₀.address.currency r₀.id = some r := hr
    rw [hid, hu, hc, hr₀] at hkeys
    exact (Option.some.inj hkeys).symm
  rcases hguard with hok | hok
  · obtain ⟨hd, hv⟩ := validVote_of_decided hok
    rw [hsame _ _ hd]
    exact ⟨fun _ => hv, fun ht => by rw [hd] at ht; cases ht⟩
  · obtain ⟨hd, hv⟩ := validVote_of_decided hok
    rw [hsame _ _ hd]
    exact ⟨fun ht => (by rw [hd] at ht; cases ht), fun _ => hv⟩

/-- The operators' keys are those of the guard. -/
theorem GuardedStep.freshBy {a : Oracle × StateUpdate} (hp : j.GuardedStep Γ k a) : j.FreshBy Γ.operatorPublicKeys a := by
  refine ⟨hp.1, ?_⟩
  have hguard := hp.2
  generalize a.2.body = b at hguard ⊢
  cases b with
  | withdrawalRequestDecision d =>
    obtain ⟨sd, body, -, hok | hok⟩ := hguard
    · exact (validVote_of_decided hok).2.1
    · exact (validVote_of_decided hok).2.1
  | _ => trivial

/-- A valid vote keeps the votes valid. -/
theorem SignedVotes.applyDecision {r r' : WithdrawalRequest} {d : WithdrawalRequestDecisionInfo}
    {confirmed : Option WithdrawalRequestId} (h : SignedVotes Γ k r)
    (hc : d.decisionType = .confirm → ValidVote Γ confirmUri (r.toApi k).confirmationData (.ofInfo d))
    (hr : d.decisionType = .reject → ValidVote Γ rejectUri (r.toApi k).confirmationData (.ofInfo d))
    (ha : r.applyDecision d = .ok (r', confirmed)) : SignedVotes Γ k r' := by
  have hdata := confirmationData_of_sameOrder (k := k) (applyDecision_sameOrder ha)
  obtain ⟨n, -, ⟨ht, -, rfl, -⟩ | ⟨ht, -, rfl, -⟩⟩ := applyDecision_eq_ok ha
  · constructor
    · intro v hv
      rw [hdata]
      rw [confirm_confirmations] at hv
      rcases List.mem_append.mp hv with hv | hv
      · exact h.confirmations v hv
      · rw [List.mem_singleton.mp hv]
        exact hc ht
    · intro v hv
      rw [hdata]
      rw [confirm_rejections] at hv
      split at hv
      · exact h.rejections v (List.mem_of_mem_filter hv)
      · exact h.rejections v hv
  · constructor
    · intro v hv
      rw [hdata]
      rw [reject_confirmations] at hv
      split at hv
      · exact h.confirmations v (List.mem_of_mem_filter hv)
      · exact h.confirmations v hv
    · intro v hv
      rw [hdata]
      rw [reject_rejections] at hv
      rcases List.mem_append.mp hv with hv | hv
      · exact h.rejections v hv
      · rw [List.mem_singleton.mp hv]
        exact hr ht

/-- (step) -/
theorem signedVotes_store (hv : ∀ u c i r, j.state.request? u c i = some r → SignedVotes Γ k r) (hw : j.state.WellFormed)
    (hp : j.GuardedStep Γ k (o, up)) (h : j.store o up = some j') :
    ∀ u c i r, j'.state.request? u c i = some r → SignedVotes Γ k r := by
  intro u c i r' hr'
  have hch := applyUpdate_request (store_answer h) hp.1.1 u c i
  rw [hr'] at hch
  generalize hb : j.state.request? u c i = before at hch
  cases hch with
  | same => exact hv u c i r' hb
  | created a info _ _ _ _ => exact ⟨fun d hd => (by cases hd), fun d hd => (by cases hd)⟩
  | voted r _ d confirmed hbody hu hc hi hd =>
    subst hu hc hi
    obtain ⟨hconf, hrej⟩ := hp.valid hw hbody hb
    exact (hv _ _ _ r hb).applyDecision hconf hrej hd
  | completed r info _ _ => exact ⟨(hv u c i r hb).confirmations, (hv u c i r hb).rejections⟩
  | nodeRejected r info _ _ => exact ⟨(hv u c i r hb).confirmations, (hv u c i r hb).rejections⟩
  | canceled r tx _ _ => exact ⟨(hv u c i r hb).confirmations, (hv u c i r hb).rejections⟩

/-- (run) -/
theorem signedVotes_of_reachable (h : machine.Reachable (GuardedStep Γ k) j) :
    ∀ u c i r, j.state.request? u c i = some r → SignedVotes Γ k r := by
  refine Machine.Reachable.invariant
    (I := fun j => ∀ u c i r, j.state.request? u c i = some r → SignedVotes Γ k r) h ?_ ?_
  · rintro _ ⟨now, genesisHash, rfl⟩ u c i r hr
    cases hr
  · intro j a j' hj hv hp hs
    exact signedVotes_store hv (built_of_reachable (fun _ _ hp => hp.1) hj).wellFormed hp hs

/-! ## The score of a confirmed request -/

/-- A request whose id was answered as confirmed has two more confirmations than rejections, up to a multiple of 2^16. -/
def ConfirmedScore (j : Journal) : Prop :=
  ∀ id ∈ j.confirmed, ∀ u c r, j.state.request? u c id = some r → (65536 : Int) ∣ r.score - 2

/-- (step) Nothing votes on a request that was confirmed. -/
theorem ConfirmedScore.store (hcs : j.ConfirmedScore) (hf : j.Filed) (hf' : j'.Filed) (hc : j.ConfirmedOnce)
    (hcount : ∀ {u c i r}, j'.state.request? u c i = some r → r.Counted) (hp : j.Fresh (o, up))
    (h : j.store o up = some j') : j'.ConfirmedScore := by
  obtain ⟨res, ha, hrows⟩ := store_eq_some h
  intro id hid u c r' hr'
  rw [confirmed_store hrows] at hid
  rcases List.mem_append.mp hid with hold | hnew
  · have hch := applyUpdate_request ha hp.1 u c id
    rw [hr'] at hch
    generalize hb : j.state.request? u c id = before at hch
    cases hch with
    | same => exact hcs id hold u c r' hb
    | created a info hbody hi _ _ =>
      have hfresh := hp.2.1 (.ofInfo up.created info) (by simp [StateUpdate.request?, hbody])
      exact absurd (hc.decided id hold).1 (by rw [← hi]; exact hfresh)
    | voted r _ d confirmed _ _ _ _ hd =>
      obtain ⟨n, hst, -⟩ := applyDecision_eq_ok hd
      exact absurd hst ((hc.decided id hold).2 u c r n hb)
    | completed r info _ _ => exact hcs id hold u c r hb
    | nodeRejected r info _ _ => exact hcs id hold u c r hb
    | canceled r tx _ _ => exact hcs id hold u c r hb
  · have hres : res = some (.withdrawConfirmed id) := by
      have hq := Option.mem_toList.mp hnew
      unfold Row.confirmed? at hq
      split at hq
      · rename_i id' hres
        obtain rfl := Option.some.inj hq
        exact hres
      · cases hq
    obtain ⟨u', c', -, r'', hr'', hst⟩ := (confirmed_iff hf hp.1 ha id).mp hres
    obtain ⟨rfl, rfl, rfl⟩ := hf'.unique hr' hr''
    have hscore := (hcount hr').count
    rw [hst] at hscore
    exact hscore

/-- (run) -/
theorem confirmedScore_of_reachable (h : machine.Reachable (GuardedStep Γ k) j) : j.ConfirmedScore := by
  refine Machine.Reachable.invariant (I := fun j => j.ConfirmedScore) h ?_ ?_
  · rintro _ ⟨now, genesisHash, rfl⟩ id hid
    cases hid
  · intro j a j' hj hcs hp hs
    have hfresh : ∀ j a, GuardedStep Γ k j a → j.Fresh a := fun _ _ hp => hp.1
    exact hcs.store (filed_of_reachable hfresh hj) (filed_of_reachable hfresh (.step hj hp hs))
      (confirmedOnce_of_reachable hfresh hj) (tallied_of_reachable (fun _ _ hp => hp.freshBy) (.step hj hp hs)).counted hp.1 hs

/-! ## The two counts -/

/-- The signatures that the hot wallet sends are valid for the BTC module. -/
theorem validKeys_of_signedVotes {r : WithdrawalRequest} {id : WithdrawalRequestId} (node : BtcNode) (network : Network)
    (hv : SignedVotes Γ k r) (hid : r.id = id) :
    (BtcModule.validKeys (Γ.btcModule node network) WITHDRAWAL_CONFIRM_URI (World.confirmedWithdrawal k id r)
        (World.confirmedWithdrawal k id r).confirmations).length = r.confirmKeys.length ∧
      (BtcModule.validKeys (Γ.btcModule node network) WITHDRAWAL_REJECT_URI (World.confirmedWithdrawal k id r)
        (World.confirmedWithdrawal k id r).rejections).length = r.rejectKeys.length := by
  subst hid
  constructor
  · rw [BtcModule.length_validKeys, World.confirmedWithdrawal, List.length_map, confirmKeys, List.length_map]
    intro sd hsd
    obtain ⟨d, hd, rfl⟩ := List.mem_map.mp hsd
    exact BtcModule.isValid_iff.mpr (hv.confirmations d hd)
  · rw [BtcModule.length_validKeys, World.confirmedWithdrawal, List.length_map, rejectKeys, List.length_map]
    intro sd hsd
    obtain ⟨d, hd, rfl⟩ := List.mem_map.mp hsd
    exact BtcModule.isValid_iff.mpr (hv.rejections d hd)

/-- The BTC module's count of a request that was confirmed. -/
theorem passes_confirmed_iff (h : machine.Reachable (GuardedStep Γ k) j) {id : WithdrawalRequestId} (hid : id ∈ j.confirmed)
    {u : UserId} {c : Currency} {r : WithdrawalRequest} (hr : j.state.request? u c id = some r) (node : BtcNode)
    (network : Network) : BtcModule.Passes (Γ.btcModule node network) (World.confirmedWithdrawal k id r) ↔
      ¬(r.rejections.length % 65536 = 32766 ∨ r.rejections.length % 65536 = 32767) := by
  have hf := filed_of_reachable (fun _ _ (hp : GuardedStep Γ k _ _) => hp.1) h
  obtain ⟨hconf, hrej⟩ := validKeys_of_signedVotes node network (signedVotes_of_reachable h u c id r hr) (hf.id hr)
  rw [BtcModule.passes_iff, hconf, hrej]
  have hscore := confirmedScore_of_reachable h id hid u c r hr
  rw [show r.rejections.length = r.rejectKeys.length by rw [rejectKeys, List.length_map]]
  exact BtcModule.passAsQuorum_iff hscore

/-- With fewer than 2^16 - 2 operators the count of the rejections does not come that far. -/
theorem rejections_of_few_keys (hkeys : Γ.operatorPublicKeys.length < 65534) (h : machine.Reachable (GuardedStep Γ k) j)
    {id : WithdrawalRequestId} (hid : id ∈ j.confirmed) {u : UserId} {c : Currency} {r : WithdrawalRequest}
    (hr : j.state.request? u c id = some r) :
    ¬(r.rejections.length % 65536 = 32766 ∨ r.rejections.length % 65536 = 32767) := by
  have ht := tallied_of_reachable (fun _ _ (hp : GuardedStep Γ k _ _) => hp.freshBy) h
  obtain ⟨hconf, hrej, hdisj⟩ := (ht.counted hr).distinct
  have hlen : (r.confirmKeys ++ r.rejectKeys).length ≤ Γ.operatorPublicKeys.length := by
    refine length_le_of_keys (hconf.append hrej ?_) (fun k hk => ht.keys hr k (List.mem_append.mp hk))
    exact fun k hk hk' => hdisj k hk hk'
  have hscore : (65536 : Int) ∣ r.confirmKeys.length - r.rejectKeys.length - 2 :=
    confirmedScore_of_reachable h id hid u c r hr
  rw [List.length_append] at hlen
  rw [show r.rejections.length = r.rejectKeys.length by rw [rejectKeys, List.length_map]]
  omega

/-! ## Very many operators -/

/-- A decision that passed the guard and that the vote takes is a step. -/
theorem exists_vote (h : machine.Reachable (GuardedStep Γ k) j) {u : UserId} {c : Currency} {id : WithdrawalRequestId}
    {r r' : WithdrawalRequest} (hr : j.state.request? u c id = some r) {sd : SignatureData} {d : WithdrawalRequestDecisionInfo}
    {confirmed : Option WithdrawalRequestId}
    (hok : Handlers.confirm Γ sd (r.toApi k).confirmationData = .ok (.withdrawalRequestDecision d) ∨
      Handlers.reject Γ sd (r.toApi k).confirmationData = .ok (.withdrawalRequestDecision d))
    (hd : r.applyDecision d = .ok (r', confirmed)) :
    ∃ j', machine.Reachable (GuardedStep Γ k) j' ∧ j'.state.request? u c id = some r' ∧ ∀ i ∈ confirmed, i ∈ j'.confirmed := by
  have hw := (built_of_reachable (fun _ _ (hp : GuardedStep Γ k _ _) => hp.1) h).wellFormed
  obtain ⟨hid, hu, hc⟩ := hw.request hr
  have hdata : d.userId = u ∧ d.currency = c ∧ d.requestId = id := by
    subst hid hu hc
    rcases hok with hok | hok
    · rw [(validVote_of_decided hok).1]
      exact ⟨rfl, rfl, rfl⟩
    · rw [(validVote_of_decided hok).1]
      exact ⟨rfl, rfl, rfl⟩
  obtain ⟨rfl, rfl, rfl⟩ := hdata
  let up : StateUpdate := { created := ⟨0⟩, body := .withdrawalRequestDecision d }
  have hb : up.body = .withdrawalRequestDecision d := rfl
  obtain ⟨s', happly, hr'⟩ := exists_applyUpdate_decision (o := Sample.oracle) hb hr hd
  have hstore : j.store Sample.oracle up = some { state := s', rows := j.rows ++
      [{ update := up, oracle := Sample.oracle, result := confirmed.map .withdrawConfirmed }] } := by
    rw [store, happly]
  have hp : j.GuardedStep Γ k (Sample.oracle, up) :=
    ⟨⟨fun hs => hs, fun x hx => (by cases hx), fun x hx => (by cases hx)⟩, sd, _, hw.serves_iff.mpr ⟨_, _, _, r, hr, rfl⟩, hok⟩
  refine ⟨_, .step h hp hstore, hr', ?_⟩
  rintro i hi
  rw [confirmed_store rfl]
  refine List.mem_append_right _ ?_
  rw [Option.mem_def.mp hi]
  exact List.mem_singleton_self i

end Journal

namespace Sample

/-- One of many operators, by number. -/
def opKey (n : Nat) : PublicKey := ⟨[UInt8.ofNat (n / 256), UInt8.ofNat n]⟩

/-- That many operators; their signatures are their keys. -/
def operators (count : Nat) : Ctx where
  verify k _ sig := sig.bytes == k.bytes
  domain := "domain"
  operatorPublicKeys := (List.range count).map opKey
  confirmationJson _ := "json"

def signedBy (n : Nat) : SignatureData := { signature := ⟨(opKey n).bytes⟩, nonce := 0, publicKey := opKey n }

theorem opKey_inj {m n : Nat} (hm : m < 65536) (hn : n < 65536) (h : opKey m = opKey n) : m = n := by
  have hbytes := PublicKey.mk.inj h
  simp only [List.cons.injEq, and_true] at hbytes
  have hhigh := congrArg UInt8.toNat hbytes.1
  have hlow := congrArg UInt8.toNat hbytes.2
  simp only [UInt8.toNat_ofNat'] at hhigh hlow
  omega

/-- The decision that an operator signs. -/
def opDecision (count n : Nat) (uri : String) (t : WithdrawalRequestDecisionType) (r : WithdrawalRequest) :
    WithdrawalRequestDecisionInfo :=
  .ofSigned (r.toApi clock).confirmationData (signedBy n) t ((operators count).domain ++ uri)

/-- It passes the guard. -/
theorem decide_opDecision {count n : Nat} (h : n < count) (uri : String) (t : WithdrawalRequestDecisionType)
    (r : WithdrawalRequest) :
    Handlers.decideWithdrawal (operators count) uri t (signedBy n) (r.toApi clock).confirmationData =
      .ok (.withdrawalRequestDecision (opDecision count n uri t r)) := by
  have hmem : opKey n ∈ (operators count).operatorPublicKeys := List.mem_map.mpr ⟨n, List.mem_range.mpr h, rfl⟩
  have hguard : Handlers.guardOpSignature (operators count) uri (signedBy n)
      ((operators count).confirmationJson (r.toApi clock).confirmationData) = .ok () :=
    Handlers.guardOpSignature_eq_ok_iff.mpr ⟨hmem, beq_self_eq_true _⟩
  rw [Handlers.decideWithdrawal, hguard]
  rfl

open Journal in
/-- A run in which some of the operators confirm a request of alice's, and some reject it, once each. -/
structure VotedBy (count : Nat) (confirms rejects : List Nat) (st : WithdrawalRequestStatus) (j : Journal)
    (r : WithdrawalRequest) : Prop where
  reachable : machine.Reachable (GuardedStep (operators count) clock) j
  request : j.state.request? alice .btc (uuid 7) = some r
  status : r.status = st
  confirmKeys : r.confirmKeys = confirms.map opKey
  rejectKeys : r.rejectKeys = rejects.map opKey
  known : ∀ n, n ∈ confirms ∨ n ∈ rejects → n < count

variable {count n : Nat} {cs rs : List Nat} {m : Int16} {j : Journal} {r : WithdrawalRequest}

/-- An operator who has not voted is on neither side. -/
theorem VotedBy.not_voted {st : WithdrawalRequestStatus} (hcount : count < 65536) (h : VotedBy count cs rs st j r)
    (hn : n < count) (hc : n ∉ cs) (hr : n ∉ rs) : opKey n ∉ r.confirmKeys ∧ opKey n ∉ r.rejectKeys := by
  have hnew : ∀ l : List Nat, (∀ m ∈ l, m < count) → n ∉ l → opKey n ∉ l.map opKey := by
    intro l hl hnot hm
    obtain ⟨m, hml, heq⟩ := List.mem_map.mp hm
    have hlt := hl m hml
    obtain rfl := opKey_inj (by omega) (by omega) heq
    exact hnot hml
  constructor
  · rw [h.confirmKeys]
    exact hnew cs (fun m hm => h.known m (Or.inl hm)) hc
  · rw [h.rejectKeys]
    exact hnew rs (fun m hm => h.known m (Or.inr hm)) hr

/-- One more operator confirms. -/
theorem VotedBy.confirm (hcount : count < 65536) (h : VotedBy count cs rs (.inProgress m) j r) (hn : n < count) (hc : n ∉ cs)
    (hr : n ∉ rs) : ∃ j' r', VotedBy count (cs ++ [n]) rs (if m = 1 then .confirmed else .inProgress (m + 1)) j' r' ∧
      (m = 1 → uuid 7 ∈ j'.confirmed) := by
  obtain ⟨hnc, hnr⟩ := h.not_voted hcount hn hc hr
  have hc' : ¬r.isConfirmedByKey (opKey n) = true := fun hk => hnc (isConfirmedByKey_iff.mp hk)
  have hr' : r.isRejectedByKey (opKey n) = false := Bool.eq_false_iff.mpr fun hk => hnr (isRejectedByKey_iff.mp hk)
  have hd : r.applyDecision (opDecision count n confirmUri .confirm r) =
      .ok ((r.confirm m (opDecision count n confirmUri .confirm r)).1,
        (r.confirm m (opDecision count n confirmUri .confirm r)).2) := by
    unfold applyDecision
    rw [h.status]
    exact if_neg hc'
  have hok := decide_opDecision hn confirmUri .confirm r
  generalize hdec : opDecision count n confirmUri .confirm r = d at hd hok
  have hk : d.publicKey = opKey n := hdec ▸ rfl
  obtain ⟨j', hj', hreq, hconf⟩ := Journal.exists_vote h.reachable h.request (Or.inl hok) hd
  obtain ⟨hkeys, hkeys'⟩ := confirm_lists (r := r) (n := m) (d := d)
  refine ⟨j', _, ⟨hj', hreq, ?_, ?_, ?_, ?_⟩, fun hm => ?_⟩
  · rw [confirm_status, hk, hr']
    rfl
  · rw [hkeys, hk, h.confirmKeys, List.map_append]
    rfl
  · rw [hkeys', hk, without_eq_self hnr]
    exact h.rejectKeys
  · intro x hx
    rw [List.mem_append, List.mem_singleton] at hx
    rcases hx with (hx | rfl) | hx
    · exact h.known x (Or.inl hx)
    · exact hn
    · exact h.known x (Or.inr hx)
  · refine hconf _ ?_
    have hid := (Journal.filed_of_reachable (fun _ _ (hp : Journal.GuardedStep _ _ _ _) => hp.1) h.reachable).id h.request
    rw [confirm_result, hk, hr', if_pos (show m = REQUIRED_NUMBER_OF_CONFIRMATIONS - weight false from hm), hid]
    rfl

/-- One more operator rejects. -/
theorem VotedBy.reject (hcount : count < 65536) (h : VotedBy count cs rs (.inProgress m) j r) (hm : m ≠ -1) (hn : n < count)
    (hc : n ∉ cs) (hr : n ∉ rs) : ∃ j' r', VotedBy count cs (rs ++ [n]) (.inProgress (m - 1)) j' r' := by
  obtain ⟨hnc, hnr⟩ := h.not_voted hcount hn hc hr
  have hc' : r.isConfirmedByKey (opKey n) = false := Bool.eq_false_iff.mpr fun hk => hnc (isConfirmedByKey_iff.mp hk)
  have hr' : ¬r.isRejectedByKey (opKey n) = true := fun hk => hnr (isRejectedByKey_iff.mp hk)
  have hd : r.applyDecision (opDecision count n rejectUri .reject r) =
      .ok (r.reject m (opDecision count n rejectUri .reject r), none) := by
    unfold applyDecision
    rw [h.status]
    exact if_neg hr'
  have hok := decide_opDecision hn rejectUri .reject r
  generalize hdec : opDecision count n rejectUri .reject r = d at hd hok
  have hk : d.publicKey = opKey n := hdec ▸ rfl
  obtain ⟨j', hj', hreq, -⟩ := Journal.exists_vote h.reachable h.request (Or.inr hok) hd
  obtain ⟨hkeys, hkeys'⟩ := reject_lists (r := r) (n := m) (d := d)
  refine ⟨j', _, ⟨hj', hreq, ?_, ?_, ?_, ?_⟩⟩
  · rw [reject_status, hk, hc', if_neg (show ¬m = weight false - REQUIRED_NUMBER_OF_CONFIRMATIONS from hm)]
    rfl
  · rw [hkeys', hk, without_eq_self hnc]
    exact h.confirmKeys
  · rw [hkeys, hk, h.rejectKeys, List.map_append]
    rfl
  · intro x hx
    rw [List.mem_append, List.mem_singleton] at hx
    rcases hx with hx | hx | rfl
    · exact h.known x (Or.inl hx)
    · exact h.known x (Or.inr hx)
    · exact hn

/-- The request, before the first vote. -/
theorem exists_votedBy_none (count : Nat) : ∃ j r, VotedBy count [] [] (.inProgress 0) j r := by
  obtain ⟨j, hj, hq⟩ := Machine.exists_reachable (M := Journal.machine) (P := fun j a => j.Fresh a ∧ a.2.decision? = none)
    (signup ++ [upd 3 (.createWithdrawalRequest (request 7 100 .overLimit))])
    (q := fun j => j.state.request? alice .btc (uuid 7) == some (.ofInfo ⟨3⟩ (request 7 100 .overLimit)))
    start_init (by decide)
  refine ⟨j, _, ⟨hj.mono ?_, eq_of_beq hq, rfl, rfl, rfl, fun n hn => (by rcases hn with hn | hn <;> cases hn)⟩⟩
  rintro j a ⟨hfresh, hdec⟩
  refine ⟨hfresh, ?_⟩
  unfold StateUpdate.decision? at hdec
  generalize a.2.body = b at hdec ⊢
  cases b with
  | withdrawalRequestDecision d => cases hdec
  | _ => trivial

/-- Operators confirm and reject in turn, any number of times. -/
theorem exists_votedBy_turns (hcount : count < 65536) (n : Nat) (hn : 2 * n ≤ count) : ∃ j r,
    VotedBy count ((List.range n).map (2 * ·)) ((List.range n).map (2 * · + 1)) (.inProgress 0) j r := by
  induction n with
  | zero => exact exists_votedBy_none count
  | succ n ih =>
    obtain ⟨j, r, h⟩ := ih (by omega)
    obtain ⟨j₁, r₁, h₁, -⟩ := h.confirm hcount (n := 2 * n) (by omega) (by simp) (by simp; omega)
    obtain ⟨j₂, r₂, h₂⟩ := h₁.reject hcount (n := 2 * n + 1) (by decide) (by omega) (by simp; omega) (by simp)
    refine ⟨j₂, r₂, ?_⟩
    rw [List.range_succ, List.map_append, List.map_append]
    exact h₂

/-- Operators confirm and reject in turn, and two more confirm. -/
theorem exists_confirmed_after (count : Nat) (hcount : count < 65536) (n : Nat) (hn : 2 * n + 2 ≤ count) : ∃ j r,
    VotedBy count ((List.range n).map (2 * ·) ++ [2 * n] ++ [2 * n + 1]) ((List.range n).map (2 * · + 1)) .confirmed j r ∧
      uuid 7 ∈ j.confirmed := by
  obtain ⟨j, r, h⟩ := exists_votedBy_turns hcount n (by omega)
  obtain ⟨j₁, r₁, h₁, -⟩ := h.confirm hcount (n := 2 * n) (by omega) (by simp) (by simp; omega)
  obtain ⟨j₂, r₂, h₂, hconf⟩ := h₁.confirm hcount (n := 2 * n + 1) (by omega) (by simp; omega) (by simp)
  exact ⟨j₂, r₂, h₂, hconf rfl⟩

end Sample

namespace Journal

variable {Γ : Ctx} {k : Clock} {j : Journal} {o : Oracle}

/-- In every run whose decisions passed the guard, and at any time after a request is confirmed, the withdrawal that the hot
wallet makes of it passes the counting of the BTC module, unless the number of rejections is at one of the two last values before
the count of them wraps; with fewer than 2^16 - 2 operators it is always sent to the node. -/
theorem confirmed_passes_iff (h : machine.Reachable (GuardedStep Γ k) j) {id : WithdrawalRequestId} (hid : id ∈ j.confirmed)
    {r : WithdrawalRequest} (hr : j.state.getWithdrawalRequest o id = some r) (node : BtcNode) (network : Network) :
    World.taken k j.state o (.withdrawConfirmed id) = some (id, World.payCall k id r) ∧
      (BtcModule.Passes (Γ.btcModule node network) (World.confirmedWithdrawal k id r) ↔
        ¬(r.rejections.length % 65536 = 32766 ∨ r.rejections.length % 65536 = 32767)) ∧
      (Γ.operatorPublicKeys.length < 65534 →
        BtcModule.withdrawBtc (Γ.btcModule node network) (World.confirmedWithdrawal k id r) =
          BtcModule.send node network (World.confirmedWithdrawal k id r)) := by
  obtain ⟨u, c, hreq⟩ := State.getWithdrawalRequest_eq_some hr
  have hiff := passes_confirmed_iff h hid hreq node network
  refine ⟨?_, hiff, fun hkeys => ?_⟩
  · rw [World.taken, hr]
    rfl
  · exact BtcModule.withdrawBtc_of_passes (hiff.mpr (rejections_of_few_keys hkeys h hid hreq))

/-- The request that is under an id is found by it. -/
theorem Filed.getWithdrawalRequest (hf : j.Filed) {u : UserId} {c : Currency} {id : WithdrawalRequestId}
    {r : WithdrawalRequest} (hr : j.state.request? u c id = some r) : j.state.getWithdrawalRequest o id = some r := by
  obtain ⟨r', hr'⟩ := Option.ne_none_iff_exists'.mp (State.getWithdrawalRequest_ne_none (o := o) hr)
  obtain ⟨u', c', hreq⟩ := State.getWithdrawalRequest_eq_some hr'
  obtain ⟨rfl, rfl, rfl⟩ := hf.unique hr hreq
  exact hr'

/-- Two operators of three confirm a request; what is sent of it passes the counting of the BTC module. -/
theorem confirmed_passes_two : ∃ (j : Journal) (r : WithdrawalRequest), Sample.uuid 7 ∈ j.confirmed ∧ r.confirmations.length = 2 ∧
    (BtcModule.Passes ((Sample.operators 3).btcModule BtcModule.twoOperators.node .bitcoin)
      (World.confirmedWithdrawal Sample.clock (Sample.uuid 7) r) ↔
        ¬(r.rejections.length % 65536 = 32766 ∨ r.rejections.length % 65536 = 32767)) ∧
    BtcModule.withdrawBtc ((Sample.operators 3).btcModule BtcModule.twoOperators.node .bitcoin)
      (World.confirmedWithdrawal Sample.clock (Sample.uuid 7) r) =
        BtcModule.send BtcModule.twoOperators.node .bitcoin (World.confirmedWithdrawal Sample.clock (Sample.uuid 7) r) := by
  obtain ⟨j, r, h, hid⟩ := Sample.exists_confirmed_after 3 (by decide) 0 (by decide)
  have hf := filed_of_reachable (fun _ _ (hp : GuardedStep _ _ _ _) => hp.1) h.reachable
  have hlen : r.confirmations.length = 2 := by
    have hkeys := congrArg List.length h.confirmKeys
    simpa [confirmKeys] using hkeys
  obtain ⟨-, hiff, hfew⟩ := confirmed_passes_iff h.reachable hid (hf.getWithdrawalRequest (o := Sample.oracle) h.request)
    BtcModule.twoOperators.node .bitcoin
  exact ⟨j, r, hid, hlen, hiff, hfew (by decide)⟩

/-- With 2^16 - 2 operators, who confirm and reject in turn until two more confirm, the confirmed request is refused. -/
theorem confirmed_refused : ¬∀ (Γ : Ctx) (k : Clock) (j : Journal) (o : Oracle) (id : WithdrawalRequestId) (r : WithdrawalRequest)
    (node : BtcNode) (network : Network), machine.Reachable (GuardedStep Γ k) j → id ∈ j.confirmed →
      j.state.getWithdrawalRequest o id = some r →
        BtcModule.Passes (Γ.btcModule node network) (World.confirmedWithdrawal k id r) := by
  intro hall
  obtain ⟨j, r, h, hid⟩ := Sample.exists_confirmed_after 65534 (by decide) 32766 (by decide)
  have hf := filed_of_reachable (fun _ _ (hp : GuardedStep _ _ _ _) => hp.1) h.reachable
  have hpass := hall _ _ j Sample.oracle _ r BtcModule.twoOperators.node .bitcoin h.reachable hid
    (hf.getWithdrawalRequest h.request)
  have hlen : r.rejections.length = 32766 := by
    have hkeys := congrArg List.length h.rejectKeys
    rw [rejectKeys, List.length_map, List.length_map, List.length_map, List.length_range] at hkeys
    exact hkeys
  exact (passes_confirmed_iff h.reachable hid h.request _ _).mp hpass (Or.inl (by rw [hlen]))

end Journal

end Hexstody
