import Hexstody.Handlers
import Hexstody.Lemmas.Tally
import Hexstody.Lemmas.World

/-!
# Who authorises a payment

A payment that `update_results_worker` makes is ordered by a result, and a result is answered by an update: the vote that
confirms a request, by operators as the guard of their handlers admits no one else, or the creation of a request under the
limit. So the request is in the State when it is paid, as it was ordered, and it is authorised. One handler pays by itself,
without a request; in every run in which it is not used, every payment is authorised (`paid_with_authorisation`).
-/

namespace Hexstody

open WithdrawalRequest

/-- The call pays what the request asks for: the amount, to the address, for the user. -/
def PayCall.Pays (r : WithdrawalRequest) : PayCall → Prop
  | .withdrawBtc cw => cw.id = r.id ∧ cw.user = r.user ∧ cw.address = r.address ∧ cw.amount = r.amount
  | .withdrawUnderLimit cw => cw.id = r.id ∧ cw.user = r.user ∧ cw.address = r.address ∧ cw.amount = r.amount
  | .sendTx user addr amount =>
    user = r.user ∧ (∃ a, r.address = .eth a ∧ addr = a.account) ∧ amount = toString r.amount
  | .sendTxErc20 user addr contract amount =>
    user = r.user ∧ (∃ a, r.address = .erc20 a ∧ addr = a.account.account ∧ contract = a.token.contract) ∧
      amount = toString r.amount

/-- A request may be paid: operators confirmed it, which the State answered when it set the status, and the keys that confirm
it outnumber those that reject it by the quorum; or it is under the limit. -/
inductive Journal.Authorised (keys : List PublicKey) (j : Journal) (r : WithdrawalRequest) : Prop where
  | byOperators : r.id ∈ j.confirmed → r.Distinct → (∀ k, k ∈ r.confirmKeys ∨ k ∈ r.rejectKeys → k ∈ keys) →
      REQUIRED_NUMBER_OF_CONFIRMATIONS.toInt ≤ r.score → Authorised keys j r
  | byLimit : r.requestType = .underLimit → Authorised keys j r

/-- A decision is by one of the keys, and a request under the limit is in bitcoins. -/
def StateUpdate.Guarded (keys : List PublicKey) (u : StateUpdate) : Prop :=
  match u.body with
  | .createWithdrawalRequest info => info.requestType = .underLimit → info.address.currency = .btc
  | .withdrawalRequestDecision d => d.publicKey ∈ keys
  | _ => True

namespace Journal

variable {j j' : Journal} {o : Oracle} {up : StateUpdate} {keys : List PublicKey}

theorem freshBy_of_guarded (hf : j.Fresh (o, up)) (hg : up.Guarded keys) : j.FreshBy keys (o, up) := by
  refine ⟨hf, ?_⟩
  unfold StateUpdate.Guarded at hg
  cases hb : up.body with
  | withdrawalRequestDecision d =>
    rw [hb] at hg
    exact hg
  | _ => trivial

/-! ## The quorum of a confirmed request -/

/-- A request that was answered as confirmed has the score of the quorum, up to wrapping. -/
def Quorate (j : Journal) : Prop :=
  ∀ id ∈ j.confirmed, ∀ u c r, j.state.request? u c id = some r → (65536 : Int) ∣ r.score - 2

/-- (step) -/
theorem Quorate.store (hq : j.Quorate) (hf : j.Filed) (hc : j.ConfirmedOnce) (ht : j.Tallied keys)
    (hp : j.FreshBy keys (o, up)) (h : j.store o up = some j') : j'.Quorate := by
  obtain ⟨res, ha, hrows⟩ := store_eq_some h
  intro id hid u c r' hr'
  rw [confirmed_store hrows] at hid
  rcases List.mem_append.mp hid with hid | hid
  · -- an id answered before: no vote changes the score any more
    have hch := applyUpdate_request ha hp.1.1 u c id
    rw [hr'] at hch
    generalize hb : j.state.request? u c id = before at hch
    cases hch with
    | same => exact hq id hid u c r' hb
    | created a info hbody hi _ _ =>
      have hnew := hp.1.2.1 (.ofInfo up.created info) (by simp [StateUpdate.request?, hbody])
      exact absurd (hc.decided id hid).1 (by rw [← hi]; exact hnew)
    | voted r _ d confirmed _ _ _ _ hd =>
      obtain ⟨n, hst, -⟩ := applyDecision_eq_ok hd
      exact absurd hst ((hc.decided id hid).2 u c r n hb)
    | completed r info _ _ => exact hq id hid u c r hb
    | nodeRejected r info _ _ => exact hq id hid u c r hb
    | canceled r tx _ _ => exact hq id hid u c r hb
  · -- the id answered now: the vote confirmed the request
    have hres : res = some (.withdrawConfirmed id) := by
      cases res with
      | none => cases hid
      | some x =>
        cases x with
        | withdrawConfirmed id' => rw [show id = id' from List.mem_singleton.mp hid]
        | withdrawalUnderlimit r => cases hid
    rw [hres] at ha
    obtain ⟨u₁, c₁, -, r₁, hr₁, hst₁⟩ := (confirmed_iff hf hp.1.1 ha id).mp rfl
    obtain ⟨-, -, rfl⟩ := (hf.store hp.1 h).unique hr' hr₁
    have hcount := ((ht.store hp h).counted hr').count
    rw [hst₁] at hcount
    exact hcount

/-! ## The requests under the limit -/

/-- Every request under the limit that was created is in the State, in bitcoins. -/
def UnderLimitKept (j : Journal) : Prop :=
  ∀ r₀ ∈ j.requests, r₀.requestType = .underLimit →
    r₀.address.currency = .btc ∧ ∃ r, j.state.request? r₀.user .btc r₀.id = some r ∧ r₀.SameOrder r

/-- (step) -/
theorem UnderLimitKept.store (hk : j.UnderLimitKept) (hp : j.Fresh (o, up)) (hg : up.Guarded keys)
    (h : j.store o up = some j') : j'.UnderLimitKept := by
  obtain ⟨res, ha, -⟩ := store_eq_some h
  intro r₀ hr₀ hty
  rw [requests_store h] at hr₀
  rcases List.mem_append.mp hr₀ with hr₀ | hr₀
  · obtain ⟨hbtc, r, hr, hsame⟩ := hk r₀ hr₀ hty
    refine ⟨hbtc, ?_⟩
    have hch := applyUpdate_request ha hp.1 r₀.user .btc r₀.id
    rw [hr] at hch
    generalize hb : j'.state.request? r₀.user .btc r₀.id = after at hch
    cases hch with
    | same => exact ⟨r, rfl, hsame⟩
    | dropped _ token hc => cases hc
    | created a info hbody hi _ _ =>
      have hnew := hp.2.1 (.ofInfo up.created info) (by simp [StateUpdate.request?, hbody])
      have hold : r₀.id ∈ j.requests.map (·.id) := List.mem_map_of_mem hr₀
      rw [← hi] at hold
      exact absurd hold hnew
    | voted _ r' d confirmed _ _ _ _ hd => exact ⟨r', rfl, hsame.trans (applyDecision_sameOrder hd)⟩
    | completed _ info _ _ => exact ⟨_, rfl, hsame.trans (sameOrder_status _ _)⟩
    | nodeRejected _ info _ _ => exact ⟨_, rfl, hsame.trans (sameOrder_status _ _)⟩
    | canceled _ tx _ _ => exact ⟨_, rfl, hsame.trans (sameOrder_status _ _)⟩
  · unfold StateUpdate.Guarded at hg
    cases hb : up.body with
    | createWithdrawalRequest info =>
      simp only [hb] at hg
      simp only [StateUpdate.request?, hb, Option.toList_some, List.mem_singleton] at hr₀
      subst hr₀
      have hbtc := hg hty
      have hr' := (applyUpdate_create ha hb).2.1
      rw [hbtc] at hr'
      exact ⟨hbtc, _, hr', .refl _⟩
    | _ => simp [StateUpdate.request?, hb] at hr₀

end Journal

namespace World

variable {Γ : Ctx} {k : Clock} {w w' : World} {a : Action HandlerCall} {keys : List PublicKey}

/-- The step is no payment that a handler makes by itself. -/
def NoDirectPayment {ι : Type} (_ : World) (a : Action ι) : Prop :=
  match a with
  | .withdrawEth .. => False
  | _ => True

instance {ι : Type} (w : World) (a : Action ι) : Decidable (w.NoDirectPayment a) := by
  unfold NoDirectPayment
  cases a <;> exact inferInstance

/-! ## What is on its way -/

/-- What is on its way to the update worker is guarded, and every result on its way was answered by a row. -/
structure Traced (keys : List PublicKey) (w : World) : Prop where
  pending : ∀ u ∈ w.pending, u.Guarded keys
  updates : ∀ u ∈ w.updates, u.Guarded keys
  confirmed : ∀ id, .withdrawConfirmed id ∈ w.results → id ∈ w.journal.confirmed
  underLimit : ∀ r, .withdrawalUnderlimit r ∈ w.results → r ∈ w.journal.requests ∧ r.requestType = .underLimit

/-- What the handlers send is guarded: a decision goes through the operators' guard, and only a withdrawal in bitcoins may be
under the limit. -/
theorem handler_guarded {s : State} {call : HandlerCall} {b : UpdateBody} {t : NaiveDateTime}
    (h : (hotWallet Γ).handle s call = some b) :
    StateUpdate.Guarded Γ.operatorPublicKeys { created := t, body := b } := by
  rcases HandlerCall.handle_eq_ok (HandlerCall.update?_eq_some h) with ⟨info, rfl, hty⟩ | ⟨d, rfl, hk⟩ | ⟨upd, rfl⟩ | hother
  · exact hty
  · exact hk
  · trivial
  · cases b with
    | createWithdrawalRequest info => cases hother
    | withdrawalRequestDecision d => cases hother
    | _ => trivial

theorem settles_guarded {u : StateUpdate} (h : Settles u) : u.Guarded keys := by
  unfold StateUpdate.Guarded
  rcases h with ⟨info, hb⟩ | ⟨info, hb⟩ <;> rw [hb] <;> trivial

/-- What a stored update answers is traced to its row. -/
theorem answer_traced {o : Oracle} {u : StateUpdate} {j : Journal} (hj : w.journal.store o u = some j) :
    (∀ id, j.answer = some (.withdrawConfirmed id) → id ∈ j.confirmed) ∧
      ∀ r, j.answer = some (.withdrawalUnderlimit r) → r ∈ j.requests ∧ r.requestType = .underLimit := by
  have ha := Journal.store_answer hj
  obtain ⟨res, ha', hrows⟩ := Journal.store_eq_some hj
  have hres : j.answer = res := Except.ok.inj (Prod.mk.inj (ha.symm.trans ha')).2
  refine ⟨fun id hid => ?_, fun r hr => ?_⟩
  · rw [Journal.confirmed_store hrows, ← hres, hid]
    exact List.mem_append_right _ (List.mem_singleton.mpr rfl)
  · rw [hr] at ha
    rcases applyUpdate_result ha with ⟨info, hb, hty, hx⟩ | ⟨d, r₁, r₂, id, -, -, -, -, hx⟩
    · obtain rfl := UpdateResult.withdrawalUnderlimit.inj hx
      rw [Journal.requests_store hj]
      exact ⟨List.mem_append_right _ (by simp [StateUpdate.request?, hb]), hty⟩
    · cases hx

/-- (step) -/
theorem Traced.step (h : w.Traced Γ.operatorPublicKeys) (hi : w.Issued) (hs : Step (hotWallet Γ) k w a w') :
    w'.Traced Γ.operatorPublicKeys := by
  cases hs with
  | requested i created b hb hnew =>
    refine ⟨fun u hu => ?_, h.updates, h.confirmed, h.underLimit⟩
    rcases List.mem_append.mp hu with hu | hu
    · exact h.pending u hu
    · rw [List.mem_singleton.mp hu]
      exact handler_guarded hb
  | delivered n u hu =>
    refine ⟨fun v hv => h.pending v (List.mem_of_mem_eraseIdx hv), fun v hv => ?_, h.confirmed, h.underLimit⟩
    rcases List.mem_append.mp hv with hv | hv
    · exact h.updates v hv
    · rw [List.mem_singleton.mp hv]
      exact h.pending u (List.mem_of_getElem? hu)
  | applied o u us j hu hj =>
    obtain ⟨res, -, hrows⟩ := Journal.store_eq_some hj
    obtain ⟨hconf, hunder⟩ := answer_traced hj
    refine ⟨h.pending, fun v hv => h.updates v (by rw [hu]; exact List.mem_cons_of_mem _ hv), fun id hid => ?_,
      fun r hr => ?_⟩
    · rcases List.mem_append.mp hid with hid | hid
      · change id ∈ j.confirmed
        rw [Journal.confirmed_store hrows]
        exact List.mem_append_left _ (h.confirmed id hid)
      · exact hconf id (Option.mem_toList.mp hid)
    · rcases List.mem_append.mp hr with hr | hr
      · obtain ⟨hm, hty⟩ := h.underLimit r hr
        refine ⟨?_, hty⟩
        change r ∈ j.requests
        rw [Journal.requests_store hj]
        exact List.mem_append_left _ hm
      · exact hunder r (Option.mem_toList.mp hr)
  | dropped o stored u us hu =>
    exact ⟨h.pending, fun v hv => h.updates v (by rw [hu]; exact List.mem_cons_of_mem _ hv), h.confirmed, h.underLimit⟩
  | took o r rs id call hw hr ht =>
    exact ⟨h.pending, h.updates, fun id' hid => h.confirmed id' (by rw [hr]; exact List.mem_cons_of_mem _ hid),
      fun r' hr' => h.underLimit r' (by rw [hr]; exact List.mem_cons_of_mem _ hr')⟩
  | skipped o r rs hw hr ht =>
    exact ⟨h.pending, h.updates, fun id' hid => h.confirmed id' (by rw [hr]; exact List.mem_cons_of_mem _ hid),
      fun r' hr' => h.underLimit r' (by rw [hr]; exact List.mem_cons_of_mem _ hr')⟩
  | returned id call reply now wk hw ha => exact ⟨h.pending, h.updates, h.confirmed, h.underLimit⟩
  | sent u hw =>
    refine ⟨h.pending, fun v hv => ?_, h.confirmed, h.underLimit⟩
    rcases List.mem_append.mp hv with hv | hv
    · exact h.updates v hv
    · rw [List.mem_singleton.mp hv]
      exact settles_guarded (hi.sending u hw)
  | paidEth user addr amount hu => exact ⟨h.pending, h.updates, h.confirmed, h.underLimit⟩

theorem traced_of_reachable {P : World → Action HandlerCall → Prop} (h : (machine (hotWallet Γ) k).Reachable P w) :
    w.Traced Γ.operatorPublicKeys := by
  refine h.invariant ?_ ?_
  · rintro _ ⟨now, genesisHash, rfl⟩
    exact ⟨fun u hu => (by cases hu), fun u hu => (by cases hu), fun id hid => (by cases hid), fun r hr => (by cases hr)⟩
  · intro w a w' hw ht _ hs
    exact ht.step (issued_of_reachable hw) (step_eq_some hs)

/-! ## What holds of the journal -/

/-- What the authorisation of a payment rests on. -/
structure Evidence (keys : List PublicKey) (j : Journal) : Prop where
  filed : j.Filed
  tallied : j.Tallied keys
  quorate : j.Quorate
  kept : j.UnderLimitKept

theorem evidence_of_reachable {P : World → Action HandlerCall → Prop} (h : (machine (hotWallet Γ) k).Reachable P w) :
    Evidence Γ.operatorPublicKeys w.journal := by
  have hreach : Journal.machine.Reachable
      (fun j a => j.Fresh a ∧ a.2.Guarded Γ.operatorPublicKeys) w.journal := by
    refine journal_reachable (Q := fun _ a => a.2.Guarded Γ.operatorPublicKeys) h ?_
    intro w o u us j hw _ hu _
    exact (traced_of_reachable hw).updates u (by rw [hu]; exact List.mem_cons_self)
  have hby : ∀ (j : Journal) (a : Oracle × StateUpdate), j.Fresh a ∧ a.2.Guarded Γ.operatorPublicKeys → j.FreshBy Γ.operatorPublicKeys a :=
    fun j a hp => Journal.freshBy_of_guarded hp.1 hp.2
  refine ⟨Journal.filed_of_reachable (fun j a hp => hp.1) hreach, Journal.tallied_of_reachable hby hreach, ?_, ?_⟩
  · refine hreach.invariant ?_ ?_
    · rintro _ ⟨now, genesisHash, rfl⟩
      exact fun id hid => by cases hid
    · intro j a j' hj hq hp hs
      exact hq.store (Journal.filed_of_reachable (fun j a hp => hp.1) hj)
        (Journal.confirmedOnce_of_reachable (fun j a hp => hp.1) hj) (Journal.tallied_of_reachable hby hj) (hby j a hp) hs
  · refine hreach.invariant ?_ ?_
    · rintro _ ⟨now, genesisHash, rfl⟩
      exact fun r hr => by cases hr
    · intro j a j' _ hk hp hs
      exact hk.store hp.1 hp.2 hs

/-! ## Payments -/

/-- The call for a confirmed request pays what the request asks for. -/
theorem payCall_pays {id : WithdrawalRequestId} {r : WithdrawalRequest} (hid : r.id = id) : (payCall k id r).Pays r := by
  unfold payCall
  cases ha : r.address with
  | btc a => exact ⟨hid.symm, rfl, rfl, rfl⟩
  | eth a => exact ⟨rfl, ⟨a, ha, rfl⟩, rfl⟩
  | erc20 a => exact ⟨rfl, ⟨a, ha, rfl, rfl⟩, rfl⟩

/-- The quorum of fewer than 2^16 - 2 keys is the quorum: the count cannot come round to it. -/
theorem quorum_of_dvd {r : WithdrawalRequest} (hlen : keys.dedup.length < 65534) (hd : r.Distinct)
    (hk : ∀ k, k ∈ r.confirmKeys ∨ k ∈ r.rejectKeys → k ∈ keys) (hq : (65536 : Int) ∣ r.score - 2) :
    REQUIRED_NUMBER_OF_CONFIRMATIONS.toInt ≤ r.score := by
  have hrej := length_le_of_keys hd.rejections (fun k hm => List.mem_dedup.mpr (hk k (Or.inr hm)))
  have hreq : REQUIRED_NUMBER_OF_CONFIRMATIONS.toInt = 2 := rfl
  unfold score at hq ⊢
  omega

/-- What the worker pays is a request that is in the State, and authorised. -/
theorem taken_authorised {o : Oracle} {x : UpdateResult} {rs : List UpdateResult} {id : WithdrawalRequestId}
    {call : PayCall} (hlen : keys.dedup.length < 65534) (ht : w.Traced keys) (he : Evidence keys w.journal)
    (hres : w.results = x :: rs) (h : taken k w.journal.state o x = some (id, call)) :
    ∃ r, w.journal.state.request? r.user r.address.currency id = some r ∧ call.Pays r ∧ w.journal.Authorised keys r := by
  have hmem : x ∈ w.results := by rw [hres]; exact List.mem_cons_self
  cases x with
  | withdrawConfirmed id' =>
    obtain ⟨r, hr, heq⟩ := Option.map_eq_some_iff.mp h
    obtain ⟨rfl, rfl⟩ := Prod.mk.inj heq
    obtain ⟨u, c, hr⟩ := State.getWithdrawalRequest_eq_some hr
    have hid := he.filed.id hr
    have hconf := ht.confirmed id' hmem
    have hdist := (he.tallied.counted hr).distinct
    have hkeys := he.tallied.keys hr
    refine ⟨r, by rw [he.filed.user hr, he.filed.currency hr]; exact hr, payCall_pays hid, ?_⟩
    exact .byOperators (hid ▸ hconf) hdist hkeys (quorum_of_dvd hlen hdist hkeys (he.quorate id' hconf u c r hr))
  | withdrawalUnderlimit wr =>
    obtain ⟨rfl, rfl⟩ := Prod.mk.inj (Option.some.inj h)
    obtain ⟨hm, hty⟩ := ht.underLimit wr hmem
    obtain ⟨hbtc, r, hr, hsame⟩ := he.kept wr hm hty
    refine ⟨r, ?_, ⟨hsame.id.symm, hsame.user.symm, hsame.address.symm, hsame.amount.symm⟩, .byLimit (hsame.requestType.trans hty)⟩
    rw [hsame.user, hsame.address, hbtc]
    exact hr

/-- Every payment that leads from one state to the next is of a request that is in the State at that moment, for its user, to
its address and of its amount, and that is authorised. -/
def PaysAuthorised (keys : List PublicKey) (w w' : World) : Prop :=
  ∃ ps, w'.payments = w.payments ++ ps ∧ ∀ p ∈ ps, ∃ r, p.request = some r.id ∧
    w.journal.state.request? r.user r.address.currency r.id = some r ∧ p.call.Pays r ∧ w.journal.Authorised keys r

/-- No payment without authorisation: in every run of the hot wallet in which no handler pays by itself, and with fewer than
2^16 - 2 operator keys, every payment of the next such step is of an authorised request. -/
theorem paid_with_authorisation (hlen : Γ.operatorPublicKeys.dedup.length < 65534)
    (h : (machine (hotWallet Γ) k).Reachable NoDirectPayment w) (hno : w.NoDirectPayment a)
    (hs : (machine (hotWallet Γ) k).step w a = some w') : PaysAuthorised Γ.operatorPublicKeys w w' := by
  have hnone : w'.payments = w.payments → PaysAuthorised Γ.operatorPublicKeys w w' := by
    intro heq
    exact ⟨[], by rw [heq, List.append_nil], fun p hp => by cases hp⟩
  cases step_eq_some hs with
  | took o x rs id call hw hres ht =>
    have he := evidence_of_reachable h
    obtain ⟨r, hr, hpays, hauth⟩ := taken_authorised hlen (traced_of_reachable h) he hres ht
    have hid := he.filed.id hr
    refine ⟨[{ request := some id, call := call }], rfl, fun p hp => ?_⟩
    obtain rfl := List.mem_singleton.mp hp
    exact ⟨r, congrArg some hid.symm, by rw [hid]; exact hr, hpays, hauth⟩
  | paidEth user addr amount hu => cases hno
  | _ => exact hnone rfl

/-- A withdrawal of alice's that two operators confirm is paid, with their authority. -/
theorem paid_with_authorisation_confirmed : ∃ w w' : World, w'.payments.length = 1 ∧
    PaysAuthorised Sample.ctx.operatorPublicKeys w w' := by
  obtain ⟨w, hw, hq⟩ := Machine.exists_reachable (P := NoDirectPayment)
    (Sample.opening 1000000 ++ Sample.done 8 (Sample.withdraw 7 1000) ++
      Sample.done 9 (.confirm (Sample.signed 1) (Sample.confirmation 7 1000)) ++
      Sample.done 10 (.confirm (Sample.signed 2) (Sample.confirmation 7 1000)))
    (q := fun w => (w.take Sample.clock Sample.oracle).any (fun w' => w'.payments.length == 1))
    Sample.world_init (by decide +kernel)
  obtain ⟨w', hs, hlen⟩ := (Option.any_eq_true _ _).mp hq
  exact ⟨w, w', by simpa using hlen,
    paid_with_authorisation (a := .take Sample.oracle) (by decide) hw trivial hs⟩

/-- Alice, who is signed in and has asked for no withdrawal, has the hot wallet pay ether from the account of another user. -/
theorem paid_without_request : ¬∀ (Γ : Ctx) (k : Clock) (w w' : World) (a : Action HandlerCall),
    Γ.operatorPublicKeys.dedup.length < 65534 → (machine (hotWallet Γ) k).Reachable Machine.anyStep w →
    (machine (hotWallet Γ) k).step w a = some w' → PaysAuthorised Γ.operatorPublicKeys w w' := by
  intro h
  obtain ⟨w, hw, hq⟩ := Machine.exists_reachable (P := Machine.anyStep) (Sample.opening 1000000)
    (q := fun w => (w.journal.state.users.get? "testlogin").isNone && w.journal.state.users.contains Sample.alice)
    Sample.world_init (by decide +kernel)
  obtain ⟨hgone, hin⟩ := (Bool.and_eq_true _ _).mp hq
  obtain ⟨ps, hps, hall⟩ := h Sample.ctx Sample.clock w _ (.withdrawEth Sample.alice "addr" "5") (by decide) hw
    (if_pos hin)
  have hmem : ({ request := none, call := .sendTx "testlogin" "addr" "5" } : Payment) ∈ ps := by
    rw [← List.append_cancel_left hps]
    exact List.mem_singleton.mpr rfl
  obtain ⟨r, -, hr, ⟨huser, -⟩, -⟩ := hall _ hmem
  rw [← huser, State.request?, State.currency?, Option.isNone_iff_eq_none.mp hgone] at hr
  cases hr

end World

end Hexstody
