import Hexstody.Lemmas.Deposits
import Hexstody.Lemmas.Replay

/-!
# When an update does the same every time

An update is applied when it comes and again at every start. Nothing of what it does may then depend on the moment: not on a
fresh identifier, not on the time of day, not on the order in which a hash map is iterated over. Here is exactly when it does
not (`State.Determined`): an accepted request of a limit change always does, for it takes its id and its time from the moment;
and a transaction's update or cancellation does where several users have the address, or the transaction completed several
withdrawals, and the choice between them shows. From it, when two collections of the same updates are equal.
-/

namespace Hexstody

/-- A moment at which a search begins at a user and at a key. -/
def Oracle.beginningAt (u : UserId) (k : WithdrawalRequestId) : Oracle where
  newId := ⟨0⟩
  now := ""
  users := .first u
  currencies := .stored
  requests := .first k

/-! ## The condition -/

namespace State

/-- The user has the address, and so has another. -/
def Shares (s : State) (u : UserId) (a : Address) : Prop := s.Owns u a ∧ ∃ u', u' ≠ u ∧ s.Owns u' a

/-- The search for the withdrawal that a transaction completed can find this id, at a user and under a key. -/
def CompletedIn (s : State) (txid : CurrencyTxId) (u : UserId) (k id : WithdrawalRequestId) : Prop :=
  ∃ i r, s.currency? u txid.currency = some i ∧ i.currency = txid.currency ∧ i.withdrawalRequests.get? k = some r ∧
    r.isCompletedBy txid = true ∧ r.id = id

/-- The search for the withdrawal that a transaction completed can find this id. -/
def CompletedAs (s : State) (txid : CurrencyTxId) (id : WithdrawalRequestId) : Prop := ∃ u k, s.CompletedIn txid u k id

/-- The requests with an id are rejected already. -/
def CanceledAlready (s : State) (id : WithdrawalRequestId) : Prop :=
  ∀ u c r, s.request? u c id = some r → r.status = .nodeRejected "Tx canceled"

/-- What an update does in the State is determined by the two. -/
def Determined (s : State) : UpdateBody → Prop
  | .limitsChangeRequest req => s.currency? req.user req.currency = none
  | .updateBtcTx tx => s.isExchangeAddress (btcAddress tx.address) = true ∨ tx.amount < 0 ∨
      ∀ u, s.Shares u tx.address → firstBtcTx? (·.isSameBtcTx tx) (s.deposits u) = some tx
  | .cancelBtcTx tx => s.isExchangeAddress (btcAddress tx.address) = true ∨
      ((∀ u, s.Shares u tx.address → firstBtcTx? (·.isSameBtcTxCancel tx) (s.deposits u) = none) ∧
        ∀ id id', s.CompletedAs (.btc { txid := tx.txid.hex }) id → s.CompletedAs (.btc { txid := tx.txid.hex }) id' →
          id ≠ id' → s.CanceledAlready id)
  | _ => True

/-- Every update of a sequence is determined in the State that it is applied to. -/
def Replayable : State → List StateUpdate → Prop
  | _, [] => True
  | s, u :: us => s.Determined u.body ∧ ∀ o s' res, s.applyUpdate o u = (s', .ok res) → s'.Replayable us

end State

/-! ## Records -/

section Records

variable {l : List Transaction} {tx : BtcTransaction} {c : BtcTxCancel}

/-- An update changes nothing exactly where the record is there already. -/
theorem recorded_eq_self_iff : recorded tx l = l ↔ firstBtcTx? (·.isSameBtcTx tx) l = some tx := by
  unfold recorded
  cases hf : firstBtcTx? (·.isSameBtcTx tx) l with
  | none =>
    rw [(firstBtcTx?_eq_none hf).1 tx]
    constructor
    · intro h
      have hlen := congrArg List.length h
      simp at hlen
    · intro h
      cases h
  | some t =>
    obtain ⟨pre, post, rfl, -, hr, -⟩ := firstBtcTx?_eq_some hf
    rw [hr tx, Option.getD_some]
    constructor
    · intro h
      obtain ⟨heq, -⟩ := List.cons.inj (List.append_cancel_left h)
      rw [Transaction.btc.inj heq]
    · intro h
      rw [Option.some.inj h]

/-- A cancellation changes nothing exactly where there is no record to remove. -/
theorem unrecorded_eq_self_iff : unrecorded c l = l ↔ firstBtcTx? (·.isSameBtcTxCancel c) l = none := by
  unfold unrecorded
  cases hf : firstBtcTx? (·.isSameBtcTxCancel c) l with
  | none =>
    rw [(firstBtcTx?_eq_none hf).2]
    exact ⟨fun _ => rfl, fun _ => rfl⟩
  | some t =>
    obtain ⟨pre, post, rfl, -, -, hd⟩ := firstBtcTx?_eq_some hf
    rw [hd, Option.getD_some]
    constructor
    · intro h
      have hlen := congrArg List.length h
      simp at hlen
    · intro h
      cases h

end Records

/-- What is collected from an outcome: the State, or the error. -/
def Outcome.after {α : Type} : Outcome α → Except StateUpdateErr State
  | (s, .ok _) => .ok s
  | (_, .error e) => .error e

namespace State

variable {s s' : State} {o o' : Oracle} {u u' : UserId} {a : Address} {txid : CurrencyTxId} {id : WithdrawalRequestId}

/-! ## The search for the owner of an address -/

/-- A search over the users that begins at an owner finds it. -/
theorem findUserAddress_first (hu : s.Owns u a) (ho : o.users = IterOrder.first u) :
    s.findUserAddress o (btcAddress a) = some u := by
  obtain ⟨user, huser, hhas⟩ := hu.hasAddress
  unfold findUserAddress
  rw [ho]
  exact AssocMap.findVal?_first huser (if_pos hhas)

/-- Whoever is found is an owner, and its account is changed. -/
theorem withDepositOwner_found (o : Oracle) (a : Address) (f : UserCurrencyInfo → UserCurrencyInfo) :
    (∃ u, s.Owns u a ∧ s.withDepositOwner o (btcAddress a) f = (s.modifyCurrency u .btc f, .ok ())) ∨
      ((∀ u, ¬s.Owns u a) ∧ s.withDepositOwner o (btcAddress a) f = (s, .ok ())) := by
  cases hf : s.findUserAddress o (btcAddress a) with
  | none =>
    exact Or.inr ⟨unowned_of_findUserAddress hf, by simp only [withDepositOwner, hf]⟩
  | some u =>
    have hu : s.Owns u a := findUserAddress_eq_some hf
    obtain ⟨i, hi, -⟩ := hu
    obtain ⟨user, huser, hc⟩ := Option.bind_eq_some_iff.mp hi
    exact Or.inl ⟨u, findUserAddress_eq_some hf, by simp only [withDepositOwner, hf, huser, hc]⟩

/-- The choice between the owners does not show where it changes nothing. -/
theorem withDepositOwner_alike {f : UserCurrencyInfo → UserCurrencyInfo}
    (h : ∀ u, s.Shares u a → s.modifyCurrency u .btc f = s) :
    s.withDepositOwner o (btcAddress a) f = s.withDepositOwner o' (btcAddress a) f := by
  obtain ⟨u, hu, heq⟩ | ⟨hnone, heq⟩ := withDepositOwner_found (s := s) o a f
  · obtain ⟨u', hu', heq'⟩ | ⟨hnone, -⟩ := withDepositOwner_found (s := s) o' a f
    · by_cases huu : u = u'
      · rw [heq, heq', huu]
      · rw [heq, heq', h u ⟨hu, u', fun hc => huu hc.symm, hu'⟩, h u' ⟨hu', u, huu, hu⟩]
    · exact absurd hu (hnone u)
  · obtain ⟨u', hu', -⟩ | ⟨-, heq'⟩ := withDepositOwner_found (s := s) o' a f
    · exact absurd hu' (hnone u')
    · rw [heq, heq']

theorem withDepositOwner_first (hu : s.Owns u a) (ho : o.users = IterOrder.first u) (f : UserCurrencyInfo → UserCurrencyInfo) :
    s.withDepositOwner o (btcAddress a) f = (s.modifyCurrency u .btc f, .ok ()) := by
  obtain ⟨i, hi, -⟩ := id hu
  obtain ⟨user, huser, hc⟩ := Option.bind_eq_some_iff.mp hi
  simp only [withDepositOwner, findUserAddress_first hu ho, huser, hc]

/-- A change of an account's transactions that leaves them as they are. -/
theorem modifyCurrency_eq_self_of_deposits {f : UserCurrencyInfo → UserCurrencyInfo}
    (hf : ∀ i, f i = { i with transactions := (f i).transactions }) {g : List Transaction → List Transaction}
    (hg : ∀ i, (f i).transactions = g i.transactions) (h : g (s.deposits u) = s.deposits u) :
    s.modifyCurrency u .btc f = s := by
  refine modifyCurrency_eq_self fun i hi => ?_
  have hdep : s.deposits u = i.transactions := by
    unfold deposits
    rw [hi]
    rfl
  rw [hf i, hg i, ← hdep, h, hdep]

/-! ## The search for the withdrawal that a transaction completed -/

/-- An id that can be found is found by the search that begins where it is. -/
theorem CompletedIn.found {k : WithdrawalRequestId} (h : s.CompletedIn txid u k id) (hou : o.users = IterOrder.first u)
    (hor : o.requests = IterOrder.first k) : s.findWithdrawalByTxId o txid = some id := by
  obtain ⟨i, r, hi, hcur, hk, hby, rfl⟩ := h
  obtain ⟨ui, hu, hc⟩ := Option.bind_eq_some_iff.mp hi
  unfold findWithdrawalByTxId
  rw [hou, hor]
  refine AssocMap.findVal?_first hu ?_
  unfold UserInfo.findCompletedRequest
  rw [hc]
  simp only
  unfold UserCurrencyInfo.findCompletedRequest
  rw [if_pos hcur.symm]
  refine AssocMap.findVal?_first hk ?_
  unfold WithdrawalRequest.isCompletedBy at hby
  cases hst : r.status with
  | completed ca txid' fee ins outs =>
    simp only [hst, decide_eq_true_eq] at hby
    simp only [hby, if_true]
  | inProgress n => simp [hst] at hby
  | confirmed => simp [hst] at hby
  | opRejected => simp [hst] at hby
  | nodeRejected reason => simp [hst] at hby

/-- What is found can be found. -/
theorem completedAs_of_found (h : s.findWithdrawalByTxId o txid = some id) : s.CompletedAs txid id := by
  obtain ⟨u, ui, hu, hf⟩ := AssocMap.findVal?_eq_some h
  unfold UserInfo.findCompletedRequest at hf
  cases hc : ui.currencies.get? txid.currency with
  | none => rw [hc] at hf; cases hf
  | some i =>
    rw [hc] at hf
    simp only at hf
    unfold UserCurrencyInfo.findCompletedRequest at hf
    by_cases hcur : txid.currency = i.currency
    · rw [if_pos hcur] at hf
      obtain ⟨k, r, hk, hr⟩ := AssocMap.findVal?_eq_some hf
      obtain ⟨hby, hid⟩ := WithdrawalRequest.isCompletedBy_of_found hr
      exact ⟨u, k, i, r, by rw [currency?_of_get? hu, hc], hcur.symm, hk, hby, hid⟩
    · rw [if_neg hcur] at hf
      cases hf

/-- A search in the accounts of a user that finds nothing finds nothing in any order. -/
theorem findCompletedRequest_none {ui : UserInfo} {or or' : IterOrder WithdrawalRequestId}
    (h : ui.findCompletedRequest or txid = none) : ui.findCompletedRequest or' txid = none := by
  unfold UserInfo.findCompletedRequest at h ⊢
  cases hc : ui.currencies.get? txid.currency with
  | none => rfl
  | some i =>
    rw [hc] at h
    simp only at h ⊢
    unfold UserCurrencyInfo.findCompletedRequest at h ⊢
    by_cases hcur : txid.currency = i.currency
    · rw [if_pos hcur] at h ⊢
      exact AssocMap.findVal?_eq_none_iff.mpr (AssocMap.findVal?_eq_none_iff.mp h)
    · rw [if_neg hcur]

/-- A search that finds nothing leaves nothing to be found. -/
theorem not_completedAs_of_none (h : s.findWithdrawalByTxId o txid = none) : ¬s.CompletedAs txid id := by
  rintro ⟨u, k, hcom⟩
  have hsome : s.findWithdrawalByTxId { o with users := .first u, requests := .first k } txid = some id := hcom.found rfl rfl
  have hnone : s.findWithdrawalByTxId { o with users := .first u, requests := .first k } txid = none :=
    AssocMap.findVal?_eq_none_iff.mpr fun u ui hu => findCompletedRequest_none (AssocMap.findVal?_eq_none_iff.mp h u ui hu)
  rw [hsome] at hnone
  cases hnone

/-- The removal of a deposit leaves what can be found. -/
theorem completedIn_modifyCurrency {f : UserCurrencyInfo → UserCurrencyInfo} {c : Currency} {k : WithdrawalRequestId}
    (hf : ∀ i, (f i).currency = i.currency ∧ (f i).withdrawalRequests = i.withdrawalRequests) :
    (s.modifyCurrency u c f).CompletedIn txid u' k id ↔ s.CompletedIn txid u' k id := by
  have hcur : (s.modifyCurrency u c f).currency? u' txid.currency =
      (s.currency? u' txid.currency).map (fun i => if u' = u ∧ txid.currency = c then f i else i) := by
    rw [currency?_modifyCurrency]
    by_cases huc : u' = u ∧ txid.currency = c
    · simp only [if_pos huc]
    · simp only [if_neg huc, Option.map_id']
  have hsame : ∀ i, (if u' = u ∧ txid.currency = c then f i else i).currency = i.currency ∧
      (if u' = u ∧ txid.currency = c then f i else i).withdrawalRequests = i.withdrawalRequests := by
    intro i
    split
    · exact hf i
    · exact ⟨rfl, rfl⟩
  constructor
  · rintro ⟨i', r, hi, hc, hk, hby, hid⟩
    rw [hcur] at hi
    obtain ⟨i, hi₀, rfl⟩ := Option.map_eq_some_iff.mp hi
    obtain ⟨h1, h2⟩ := hsame i
    rw [h1] at hc
    rw [h2] at hk
    exact ⟨i, r, hi₀, hc, hk, hby, hid⟩
  · rintro ⟨i, r, hi, hc, hk, hby, hid⟩
    obtain ⟨h1, h2⟩ := hsame i
    exact ⟨_, r, by rw [hcur, hi]; rfl, h1.trans hc, h2.symm ▸ hk, hby, hid⟩

/-! ## One update -/

/-- A limit change that is requested twice is, if it is accepted, not the same. -/
theorem insertLimitsReq_alike_iff {req : LimitChangeUpd} :
    (∀ o o', s.insertLimitsReq o req = s.insertLimitsReq o' req) ↔ s.currency? req.user req.currency = none := by
  unfold insertLimitsReq currency?
  cases hu : s.users.get? req.user with
  | none => exact ⟨fun _ => rfl, fun _ _ _ => rfl⟩
  | some user =>
    simp only [Option.bind_some]
    cases hc : user.currencies.get? req.currency with
    | none => exact ⟨fun _ => rfl, fun _ _ _ => rfl⟩
    | some i =>
      constructor
      · intro h
        -- two identifiers that are drawn need not be the same
        have hids := h ⟨⟨0⟩, "", .stored, .stored, .stored⟩ ⟨⟨1⟩, "", .stored, .stored, .stored⟩
        have hget := congrArg (fun out : Outcome Unit => (out.1.users.get? req.user).bind
          (fun ui => (ui.limitChangeRequests.get? req.currency).map (·.id))) hids
        simp [modifyUser, hu] at hget
      · intro h
        cases h

section Update

variable {tx : BtcTransaction}

theorem modifyCurrency_updateBtcTx_eq_self (h : tx.amount < 0 ∨ firstBtcTx? (·.isSameBtcTx tx) (s.deposits u) = some tx) :
    s.modifyCurrency u .btc (·.updateBtcTx tx) = s := by
  by_cases hpos : tx.amount ≥ 0
  · rcases h with hneg | hfirst
    · exact absurd hpos (Int64.not_le.mpr hneg)
    · exact modifyCurrency_eq_self_of_deposits (fun i => i.updateBtcTx_eq tx) (fun i => updateBtcTx_transactions hpos)
        (recorded_eq_self_iff.mpr hfirst)
  · refine modifyCurrency_eq_self fun i _ => ?_
    unfold UserCurrencyInfo.updateBtcTx
    rw [if_neg hpos]

theorem withBtcTxUpdate_alike_iff :
    (∀ o o', s.withBtcTxUpdate o tx = s.withBtcTxUpdate o' tx) ↔ s.Determined (.updateBtcTx tx) := by
  unfold withBtcTxUpdate Determined
  by_cases hx : s.isExchangeAddress (btcAddress tx.address) = true
  · simp only [if_pos hx]
    exact ⟨fun _ => Or.inl hx, fun _ _ _ => trivial⟩
  · simp only [if_neg hx]
    constructor
    · intro h
      by_cases hneg : tx.amount < 0
      · exact Or.inr (Or.inl hneg)
      · refine Or.inr (Or.inr ?_)
        rintro u ⟨hu, u', hne, hu'⟩
        -- a search that begins at this owner, and one that begins at the other
        have hboth := h (.beginningAt u ⟨0⟩) (.beginningAt u' ⟨0⟩)
        rw [withDepositOwner_first hu rfl, withDepositOwner_first hu' rfl] at hboth
        have hdep := congrArg (fun out : Outcome Unit => out.1.deposits u) hboth
        have hpos : tx.amount ≥ 0 := Int64.not_lt.mp hneg
        simp only [deposits_modifyCurrency_self hu (fun i => updateBtcTx_transactions hpos),
          deposits_modifyCurrency_other (fun huu => hne huu.symm)] at hdep
        exact recorded_eq_self_iff.mp hdep
    · rintro h o o'
      refine withDepositOwner_alike fun u hu => modifyCurrency_updateBtcTx_eq_self ?_
      rcases h with hx' | hneg | hfirst
      · exact absurd hx' hx
      · exact Or.inl hneg
      · exact Or.inr (hfirst u hu)

end Update

section Cancel

variable {c : BtcTxCancel}

theorem deposits_cancelBtcTx_self (hu : s.Owns u a) :
    (s.modifyCurrency u .btc (·.cancelBtcTx c)).deposits u = unrecorded c (s.deposits u) :=
  deposits_modifyCurrency_self hu fun _ => rfl

/-- The State after the removal of a deposit: in it a withdrawal is searched for. -/
theorem withBtcTxCancel_found (hx : ¬s.isExchangeAddress (btcAddress c.address) = true) (o : Oracle) :
    ∃ s₁, s.withDepositOwner o (btcAddress c.address) (·.cancelBtcTx c) = (s₁, .ok ()) ∧
      s.withBtcTxCancel o c = (s₁.afterReject o c, .ok ()) ∧
      (∀ u k id, s₁.CompletedIn (.btc { txid := c.txid.hex }) u k id ↔ s.CompletedIn (.btc { txid := c.txid.hex }) u k id) ∧
      ∀ u cur id, s₁.request? u cur id = s.request? u cur id := by
  obtain ⟨u, -, heq⟩ | ⟨-, heq⟩ := withDepositOwner_found (s := s) o c.address (·.cancelBtcTx c)
  · exact ⟨_, heq, withBtcTxCancel_eq_afterReject hx heq, fun u' k id => completedIn_modifyCurrency (fun i => ⟨rfl, rfl⟩),
      fun u' cur id => request?_modifyCurrency_same s u' u cur .btc id _ (fun i => rfl)⟩
  · exact ⟨_, heq, withBtcTxCancel_eq_afterReject hx heq, fun u k id => Iff.rfl, fun u cur id => rfl⟩

/-- The choice between the withdrawals does not show where it changes nothing. -/
theorem afterReject_alike (h : ∀ id id', s.CompletedAs (.btc { txid := c.txid.hex }) id →
      s.CompletedAs (.btc { txid := c.txid.hex }) id' → id ≠ id' → s.CanceledAlready id) :
    s.afterReject o c = s.afterReject o' c := by
  unfold afterReject
  cases hf : s.findWithdrawalByTxId o (.btc { txid := c.txid.hex }) with
  | none =>
    cases hf' : s.findWithdrawalByTxId o' (.btc { txid := c.txid.hex }) with
    | none => rfl
    | some id' => exact absurd (completedAs_of_found hf') (not_completedAs_of_none hf)
  | some id =>
    cases hf' : s.findWithdrawalByTxId o' (.btc { txid := c.txid.hex }) with
    | none => exact absurd (completedAs_of_found hf) (not_completedAs_of_none hf')
    | some id' =>
      have hid := completedAs_of_found hf
      have hid' := completedAs_of_found hf'
      by_cases hne : id = id'
      · rw [hne]
      · simp only [Option.elim_some]
        rw [setStatus_eq_self (h id id' hid hid' hne), setStatus_eq_self (h id' id hid' hid (fun hc => hne hc.symm))]

theorem request?_afterReject {u : UserId} {cur : Currency} {r : WithdrawalRequest}
    (hf : s.findWithdrawalByTxId o (.btc { txid := c.txid.hex }) = some id') (hr : s.request? u cur id = some r) :
    (s.afterReject o c).request? u cur id = some (if id = id' then { r with status := .nodeRejected "Tx canceled" } else r) := by
  obtain ⟨i, hi, hk⟩ := request?_eq_some hr
  unfold afterReject
  rw [hf, Option.elim_some, request?, currency?_mapCurrencies, hi]
  simp only [Option.map_some, Option.bind_some, get?_setRequestStatus, hk]

theorem withBtcTxCancel_alike_iff :
    (∀ o o', s.withBtcTxCancel o c = s.withBtcTxCancel o' c) ↔ s.Determined (.cancelBtcTx c) := by
  unfold Determined
  by_cases hx : s.isExchangeAddress (btcAddress c.address) = true
  · unfold withBtcTxCancel
    simp only [if_pos hx]
    exact ⟨fun _ => Or.inl hx, fun _ _ _ => trivial⟩
  · constructor
    · intro h
      refine Or.inr ⟨?_, ?_⟩
      · rintro u ⟨hu, u', hne, hu'⟩
        have hboth := h (.beginningAt u ⟨0⟩) (.beginningAt u' ⟨0⟩)
        rw [withBtcTxCancel_eq_afterReject hx (withDepositOwner_first hu rfl _),
          withBtcTxCancel_eq_afterReject hx (withDepositOwner_first hu' rfl _)] at hboth
        have hdep := congrArg (fun out : Outcome Unit => out.1.deposits u) hboth
        simp only [deposits_afterReject, deposits_cancelBtcTx_self hu,
          deposits_modifyCurrency_other (fun huu => hne huu.symm)] at hdep
        exact unrecorded_eq_self_iff.mp hdep
      · rintro id id' ⟨u, k, hid⟩ ⟨u', k', hid'⟩ hne v cur r hr
        -- a search that finds the one, and one that finds the other
        obtain ⟨s₁, -, heq, hin, hreq⟩ := withBtcTxCancel_found hx (.beginningAt u k)
        obtain ⟨s₁', -, heq', hin', hreq'⟩ := withBtcTxCancel_found hx (.beginningAt u' k')
        have hboth := h (.beginningAt u k) (.beginningAt u' k')
        rw [heq, heq'] at hboth
        have hfound := ((hin u k id).mpr hid).found (o := .beginningAt u k) rfl rfl
        have hfound' := ((hin' u' k' id').mpr hid').found (o := .beginningAt u' k') rfl rfl
        have hat := congrArg (fun out : Outcome Unit => out.1.request? v cur id) hboth
        simp only [request?_afterReject hfound ((hreq v cur id).trans hr),
          request?_afterReject hfound' ((hreq' v cur id).trans hr), if_neg hne, if_true, Option.some.injEq] at hat
        rw [← hat]
    · rintro h o o'
      obtain ⟨hrec, hcom⟩ := h.resolve_left hx
      have hsame : s.withDepositOwner o (btcAddress c.address) (·.cancelBtcTx c) =
          s.withDepositOwner o' (btcAddress c.address) (·.cancelBtcTx c) := withDepositOwner_alike fun u hu =>
        modifyCurrency_eq_self_of_deposits (fun i => rfl) (fun i => rfl) (unrecorded_eq_self_iff.mpr (hrec u hu))
      obtain ⟨s₁, hown, heq, hin, hreq⟩ := withBtcTxCancel_found hx o
      rw [heq, withBtcTxCancel_eq_afterReject hx (hsame ▸ hown), afterReject_alike]
      rintro id id' ⟨u, k, hid⟩ ⟨u', k', hid'⟩ hne v cur r hr
      exact hcom id id' ⟨u, k, (hin u k id).mp hid⟩ ⟨u', k', (hin u' k' id').mp hid'⟩ hne v cur r ((hreq v cur id).symm.trans hr)

end Cancel

/-- What a method does shows in what the update does. -/
theorem stamped_injective {created : NaiveDateTime} {out out' : Outcome Unit} (ht : out.1.lastChanged = out'.1.lastChanged)
    (h : stamped created out noResult = stamped created out' noResult) : out = out' := by
  obtain ⟨⟨us, t, b, is, e⟩, r⟩ := out
  obtain ⟨⟨us', t', b', is', e'⟩, r'⟩ := out'
  obtain rfl : t = t' := ht
  cases r <;> cases r' <;> simp_all [stamped]

/-- An accepted update is the last change. -/
theorem lastChanged_applyUpdate {up : StateUpdate} {res : Option UpdateResult} (h : s.applyUpdate o up = (s', .ok res)) :
    s'.lastChanged = up.created := by
  unfold applyUpdate at h
  cases hb : up.body <;> rw [hb] at h <;> obtain ⟨s₁, a, -, rfl, -⟩ := stamped_eq_ok h <;> rfl

/-- A method that does the same at any time leaves the time alone. -/
theorem lastChanged_of_atTime {m : State → Outcome Unit} (h : ∀ s t, m (s.atTime t) = Outcome.atTime t (m s)) (s : State) :
    (m s).1.lastChanged = s.lastChanged := by
  have hm := h s s.lastChanged
  rw [show s.atTime s.lastChanged = s from rfl] at hm
  rw [hm]
  rfl

theorem stamped_alike_iff {created : NaiveDateTime} {m : Oracle → State → Outcome Unit}
    (h : ∀ o s t, m o (s.atTime t) = Outcome.atTime t (m o s)) (s : State) :
    (∀ o o', stamped created (m o s) noResult = stamped created (m o' s) noResult) ↔ ∀ o o', m o s = m o' s := by
  constructor
  · intro hs o o'
    exact stamped_injective ((lastChanged_of_atTime (h o) s).trans (lastChanged_of_atTime (h o') s).symm) (hs o o')
  · intro hm o o'
    rw [hm o o']

/-- An update does the same at every moment exactly when it is determined. -/
theorem applyUpdate_alike_iff {up : StateUpdate} :
    (∀ o o', s.applyUpdate o up = s.applyUpdate o' up) ↔ s.Determined up.body := by
  unfold applyUpdate
  cases up.body with
  | limitsChangeRequest req =>
    exact (stamped_alike_iff (m := fun o s => s.insertLimitsReq o req) (fun o s t => insertLimitsReq_atTime o req) s).trans
      insertLimitsReq_alike_iff
  | updateBtcTx tx =>
    exact (stamped_alike_iff (m := fun o s => s.withBtcTxUpdate o tx) (fun o s t => withBtcTxUpdate_atTime o tx) s).trans
      withBtcTxUpdate_alike_iff
  | cancelBtcTx c =>
    exact (stamped_alike_iff (m := fun o s => s.withBtcTxCancel o c) (fun o s t => withBtcTxCancel_atTime o c) s).trans
      withBtcTxCancel_alike_iff
  | _ => exact ⟨fun _ => trivial, fun _ _ _ => rfl⟩

/-! ## A sequence of updates -/

/-- The updates, applied to a State in turn. -/
def collectFrom (s : State) (as : List (Oracle × StateUpdate)) : Except StateUpdateErr State :=
  as.foldlM (fun s a => Outcome.after (s.applyUpdate a.1 a.2)) s

theorem collect_eq_collectFrom (now : NaiveDateTime) (genesisHash : String) (as : List (Oracle × StateUpdate)) :
    collect now genesisHash as = (State.new now genesisHash).collectFrom as := by
  unfold collect collectFrom
  congr 1
  funext s a
  obtain ⟨o, up⟩ := a
  simp only
  generalize s.applyUpdate o up = out
  obtain ⟨s', r⟩ := out
  cases r <;> rfl

theorem collectFrom_cons (s : State) (a : Oracle × StateUpdate) (as : List (Oracle × StateUpdate)) :
    s.collectFrom (a :: as) = Outcome.after (s.applyUpdate a.1 a.2) >>= fun s' => s'.collectFrom as := rfl

/-- A sequence that is replayable from a State does the same every time. -/
theorem collectFrom_alike {as as' : List (Oracle × StateUpdate)} (hmap : as.map (·.2) = as'.map (·.2))
    (h : s.Replayable (as.map (·.2))) : s.collectFrom as = s.collectFrom as' := by
  induction as generalizing s as' with
  | nil => rw [List.map_eq_nil_iff.mp hmap.symm]
  | cons a as ih =>
    cases as' with
    | nil => cases hmap
    | cons a' as' =>
      obtain ⟨hup, hrest⟩ := List.cons.inj hmap
      obtain ⟨hdet, hnext⟩ := h
      have hup : a'.2 = a.2 := hup.symm
      rw [collectFrom_cons, collectFrom_cons, hup, applyUpdate_alike_iff.mpr hdet a'.1 a.1]
      cases hout : s.applyUpdate a.1 a.2 with
      | mk s' r =>
        cases r with
        | error e => rfl
        | ok res => exact ih hrest (hnext _ _ _ hout)

/-- The first update sets the time of the last change: it does not matter when the State was new. -/
theorem after_applyUpdate_new (now now' : NaiveDateTime) (genesisHash : String) (o : Oracle) (up : StateUpdate) :
    Outcome.after ((State.new now genesisHash).applyUpdate o up) =
      Outcome.after ((State.new now' genesisHash).applyUpdate o up) := by
  have halike := applyUpdate_atTime (State.new now genesisHash) now' o (u := up) rfl (fun _ => rfl)
  rw [show (State.new now genesisHash).atTime now' = State.new now' genesisHash from rfl] at halike
  obtain ⟨hsame, hres⟩ := halike
  generalize hout : (State.new now genesisHash).applyUpdate o up = out at hsame hres ⊢
  generalize hout' : (State.new now' genesisHash).applyUpdate o up = out' at hsame hres ⊢
  obtain ⟨s₁, r⟩ := out
  obtain ⟨s₂, r'⟩ := out'
  obtain rfl : r' = r := hres
  cases r' with
  | error e => rfl
  | ok res =>
    have ht : s₂.lastChanged = s₁.lastChanged := (lastChanged_applyUpdate hout').trans (lastChanged_applyUpdate hout).symm
    have hs : s₁.Same s₂ := hsame
    obtain rfl : s₂ = s₁ := by
      rw [hs.eq_atTime, ht]
      rfl
    rfl

end State

/-! ## Replaying -/

/-- An update does the same at every moment exactly when it is determined, and a sequence of updates that are collects the same
State every time. -/
theorem replays_alike (s : State) (up : StateUpdate) :
    ((∀ o o', s.applyUpdate o up = s.applyUpdate o' up) ↔ s.Determined up.body) ∧
      ∀ (now now' : NaiveDateTime) (genesisHash : String) (as as' : List (Oracle × StateUpdate)), as ≠ [] →
        as.map (·.2) = as'.map (·.2) → (State.new now genesisHash).Replayable (as.map (·.2)) →
        State.collect now genesisHash as = State.collect now' genesisHash as' := by
  refine ⟨State.applyUpdate_alike_iff, ?_⟩
  intro now now' genesisHash as as' hne hmap hrep
  have hfirst : (State.new now' genesisHash).collectFrom as' = (State.new now genesisHash).collectFrom as' := by
    cases as' with
    | nil => exact absurd (List.map_eq_nil_iff.mp hmap) hne
    | cons a as' =>
      rw [State.collectFrom_cons, State.collectFrom_cons, State.after_applyUpdate_new now' now]
  rw [State.collect_eq_collectFrom, State.collect_eq_collectFrom, hfirst]
  exact State.collectFrom_alike hmap hrep

namespace Sample

/-- Another moment, with another identifier. -/
def later : Oracle := { oracle with newId := uuid 1, now := "later" }

/-- A request of a limit change by alice. -/
def limitUpd : UpdateBody :=
  .limitsChangeRequest { user := alice, currency := .btc, limit := { amount := 5, span := .day } }

end Sample

open Sample in
/-- The sign-up and a block are collected alike at two moments, and the request of a limit change is not determined once alice
has signed up. -/
theorem replays_alike_signup :
    State.collect ⟨0⟩ "genesis" (signup ++ [upd 3 (.bestBtcBlock { height := 1, blockHash := "b" })]) =
      State.collect ⟨9⟩ "genesis" ((signup ++ [upd 3 (.bestBtcBlock { height := 1, blockHash := "b" })]).map
        (fun a => (later, a.2))) ∧
      ∀ o o', start.state.applyUpdate o (upd 1 limitUpd).2 = start.state.applyUpdate o' (upd 1 limitUpd).2 := by
  refine ⟨(replays_alike start.state (upd 1 limitUpd).2).2 _ _ _ _ _ (by decide) rfl ?_, (replays_alike _ _).1.mpr rfl⟩
  exact ⟨trivial, fun _ _ _ _ => ⟨trivial, fun _ _ _ _ => ⟨trivial, fun _ _ _ _ => trivial⟩⟩⟩

open Sample in
/-- The request of a limit change gets another id when it is applied again. -/
theorem limit_request_changes : ¬((∀ (s : State) (up : StateUpdate) (o o' : Oracle), s.applyUpdate o up = s.applyUpdate o' up) ∧
    ∀ (now now' : NaiveDateTime) (genesisHash : String) (as as' : List (Oracle × StateUpdate)), as ≠ [] →
      as.map (·.2) = as'.map (·.2) → State.collect now genesisHash as = State.collect now' genesisHash as') := by
  rintro ⟨-, h⟩
  have heq := h ⟨0⟩ ⟨0⟩ "genesis" (signup ++ [upd 3 limitUpd]) ((signup ++ [upd 3 limitUpd]).map (fun a => (later, a.2)))
    (by decide) rfl
  have hids := congrArg (fun out : Except StateUpdateErr State => out.toOption.bind fun s => (s.users.get? alice).bind fun ui =>
    (ui.limitChangeRequests.get? .btc).map (·.id)) heq
  revert hids
  decide +kernel

end Hexstody
