import Hexstody.Lemmas.Limit
import Hexstody.Library.Lists
import Hexstody.LimitBook
import Hexstody.Theorems.LimitQuorum
import Hexstody.Theorems.Settlement

/-!
# The limits that are shown are those of the book

The State keeps limits and pending changes apart, and counts the votes on a change in integers of 16 bits that wrap. All the same it
is a book of limits: an update turns the page of an account in the State as its row does in the book (`limitPage_next`), so that in
every run the State has the pages that the rows of the journal have written (`limitPage_of_reachable`). What the users and the
operators are shown is read from the book (`limits_told`).
-/

namespace Hexstody

/-! ## Votes -/

/-- The change that is asked for, without its status. -/
def LimitChangeData.toAsk (l : LimitChangeData) : LimitAsk where
  id := l.id
  createdAt := l.createdAt
  limit := l.limit
  confirmations := l.confirmations
  rejections := l.rejections

/-- A vote on a change that is open does what it does in the book. -/
theorem LimitChangeData.Open.toAsk_vote {l l' : LimitChangeData} {lcd : LimitChangeDecision} (ho : l.Open)
    (h : l.applyDecision lcd = .ok l') (limit : Limit) :
    ({ limit := limit, asked := some l.toAsk } : LimitPage).vote lcd =
      if l'.isDecided = true then { limit := if l'.status = .completed then lcd.requestedLimit else limit, asked := none }
      else { limit := limit, asked := some l'.toAsk } := by
  have hc : l.confirmKeys.length = l.confirmations.length := List.length_map _
  have hr : l.rejectKeys.length = l.rejections.length := List.length_map _
  have hle := ho.ahead
  have hle' := ho.behind
  have hahead : Int16.ofNat l.confirmKeys.length + 1 - Int16.ofNat l.rejectKeys.length ≥ 2 ↔
      l.rejections.length < l.confirmations.length := by
    rw [two_ahead_iff hle hle']
    omega
  have hbehind : Int16.ofNat l.rejectKeys.length + 1 - Int16.ofNat l.confirmKeys.length ≥ 2 ↔
      l.confirmations.length < l.rejections.length := by
    rw [two_ahead_iff hle' hle]
    omega
  unfold LimitChangeData.applyDecision at h
  simp only [ho.status] at h
  unfold LimitPage.vote
  cases hd : lcd.decisionType with
  | confirm =>
    simp only [hd] at h ⊢
    split at h
    · cases h
    · split at h
      · rename_i hge
        obtain rfl := Except.ok.inj h
        exact (if_pos (hahead.mp hge)).trans rfl
      · rename_i hno
        obtain rfl := Except.ok.inj h
        exact (if_neg fun hlt => hno (hahead.mpr hlt)).trans rfl
  | reject =>
    simp only [hd] at h ⊢
    split at h
    · cases h
    · split at h
      · rename_i hge
        obtain rfl := Except.ok.inj h
        exact (if_pos (hbehind.mp hge)).trans rfl
      · rename_i hno
        obtain rfl := Except.ok.inj h
        exact (if_neg fun hlt => hno (hbehind.mpr hlt)).trans rfl

/-! ## The page of an account -/

/-- The update turns the page of the account. -/
def UpdateBody.Turns (u : UserId) (c : Currency) : UpdateBody → Prop
  | .signup info => info.username = u
  | .updateTokens req => req.user = u ∧ .erc20 req.token = c
  | .limitsChangeRequest req => req.user = u ∧ req.currency = c
  | .cancelLimitChange req => req.user = u ∧ req.currency = c
  | .limitChangeDecision lcd => lcd.user = u ∧ lcd.currency = c
  | _ => False

theorem LimitPage.next_same {u : UserId} {c : Currency} {row : Row} (h : ¬row.update.body.Turns u c) (page : Option LimitPage) :
    LimitPage.next u c page row = page := by
  unfold next
  cases hb : row.update.body with
  | signup info => rw [hb] at h; exact if_neg fun hn => h hn.1
  | updateTokens req => rw [hb] at h; exact if_neg h
  | limitsChangeRequest req => rw [hb] at h; exact if_neg h
  | cancelLimitChange req => rw [hb] at h; exact if_neg h
  | limitChangeDecision lcd => rw [hb] at h; exact if_neg h
  | _ => rfl

namespace State

/-- The page of an account, as the State has it. -/
def limitPage (s : State) (u : UserId) (c : Currency) : Option LimitPage :=
  (s.currency? u c).map fun i => { limit := i.limitInfo.limit, asked := (s.limitChange? u c).map (·.toAsk) }

variable {s s' : State} {o : Oracle} {up : StateUpdate} {res : Option UpdateResult} {u : UserId} {c : Currency}

/-- The limit of an account stays where no update sets it, and the account is neither opened nor closed. -/
theorem limit_same (h : s.applyUpdate o up = (s', .ok res)) (hs : ¬up.body.IsSnapshot) (hset : ¬s.SetsLimit up u c)
    (hsign : ∀ info, up.body = .signup info → info.username ≠ u)
    (htok : ∀ req, up.body = .updateTokens req → ¬(req.user = u ∧ .erc20 req.token = c)) :
    (s'.currency? u c).map (·.limitInfo.limit) = (s.currency? u c).map (·.limitInfo.limit) := by
  have hch := applyUpdate_account h hs u c
  cases hb : s.currency? u c with
  | none =>
    cases ha : s'.currency? u c with
    | none => rfl
    | some i' =>
      rw [hb, ha] at hch
      cases hch with
      | opened hwhy =>
        rcases hwhy with hnone | ⟨token, hbody, rfl⟩
        · rw [currency?, applyUpdate_absent h hs hsign hnone] at ha
          cases ha
        · exact absurd ⟨rfl, rfl⟩ (htok _ hbody)
  | some i =>
    cases ha : s'.currency? u c with
    | none =>
      rw [hb, ha] at hch
      cases hch with
      | closed i token hbody hc _ => exact absurd ⟨rfl, hc.symm⟩ (htok _ hbody)
    | some i' =>
      rw [hb, ha] at hch
      rw [Option.map_some, Option.map_some, (Journal.limit_of_change hch).resolve_right hset]

/-- A pending change stays where no update is about it. -/
theorem limitChange_same (h : s.applyUpdate o up = (s', .ok res)) (hs : ¬up.body.IsSnapshot) (hno : ¬up.body.Turns u c) :
    s'.limitChange? u c = s.limitChange? u c := by
  have hch := applyUpdate_pending h hs u c
  generalize s'.limitChange? u c = a' at hch
  generalize s.limitChange? u c = a at hch
  cases hch with
  | same => rfl
  | asked _ ui i req hb hu hc _ _ => rw [hb] at hno; exact absurd ⟨hu, hc⟩ hno
  | canceled _ req hb hu hc => rw [hb] at hno; exact absurd ⟨hu, hc⟩ hno
  | disabled _ token hb hc => rw [hb] at hno; exact absurd ⟨rfl, hc.symm⟩ hno
  | voted l l' lcd hb hu hc _ _ => rw [hb] at hno; exact absurd ⟨hu, hc⟩ hno
  | decided l l' lcd hb hu hc _ _ => rw [hb] at hno; exact absurd ⟨hu, hc⟩ hno

/-- The page is made of the limit and the change. -/
theorem limitPage_congr {limit : Option Limit} (hlimit : (s'.currency? u c).map (·.limitInfo.limit) = limit) :
    s'.limitPage u c = limit.map fun l => { limit := l, asked := (s'.limitChange? u c).map (·.toAsk) } := by
  rw [← hlimit, Option.map_map]
  rfl

theorem limitPage_same (h : s.applyUpdate o up = (s', .ok res)) (hs : ¬up.body.IsSnapshot) (hno : ¬up.body.Turns u c) :
    s'.limitPage u c = s.limitPage u c := by
  have hset : ¬s.SetsLimit up u c := by
    rintro ⟨lcd, hb, hu, hc, -⟩
    rw [hb] at hno
    exact hno ⟨hu, hc⟩
  have hlimit := limit_same h hs hset (fun info hb hn => hno (by rw [hb]; exact hn)) (fun req hb hn => hno (by rw [hb]; exact hn))
  rw [limitPage_congr hlimit, limitChange_same h hs hno, limitPage, Option.map_map]
  rfl

/-! ## What turns the page -/

/-- A user who signs up has the default accounts, each with a new page. -/
theorem limitPage_signup {info : SignupInfo} (h : s.applyUpdate o up = (s', .ok res)) (hb : up.body = .signup info) (c : Currency) :
    s.limitPage info.username c = none ∧
      s'.limitPage info.username c = if c ∈ Currency.defaultCurrencies then some .new else none := by
  obtain ⟨hnone, -, rfl⟩ := applyUpdate_signup h hb
  refine ⟨by rw [limitPage, currency?, hnone]; rfl, ?_⟩
  have htab := AssocMap.tabulates_ofList (l := Currency.defaultCurrencies.map fun c => (c, UserCurrencyInfo.new c))
    (g := UserCurrencyInfo.new) (by
      intro e he
      obtain ⟨c', -, rfl⟩ := List.mem_map.mp he
      rfl)
  have hiff : ∀ i, (UserInfo.new info.username info.invite info.auth up.created).currencies.get? c = some i ↔
      c ∈ Currency.defaultCurrencies ∧ i = UserCurrencyInfo.new c := by
    intro i
    refine (htab c i).trans (and_congr_left fun _ => ?_)
    simp
  rw [limitPage, limitChange?, currency?_of_get? (AssocMap.get?_insert_self _ _ _), AssocMap.get?_insert_self]
  split
  · rename_i hc
    rw [(hiff _).mpr ⟨hc, rfl⟩]
    rfl
  · rename_i hc
    have habsent : (UserInfo.new info.username info.invite info.auth up.created).currencies.get? c = none := by
      refine Option.eq_none_iff_forall_ne_some.mpr fun i hi => ?_
      exact hc ((hiff i).mp hi).1
    rw [habsent]
    rfl

/-- A token that is enabled has a new page. -/
theorem limitPage_enable {token : Erc20Token} (hw : s.WellFormed) (h : s.applyUpdate o up = (s', .ok res))
    (hb : up.body = .updateTokens { user := u, token := token, action := .enable }) :
    s'.limitPage u (.erc20 token) = some .new := by
  unfold applyUpdate at h
  rw [hb] at h
  obtain ⟨s₁, a, hout, rfl, -⟩ := stamped_eq_ok h
  obtain ⟨ui, hu, hnone, rfl⟩ := updateTokens_enable_eq_ok hout
  have hcur : (s.modifyUser u fun ui =>
      { ui with currencies := ui.currencies.insert (.erc20 token) (UserCurrencyInfo.new (.erc20 token)) }).currency? u (.erc20 token) =
        some (UserCurrencyInfo.new (.erc20 token)) := by
    rw [currency?_enable hu, if_pos ⟨rfl, rfl⟩]
  have hpending : s.limitChange? u (.erc20 token) = none := by
    refine Option.eq_none_iff_forall_ne_some.mpr fun l hl => ?_
    obtain ⟨-, -, i, hi⟩ := hw.limit hl
    rw [hnone] at hi
    cases hi
  have hsame : (s.modifyUser u fun ui =>
      { ui with currencies := ui.currencies.insert (.erc20 token) (UserCurrencyInfo.new (.erc20 token)) }).limitChange? u (.erc20 token) =
        none := by
    refine (limitChange?_of_part ?_).trans hpending
    exact part_modifyUser_same s u _ (fun _ => rfl)
  change (modifyUser s u _).limitPage u (.erc20 token) = some .new
  rw [limitPage, hcur, hsame]
  rfl

/-- A token that is disabled has no page. -/
theorem limitPage_disable {token : Erc20Token} (h : s.applyUpdate o up = (s', .ok res))
    (hb : up.body = .updateTokens { user := u, token := token, action := .disable }) : s'.limitPage u (.erc20 token) = none := by
  unfold applyUpdate at h
  rw [hb] at h
  obtain ⟨s₁, a, hout, rfl, -⟩ := stamped_eq_ok h
  obtain ⟨i, -, -, rfl⟩ := updateTokens_disable_eq_ok hout
  have hcur := currency?_disable (s := s) (u := u) (c := .erc20 token) u token
  rw [if_pos ⟨rfl, rfl⟩] at hcur
  change (modifyUser s u _).limitPage u (.erc20 token) = none
  rw [limitPage, hcur, Option.map_none]

/-- A limit is set by a decision. -/
theorem not_setsLimit (hb : ∀ lcd, up.body ≠ .limitChangeDecision lcd) : ¬s.SetsLimit up u c := by
  rintro ⟨lcd, hlcd, -⟩
  exact hb lcd hlcd

/-- A change that is asked for is on the page, with no votes. -/
theorem limitPage_asked {req : LimitChangeUpd} (h : s.applyUpdate o up = (s', .ok res)) (hb : up.body = .limitsChangeRequest req) :
    s'.limitPage req.user req.currency = (s.limitPage req.user req.currency).map fun p =>
      { p with asked := some { id := o.newId, createdAt := o.now, limit := req.limit, confirmations := [], rejections := [] } } := by
  have hs : ¬up.body.IsSnapshot := by
    rw [hb]
    exact id
  have hlimit := limit_same (u := req.user) (c := req.currency) h hs (not_setsLimit fun lcd hlcd => by rw [hb] at hlcd; cases hlcd)
    (fun info hinfo => by rw [hb] at hinfo; cases hinfo) (fun req' hreq => by rw [hb] at hreq; cases hreq)
  have hasked : ∃ name, s'.limitChange? req.user req.currency = some (.asked o name req) := by
    unfold applyUpdate at h
    rw [hb] at h
    obtain ⟨s₁, a, hout, rfl, -⟩ := stamped_eq_ok h
    unfold insertLimitsReq at hout
    split at hout
    · cases hout
    · rename_i ui hu
      split at hout
      · cases hout
      · obtain ⟨rfl, -⟩ := Prod.mk.inj hout
        refine ⟨ui.username, ?_⟩
        change (modifyUser s req.user _).limitChange? req.user req.currency = _
        rw [limitChange?_modifyUser, if_pos rfl, hu, Option.bind_some]
        exact AssocMap.get?_insert_self _ _ _
  obtain ⟨name, hasked⟩ := hasked
  rw [limitPage_congr hlimit, hasked, limitPage, Option.map_map, Option.map_map]
  rfl

/-- A cancellation takes whatever is asked for from the page. -/
theorem limitPage_canceled {req : LimitCancelData} (h : s.applyUpdate o up = (s', .ok res)) (hb : up.body = .cancelLimitChange req) :
    s'.limitPage req.user req.currency = (s.limitPage req.user req.currency).map fun p => { p with asked := none } := by
  have hs : ¬up.body.IsSnapshot := by
    rw [hb]
    exact id
  have hlimit := limit_same (u := req.user) (c := req.currency) h hs (not_setsLimit fun lcd hlcd => by rw [hb] at hlcd; cases hlcd)
    (fun info hinfo => by rw [hb] at hinfo; cases hinfo) (fun req' hreq => by rw [hb] at hreq; cases hreq)
  have hnone : s'.limitChange? req.user req.currency = none := by
    cases hu : s.users.get? req.user with
    | none =>
      unfold applyUpdate at h
      rw [hb] at h
      obtain ⟨s₁, a, hout, -, -⟩ := stamped_eq_ok h
      simp [cancelLimitChange, updateUser, hu] at hout
    | some ui =>
      obtain ⟨s₁, happly, hclosed⟩ := applyUpdate_cancel (o := o) hu hb
      obtain ⟨rfl, -⟩ := Prod.mk.inj (h.symm.trans happly)
      exact hclosed
  rw [limitPage_congr hlimit, hnone, limitPage, Option.map_map, Option.map_map]
  rfl

/-- A decision is a vote on the change that is asked for. -/
theorem limitPage_voted {lcd : LimitChangeDecision} (hw : s.WellFormed) (hopen : s.LimitsOpen)
    (h : s.applyUpdate o up = (s', .ok res)) (hb : up.body = .limitChangeDecision lcd) :
    s'.limitPage lcd.user lcd.currency = (s.limitPage lcd.user lcd.currency).map fun p => p.vote lcd := by
  have hs : ¬up.body.IsSnapshot := by
    rw [hb]
    exact id
  obtain ⟨l, l', hl, hd, hafter⟩ := limitDecision_of_applyUpdate h hb
  obtain ⟨l₁, l₁', hl₁, hd₁, hset⟩ := applyUpdate_limitDecision h hb
  obtain rfl := Option.some.inj (hl.symm.trans hl₁)
  obtain rfl := Except.ok.inj (hd.symm.trans hd₁)
  obtain ⟨ho, -⟩ := hopen _ _ l hl
  obtain ⟨-, -, i, hi⟩ := hw.limit hl
  have hcompletes : s.completesLimit lcd = true ↔ l'.status = .completed := by
    unfold completesLimit
    simp only [hl, hd, beq_iff_eq]
  have hlimit : (s'.currency? lcd.user lcd.currency).map (·.limitInfo.limit) =
      some (if l'.status = .completed then lcd.requestedLimit else i.limitInfo.limit) := by
    by_cases hst : l'.status = .completed
    · rw [if_pos hst, hset (hcompletes.mpr hst), hi]
      rfl
    · rw [if_neg hst, limit_same h hs ?_ (fun info hinfo => by rw [hb] at hinfo; cases hinfo)
        (fun req' hreq => by rw [hb] at hreq; cases hreq), hi]
      · rfl
      · rintro ⟨lcd', hb', -, -, hcomp⟩
        rw [hb] at hb'
        obtain rfl := UpdateBody.limitChangeDecision.inj hb'
        exact hst (hcompletes.mp hcomp)
  rw [limitPage_congr hlimit, hafter, limitPage, hi, hl]
  simp only [Option.map_some]
  rw [ho.toAsk_vote hd]
  by_cases hdec : l'.isDecided = true
  · rw [if_pos hdec, if_pos hdec]
    rfl
  · have hst : l'.status ≠ .completed := by
      intro hst
      exact hdec (by rw [LimitChangeData.isDecided, hst])
    rw [if_neg hdec, if_neg hdec, if_neg hst]
    rfl

/-- (step) An accepted update turns the pages of the State as its row does those of the book. -/
theorem limitPage_next (hw : s.WellFormed) (hopen : s.LimitsOpen) (h : s.applyUpdate o up = (s', .ok res))
    (hs : ¬up.body.IsSnapshot) (u : UserId) (c : Currency) :
    s'.limitPage u c = LimitPage.next u c (s.limitPage u c) { update := up, oracle := o, result := res } := by
  by_cases hturns : up.body.Turns u c
  · unfold LimitPage.next
    cases hb : up.body with
    | signup info =>
      rw [hb] at hturns
      obtain rfl := hturns
      obtain ⟨hbefore, hafter⟩ := limitPage_signup h hb c
      simp only [hbefore, hafter, true_and]
    | updateTokens req =>
      rw [hb] at hturns
      obtain ⟨user, token, action⟩ := req
      obtain ⟨rfl, rfl⟩ := hturns
      simp only [and_self, if_true]
      cases action with
      | enable => exact limitPage_enable hw h hb
      | disable => exact limitPage_disable h hb
    | limitsChangeRequest req =>
      rw [hb] at hturns
      obtain ⟨rfl, rfl⟩ := hturns
      simp only [and_self, if_true]
      exact limitPage_asked h hb
    | cancelLimitChange req =>
      rw [hb] at hturns
      obtain ⟨rfl, rfl⟩ := hturns
      simp only [and_self, if_true]
      exact limitPage_canceled h hb
    | limitChangeDecision lcd =>
      rw [hb] at hturns
      obtain ⟨rfl, rfl⟩ := hturns
      simp only [and_self, if_true]
      exact limitPage_voted hw hopen h hb
    | _ =>
      rw [hb] at hturns
      exact hturns.elim
  · rw [LimitPage.next_same hturns]
    exact limitPage_same h hs hturns

end State

/-- (run) In every run with fresh identifiers, the State has the pages that the rows of the journal have written. -/
theorem Journal.limitPage_of_reachable {j : Journal} (h : machine.Reachable Fresh j) (u : UserId) (c : Currency) :
    j.state.limitPage u c = j.limitPage u c := by
  refine h.replays (l := rows) (v := fun j => j.state.limitPage u c) ?_ ?_
  · rintro _ ⟨now, genesisHash, rfl⟩
    exact ⟨rfl, rfl⟩
  · rintro j ⟨o, up⟩ j' hj hp hs
    obtain ⟨res, happly, hrows⟩ := store_eq_some hs
    have hb := built_of_reachable (fun _ _ hp => hp) hj
    exact ⟨_, hrows, State.limitPage_next hb.wellFormed hb.limitsOpen happly hp.1 u c⟩

/-! ## What is shown of a page -/

namespace LimitAsk

/-- The status that a change has while it is asked for: its votes, in integers of 16 bits. -/
def status (a : LimitAsk) : LimitChangeStatus := .inProgress (Int16.ofNat a.confirmations.length) (Int16.ofNat a.rejections.length)

/-- The change, as its user is shown it. -/
def shown (a : LimitAsk) (u : UserId) (c : Currency) : LimitChangeResponse where
  id := a.id
  user := u
  createdAt := a.createdAt
  currency := c
  limit := a.limit
  status := a.status

/-- The change, as the operators are shown it. -/
def shownToOps (a : LimitAsk) (u : UserId) (c : Currency) (limit : Limit) : LimitChangeOpResponse where
  id := a.id
  user := u
  createdAt := a.createdAt
  currency := c
  currentLimit := limit
  requestedLimit := a.limit
  status := a.status

end LimitAsk

theorem LimitChangeData.Open.status_toAsk {l : LimitChangeData} (ho : l.Open) : l.status = l.toAsk.status := by
  rw [ho.status]
  simp [LimitAsk.status, toAsk, confirmKeys, rejectKeys]

/-- A change that is open is one that a filter selects as pending. -/
theorem LimitChangeData.Open.matchesFilter_iff {l : LimitChangeData} (ho : l.Open) {filter : LimitChangeFilter} :
    l.matchesFilter filter = true ↔ filter = .all ∨ filter = .pending := by
  simp [LimitChangeData.matchesFilter, ho.status]

theorem Currency.le_total (c c' : Currency) : (c.le c' || c'.le c) = true := by
  cases c <;> cases c' <;> simp [le]
  exact Nat.le_total _ _

theorem Currency.le_trans {a b c : Currency} (hab : a.le b = true) (hbc : b.le c = true) : a.le c = true := by
  cases a <;> cases b <;> cases c <;> simp [le] at hab hbc ⊢
  exact Nat.le_trans hab hbc

theorem Profile.requireAuthUser_eq_some {s : State} {cookie : Option UserId} {ui : UserInfo}
    (h : (requireAuthUser s cookie).toOption = some ui) : ∃ u, cookie = some u ∧ s.users.get? u = some ui := by
  unfold requireAuthUser at h
  cases cookie with
  | none => cases h
  | some u =>
    cases hu : s.users.get? u with
    | none => simp [hu, Except.toOption] at h
    | some ui' =>
      simp only [hu, Except.toOption, Option.some.injEq] at h
      exact ⟨u, rfl, h ▸ hu⟩

/-- (run) Nothing is recorded as spent of a limit. -/
theorem State.Reached.unspent {P : State → UpdateBody → Prop} {s : State} (h : s.Reached P) {u : UserId} {c : Currency}
    {i : UserCurrencyInfo} (hi : s.currency? u c = some i) : i.limitInfo.spent = 0 := by
  refine h.invariant (I := fun s => ∀ u c i, s.currency? u c = some i → i.limitInfo.spent = 0) ?_ ?_ ?_ u c i hi
  · intro now genesisHash u c i hi
    cases hi
  · exact fun s created hs => hs
  · intro s o up s' res _ hs _ hsnap happly u c i' hi'
    have hch := applyUpdate_account happly hsnap u c
    rw [hi'] at hch
    cases hb : s.currency? u c with
    | none =>
      rw [hb] at hch
      cases hch with
      | opened => rfl
    | some i =>
      rw [hb] at hch
      rcases hch.spent with he | he
      · rw [he]
        exact hs u c i hb
      · exact he

namespace Journal

variable {j : Journal}

/-- (run) The accounts of a user have the limits of their pages. -/
theorem limitInfo_iff (h : machine.Reachable Fresh j) {u : UserId} {c : Currency} {info : LimitInfo} :
    (∃ i, j.state.currency? u c = some i ∧ i.limitInfo = info) ↔
      ∃ page, j.limitPage u c = some page ∧ info = { limit := page.limit, spent := 0 } := by
  have hr : j.state.Reached State.anyUpdate := ⟨_, madeBy_updates (fun _ _ hp => ⟨trivial, hp.1⟩) h⟩
  rw [← limitPage_of_reachable h]
  constructor
  · rintro ⟨i, hi, rfl⟩
    refine ⟨_, by rw [State.limitPage, hi, Option.map_some], ?_⟩
    rw [← hr.unspent hi]
  · rintro ⟨page, hpage, rfl⟩
    obtain ⟨i, hi, rfl⟩ := Option.map_eq_some_iff.mp hpage
    refine ⟨i, hi, ?_⟩
    rw [← hr.unspent hi]

/-- (run) The changes that are pending are those that are asked for on the pages. -/
theorem asked_iff (h : machine.Reachable Fresh j) {u : UserId} {c : Currency} {limit : Limit} {ask : LimitAsk} :
    (∃ i l, j.state.currency? u c = some i ∧ i.limitInfo.limit = limit ∧ j.state.limitChange? u c = some l ∧ l.toAsk = ask) ↔
      j.limitPage u c = some { limit := limit, asked := some ask } := by
  rw [← limitPage_of_reachable h]
  constructor
  · rintro ⟨i, l, hi, rfl, hl, rfl⟩
    rw [State.limitPage, hi, hl]
    rfl
  · intro hpage
    obtain ⟨i, hi, heq⟩ := Option.map_eq_some_iff.mp hpage
    obtain ⟨hlimit, hasked⟩ := LimitPage.mk.inj heq
    obtain ⟨l, hl, hask⟩ := Option.map_eq_some_iff.mp hasked
    exact ⟨i, l, hi, hlimit, hl, hask⟩

/-- (run) A user's limits, as they are shown. -/
theorem userLimits_told (h : machine.Reachable Fresh j) {u : UserId} {ui : UserInfo} (hu : j.state.users.get? u = some ui)
    (o : Oracle) (info : LimitApiResp) :
    (∃ e ∈ ui.currencies.iter o.currencies, ({ limitInfo := e.2.limitInfo, currency := e.2.currency } : LimitApiResp) = info) ↔
      ∃ page, j.limitPage u info.currency = some page ∧ info.limitInfo = { limit := page.limit, spent := 0 } := by
  have hw := (built_of_reachable (fun _ _ hp => hp) h).wellFormed
  have hacc : ∀ {c i}, (c, i) ∈ ui.currencies.iter o.currencies ↔ j.state.currency? u c = some i := by
    intro c i
    rw [State.currency?_of_get? hu]
    exact AssocMap.mem_iter_iff
  rw [← limitInfo_iff h]
  constructor
  · rintro ⟨⟨c, i⟩, he, rfl⟩
    have hi := hacc.mp he
    refine ⟨i, ?_, rfl⟩
    change j.state.currency? u i.currency = some i
    rw [(hw.account hi).currency]
    exact hi
  · rintro ⟨i, hi, hinfo⟩
    refine ⟨(info.currency, i), hacc.mpr hi, ?_⟩
    change ({ limitInfo := i.limitInfo, currency := i.currency } : LimitApiResp) = info
    rw [(hw.account hi).currency, hinfo]

/-- (run) The changes that a user asks for, as they are shown. -/
theorem userChanges_told (h : machine.Reachable Fresh j) {u : UserId} {ui : UserInfo} (hu : j.state.users.get? u = some ui)
    (o : Oracle) (filter : LimitChangeFilter) (r : LimitChangeResponse) :
    (∃ e ∈ ui.limitChangeRequests.iter o.currencies, e.2.matchesFilter filter = true ∧ e.2.toResponse = r) ↔
      (filter = .all ∨ filter = .pending) ∧
        ∃ limit ask, j.limitPage u r.currency = some { limit := limit, asked := some ask } ∧ r = ask.shown u r.currency := by
  have hb := built_of_reachable (fun _ _ hp => hp) h
  have hpending : ∀ {c l}, (c, l) ∈ ui.limitChangeRequests.iter o.currencies ↔ j.state.limitChange? u c = some l := by
    intro c l
    rw [State.limitChange?, hu]
    exact AssocMap.mem_iter_iff
  have hshown : ∀ {c l}, j.state.limitChange? u c = some l → l.toResponse = l.toAsk.shown u c := by
    intro c l hl
    obtain ⟨hc, hname, -⟩ := hb.wellFormed.limit hl
    rw [LimitChangeData.toResponse, LimitAsk.shown, ← (hb.limitsOpen u c l hl).1.status_toAsk, hc, hname]
    rfl
  constructor
  · rintro ⟨⟨c, l⟩, he, hfilter, rfl⟩
    have hl := hpending.mp he
    obtain ⟨ho, -⟩ := hb.limitsOpen u c l hl
    obtain ⟨-, -, i, hi⟩ := hb.wellFormed.limit hl
    refine ⟨ho.matchesFilter_iff.mp hfilter, i.limitInfo.limit, l.toAsk, ?_, ?_⟩
    · rw [hshown hl]
      exact (asked_iff h).mp ⟨i, l, hi, rfl, hl, rfl⟩
    · rw [hshown hl]
      rfl
  · rintro ⟨hfilter, limit, ask, hpage, hr⟩
    obtain ⟨i, l, -, -, hl, rfl⟩ := (asked_iff h).mpr hpage
    obtain ⟨ho, -⟩ := hb.limitsOpen u _ l hl
    exact ⟨(r.currency, l), hpending.mpr hl, ho.matchesFilter_iff.mpr hfilter, (hshown hl).trans hr.symm⟩

/-- (run) All changes that are asked for, as the operators are shown them. -/
theorem allChanges_told (h : machine.Reachable Fresh j) {o : Oracle} {all : List LimitChangeOpResponse}
    (hall : j.state.getAllChanges o = some all) (r : LimitChangeOpResponse) : r ∈ all ↔
      ∃ limit ask, j.limitPage r.user r.currency = some { limit := limit, asked := some ask } ∧
        r = ask.shownToOps r.user r.currency limit := by
  have hb := built_of_reachable (fun _ _ hp => hp) h
  have hshown : ∀ {u ui c l i}, j.state.users.get? u = some ui → j.state.limitChange? u c = some l →
      j.state.currency? u c = some i → State.changeResponse ui l = some (l.toAsk.shownToOps u c i.limitInfo.limit) := by
    intro u ui c l i hu hl hi
    obtain ⟨hc, hname, -⟩ := hb.wellFormed.limit hl
    rw [State.currency?_of_get? hu] at hi
    rw [State.changeResponse, hc, hi, Option.map_some, LimitAsk.shownToOps, ← (hb.limitsOpen u c l hl).1.status_toAsk, hname]
    rfl
  have hmem : r ∈ all ↔ ∃ u ui c l, j.state.users.get? u = some ui ∧ j.state.limitChange? u c = some l ∧
      State.changeResponse ui l = some r := by
    have hmap := mapM_eq_some_iff.mp hall
    rw [List.map_id] at hmap
    have hsome : r ∈ all ↔ some r ∈ all.map some := by simp
    rw [hsome, ← hmap]
    simp only [List.mem_flatMap, List.mem_map, Prod.exists, AssocMap.mem_iter_iff]
    constructor
    · rintro ⟨u, ui, hu, c, l, hl, hr⟩
      exact ⟨u, ui, c, l, hu, by rw [State.limitChange?, hu]; exact hl, hr⟩
    · rintro ⟨u, ui, c, l, hu, hl, hr⟩
      rw [State.limitChange?, hu] at hl
      exact ⟨u, ui, hu, c, l, hl, hr⟩
  rw [hmem]
  constructor
  · rintro ⟨u, ui, c, l, hu, hl, hr⟩
    obtain ⟨-, -, i, hi⟩ := hb.wellFormed.limit hl
    obtain rfl := Option.some.inj ((hshown hu hl hi).symm.trans hr)
    exact ⟨i.limitInfo.limit, l.toAsk, (asked_iff h).mp ⟨i, l, hi, rfl, hl, rfl⟩, rfl⟩
  · rintro ⟨limit, ask, hpage, hr⟩
    obtain ⟨i, l, hi, rfl, hl, rfl⟩ := (asked_iff h).mpr hpage
    obtain ⟨ui, hu, -⟩ := Option.bind_eq_some_iff.mp hi
    exact ⟨r.user, ui, r.currency, l, hu, hl, (hshown hu hl hi).trans (congrArg some hr.symm)⟩

/-- The operators are shown each change once. -/
theorem allChanges_nodup (hw : j.state.WellFormed) {o : Oracle} {all : List LimitChangeOpResponse}
    (hall : j.state.getAllChanges o = some all) : (all.map fun r => (r.user, r.currency)).Nodup := by
  have hmap := mapM_eq_some_iff.mp hall
  rw [List.map_id] at hmap
  have hinner : ∀ e ∈ j.state.users.iter o.users, ((e.2.limitChangeRequests.iter o.currencies).map fun e' =>
      (State.changeResponse e.2 e'.2).map fun r => (r.user, r.currency)) =
        ((e.2.limitChangeRequests.iter o.currencies).map (·.1)).map fun c => some (e.1, c) := by
    rintro ⟨u, ui⟩ he
    have hu := AssocMap.mem_iter_iff.mp he
    rw [List.map_map]
    refine List.map_congr_left ?_
    rintro ⟨c, l⟩ hl
    have hpending : j.state.limitChange? u c = some l := by
      rw [State.limitChange?, hu]
      exact AssocMap.mem_iter_iff.mp hl
    obtain ⟨hc, hname, i, hi⟩ := hw.limit hpending
    rw [State.currency?_of_get? hu] at hi
    simp only [State.changeResponse, hc, hi, Option.map_some, hname, Function.comp_apply]
  have hkeys : (all.map fun r => some (r.user, r.currency)) = (j.state.users.iter o.users).flatMap fun e =>
      (e.2.limitChangeRequests.iter o.currencies).map fun e' =>
        (State.changeResponse e.2 e'.2).map fun r => (r.user, r.currency) := by
    have hopt := congrArg (List.map (Option.map fun r : LimitChangeOpResponse => (r.user, r.currency))) hmap
    rw [List.map_flatMap] at hopt
    simpa only [List.map_map, Function.comp_def, Option.map_some] using hopt.symm
  refine List.Nodup.of_map some ?_
  rw [List.map_map]
  change (all.map fun r => some (r.user, r.currency)).Nodup
  rw [hkeys]
  refine nodup_flatMap_of_keys (AssocMap.iter_keys_nodup _ _) ?_ ?_
  · intro e he
    rw [hinner e he]
    exact (AssocMap.iter_keys_nodup _ _).map fun c c' hcc => (Prod.mk.inj (Option.some.inj hcc)).2
  · intro e he e' he' k hk hk'
    rw [hinner e he] at hk
    rw [hinner e' he'] at hk'
    obtain ⟨c, -, rfl⟩ := List.mem_map.mp hk
    obtain ⟨c', -, hk'⟩ := List.mem_map.mp hk'
    exact (Prod.mk.inj (Option.some.inj hk')).1.symm

/-- In every run with fresh identifiers, whatever the order of the maps: the State has the pages that the rows of the journal have
written, and what is shown of the limits is what is written in the book. A user is shown the limit in force of each of his accounts, in
the order of the currencies and with nothing spent, and of the changes those that he asks for, but only where all or the pending ones are
wanted; the operators are shown the changes that all users ask for, each with the limit in force. -/
theorem limits_told (h : machine.Reachable Fresh j) (o : Oracle) :
    (∀ u c, j.state.limitPage u c = j.limitPage u c) ∧
      (∀ cookie infos, Profile.getUserLimits j.state cookie o = some infos → ∃ u, cookie = some u ∧
        (∀ info, info ∈ infos ↔
          ∃ page, j.limitPage u info.currency = some page ∧ info.limitInfo = { limit := page.limit, spent := 0 }) ∧
        (infos.map (·.currency)).Nodup ∧ infos.Pairwise fun l₁ l₂ => l₁.currency.le l₂.currency = true) ∧
      (∀ cookie filter shown, Profile.getUserLimitChanges j.state cookie filter o = some shown → ∃ u, cookie = some u ∧
        (∀ r, r ∈ shown ↔ (filter.getD .all = .all ∨ filter.getD .all = .pending) ∧
          ∃ limit ask, j.limitPage u r.currency = some { limit := limit, asked := some ask } ∧ r = ask.shown u r.currency) ∧
        (shown.map (·.currency)).Nodup) ∧
      ∃ all, j.state.getAllChanges o = some all ∧
        (∀ r, r ∈ all ↔ ∃ limit ask, j.limitPage r.user r.currency = some { limit := limit, asked := some ask } ∧
          r = ask.shownToOps r.user r.currency limit) ∧
        (all.map fun r => (r.user, r.currency)).Nodup := by
  have hw := (built_of_reachable (fun _ _ hp => hp) h).wellFormed
  refine ⟨limitPage_of_reachable h, ?_, ?_, ?_⟩
  · intro cookie infos hinfos
    obtain ⟨ui, hui, rfl⟩ := Option.map_eq_some_iff.mp hinfos
    obtain ⟨u, rfl, hu⟩ := Profile.requireAuthUser_eq_some hui
    refine ⟨u, rfl, fun info => ?_, ?_, ?_⟩
    · rw [List.mem_mergeSort, List.mem_map]
      exact userLimits_told h hu o info
    · rw [((List.mergeSort_perm _ _).map _).nodup_iff, List.map_map]
      have hcur : (ui.currencies.iter o.currencies).map (fun e => e.2.currency) = (ui.currencies.iter o.currencies).map (·.1) := by
        refine List.map_congr_left ?_
        rintro ⟨c, i⟩ he
        exact (hw.account ((State.currency?_of_get? hu c).trans (AssocMap.mem_iter_iff.mp he))).currency
      exact hcur ▸ AssocMap.iter_keys_nodup _ _
    · refine List.pairwise_mergeSort ?_ ?_ _
      · exact fun _ _ _ => Currency.le_trans
      · exact fun l₁ l₂ => Currency.le_total l₁.currency l₂.currency
  · intro cookie filter shown hshown
    obtain ⟨ui, hui, rfl⟩ := Option.map_eq_some_iff.mp hshown
    obtain ⟨u, rfl, hu⟩ := Profile.requireAuthUser_eq_some hui
    refine ⟨u, rfl, fun r => ?_, ?_⟩
    · rw [← userChanges_told h hu o, List.mem_filterMap]
      simp only [Option.ite_none_right_eq_some, Option.some.injEq]
    · refine nodup_filterMap_of_keys (AssocMap.iter_keys_nodup _ _) ?_
      rintro ⟨c, l⟩ he r hr
      have hl : j.state.limitChange? u c = some l := by
        rw [State.limitChange?, hu]
        exact AssocMap.mem_iter_iff.mp he
      obtain ⟨-, hr⟩ := Option.ite_none_right_eq_some.mp hr
      obtain rfl := Option.some.inj hr
      exact (hw.limit hl).1
  · obtain ⟨all, hall⟩ := Option.ne_none_iff_exists'.mp (hw.getAllChanges o)
    exact ⟨all, hall, allChanges_told h hall, allChanges_nodup hw hall⟩

open Sample in
/-- Alice asks for a limit, and one operator confirms: she is shown the change with one vote for it, and so it stands in the book. -/
theorem limits_told_alice : ∃ j : Journal, machine.Reachable Fresh j ∧ ∃ limit ask,
    j.limitPage alice .btc = some { limit := limit, asked := some ask } ∧ j.state.limitPage alice .btc = j.limitPage alice .btc ∧
      ask.status = .inProgress 1 0 := by
  obtain ⟨j, hj, hq⟩ := Machine.exists_reachable (P := Fresh)
    (signup ++ [upd 3 (.limitsChangeRequest { user := alice, currency := .btc, limit := { amount := 10, span := .day } }),
      upd 4 (.limitChangeDecision (numberedVote .confirm 1))])
    (q := fun j => decide ((Profile.getUserLimitChanges j.state (some alice) none oracle).map
      (·.map fun r => (r.currency, r.status)) = some [(.btc, .inProgress 1 0)])) start_init (by decide +kernel)
  obtain ⟨shown, hshown, hone⟩ := Option.map_eq_some_iff.mp (of_decide_eq_true hq)
  obtain ⟨u, hu, hmem, -⟩ := (limits_told hj oracle).2.2.1 (some alice) none shown hshown
  obtain rfl := Option.some.inj hu
  obtain ⟨r, hr, heq⟩ := List.mem_map.mp (hone ▸ List.mem_singleton_self (Currency.btc, LimitChangeStatus.inProgress 1 0))
  obtain ⟨hcurrency, hstatus⟩ := Prod.mk.inj heq
  obtain ⟨-, limit, ask, hpage, hask⟩ := (hmem r).mp hr
  rw [hcurrency] at hpage
  rw [hask] at hstatus
  exact ⟨j, hj, limit, ask, hpage, (limits_told hj oracle).1 alice .btc, hstatus⟩

end Journal

end Hexstody
