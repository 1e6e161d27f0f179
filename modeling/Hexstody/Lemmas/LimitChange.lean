import Hexstody.Lemmas.Users

/-!
# The changes of limits that are asked for

A user has at most one change of a limit pending in a currency. It is opened with no votes, voted on, and closed when it is
decided, canceled or when its token is disabled (`LimitRequestChange`); all other updates leave it as it is. On each side of it no
key votes twice (`LimitChangeData.Distinct`).
-/

namespace Hexstody

namespace LimitChangeData

/-- The keys that confirm the change. -/
def confirmKeys (l : LimitChangeData) : List PublicKey := l.confirmations.map (·.publicKey)

/-- The keys that reject the change. -/
def rejectKeys (l : LimitChangeData) : List PublicKey := l.rejections.map (·.publicKey)

/-- No key votes twice on a side. -/
structure Distinct (l : LimitChangeData) : Prop where
  confirmations : l.confirmKeys.Nodup
  rejections : l.rejectKeys.Nodup

/-- The decision is a vote that its key has given on this side already. -/
def HasVote (l : LimitChangeData) (lcd : LimitChangeDecision) : Prop :=
  (lcd.decisionType = .confirm ∧ lcd.publicKey ∈ l.confirmKeys) ∨ (lcd.decisionType = .reject ∧ lcd.publicKey ∈ l.rejectKeys)

theorem hasConfirmed_iff {l : LimitChangeData} {k : PublicKey} : l.hasConfirmed k = true ↔ k ∈ l.confirmKeys := by
  simp [hasConfirmed, hasSigned, confirmKeys]

theorem hasRejected_iff {l : LimitChangeData} {k : PublicKey} : l.hasRejected k = true ↔ k ∈ l.rejectKeys := by
  simp [hasRejected, hasSigned, rejectKeys]

variable {l l' : LimitChangeData} {lcd : LimitChangeDecision}

/-- An accepted vote is one that its key has not given yet, and is added on its side. -/
theorem applyDecision_eq_ok (h : l.applyDecision lcd = .ok l') :
    (lcd.decisionType = .confirm ∧ lcd.publicKey ∉ l.confirmKeys ∧ l'.confirmKeys = l.confirmKeys ++ [lcd.publicKey] ∧
        l'.rejectKeys = l.rejectKeys) ∨
      (lcd.decisionType = .reject ∧ lcd.publicKey ∉ l.rejectKeys ∧ l'.rejectKeys = l.rejectKeys ++ [lcd.publicKey] ∧
        l'.confirmKeys = l.confirmKeys) := by
  unfold applyDecision at h
  cases hst : l.status with
  | completed => simp [hst] at h
  | rejected => simp [hst] at h
  | inProgress confirmations rejections =>
    simp only [hst] at h
    cases hd : lcd.decisionType with
    | confirm =>
      simp only [hd] at h
      by_cases hk : l.hasConfirmed lcd.publicKey = true
      · rw [if_pos hk] at h
        cases h
      · rw [if_neg hk] at h
        have hnot : lcd.publicKey ∉ l.confirmKeys := fun hm => hk (hasConfirmed_iff.mpr hm)
        refine Or.inl ⟨rfl, hnot, ?_⟩
        split at h <;>
          · obtain rfl := Except.ok.inj h
            exact ⟨by simp [confirmKeys], rfl⟩
    | reject =>
      simp only [hd] at h
      by_cases hk : l.hasRejected lcd.publicKey = true
      · rw [if_pos hk] at h
        cases h
      · rw [if_neg hk] at h
        have hnot : lcd.publicKey ∉ l.rejectKeys := fun hm => hk (hasRejected_iff.mpr hm)
        refine Or.inr ⟨rfl, hnot, ?_⟩
        split at h <;>
          · obtain rfl := Except.ok.inj h
            exact ⟨by simp [rejectKeys], rfl⟩

/-- What a vote leaves of a change: whose it is, and what is asked for. -/
structure SameChange (l l' : LimitChangeData) : Prop where
  id : l'.id = l.id
  user : l'.user = l.user
  currency : l'.currency = l.currency
  limit : l'.limit = l.limit

theorem applyDecision_sameChange (h : l.applyDecision lcd = .ok l') : l.SameChange l' := by
  unfold applyDecision at h
  cases hst : l.status with
  | completed => simp [hst] at h
  | rejected => simp [hst] at h
  | inProgress confirmations rejections =>
    simp only [hst] at h
    split at h
    all_goals
      split at h
      · cases h
      · split at h <;>
          · obtain rfl := Except.ok.inj h
            exact ⟨rfl, rfl, rfl, rfl⟩

/-- The vote is one more confirmation, and with it there are enough. -/
def isLastConfirm (l : LimitChangeData) (lcd : LimitChangeDecision) : Bool :=
  match l.status, lcd.decisionType with
  | .inProgress confirmations rejections, .confirm => decide (confirmations + 1 - rejections ≥ 2)
  | _, _ => false

/-- The status counts the votes, and neither side is ahead by two. -/
structure Open (l : LimitChangeData) : Prop where
  status : l.status = .inProgress (Int16.ofNat l.confirmKeys.length) (Int16.ofNat l.rejectKeys.length)
  ahead : l.confirmKeys.length ≤ l.rejectKeys.length + 1
  behind : l.rejectKeys.length ≤ l.confirmKeys.length + 1

/-- The count says who is ahead, however many votes there are: only the difference matters. -/
theorem two_ahead_iff {m n : Nat} (h1 : m ≤ n + 1) (h2 : n ≤ m + 1) :
    Int16.ofNat m + 1 - Int16.ofNat n ≥ 2 ↔ m = n + 1 := by
  have hcases : m = n + 1 ∨ m = n ∨ n = m + 1 := by omega
  rcases hcases with rfl | rfl | rfl
  · have hdiff : Int16.ofNat (n + 1) + 1 - Int16.ofNat n = 2 := by
      rw [Int16.ofNat_add]
      generalize Int16.ofNat n = x
      rw [← Int16.toBitVec_inj]
      change x.toBitVec + 1#16 + 1#16 - x.toBitVec = 2#16
      bv_omega
    rw [hdiff]
    simp
  · have hdiff : Int16.ofNat m + 1 - Int16.ofNat m = 1 := by
      generalize Int16.ofNat m = x
      rw [← Int16.toBitVec_inj]
      simp
    rw [hdiff]
    simp
  · have hdiff : Int16.ofNat m + 1 - Int16.ofNat (m + 1) = 0 := by
      rw [Int16.ofNat_add]
      generalize Int16.ofNat m = x
      rw [← Int16.toBitVec_inj]
      simp
    rw [hdiff]
    simp
    omega

/-- A vote on a change that is open completes it when it is the confirmation that puts its side ahead by two, has it rejected when it
is the rejection that does, and leaves it open otherwise. -/
theorem Open.applyDecision_cases (ho : l.Open) (h : l.applyDecision lcd = .ok l') :
    (l'.status = .completed ∧ l.isLastConfirm lcd = true ∧ lcd.decisionType = .confirm ∧
        l'.confirmKeys.length = l'.rejectKeys.length + 2) ∨
      (l'.status = .rejected ∧ l.isLastConfirm lcd = false ∧ lcd.decisionType = .reject ∧
        l'.rejectKeys.length = l'.confirmKeys.length + 2) ∨
      (l'.Open ∧ l.isLastConfirm lcd = false) := by
  have hahead := two_ahead_iff ho.ahead ho.behind
  have hbehind := two_ahead_iff ho.behind ho.ahead
  unfold isLastConfirm
  unfold LimitChangeData.applyDecision at h
  simp only [ho.status] at h ⊢
  cases hd : lcd.decisionType with
  | confirm =>
    simp only [hd] at h ⊢
    split at h
    · cases h
    · split at h
      · rename_i hge
        obtain rfl := Except.ok.inj h
        have hm := hahead.mp hge
        refine Or.inl ⟨rfl, decide_eq_true hge, trivial, ?_⟩
        simp [confirmKeys, rejectKeys] at hm ⊢
        omega
      · rename_i hlt
        obtain rfl := Except.ok.inj h
        refine Or.inr (Or.inr ⟨⟨?_, ?_, ?_⟩, decide_eq_false hlt⟩)
        · simp [confirmKeys, rejectKeys, Int16.ofNat_add]
        · have hne := fun hm => hlt (hahead.mpr hm)
          have hle := ho.ahead
          simp [confirmKeys, rejectKeys] at hne hle ⊢
          omega
        · have hle := ho.behind
          simp [confirmKeys, rejectKeys] at hle ⊢
          omega
  | reject =>
    simp only [hd] at h ⊢
    split at h
    · cases h
    · split at h
      · rename_i hge
        obtain rfl := Except.ok.inj h
        have hm := hbehind.mp hge
        refine Or.inr (Or.inl ⟨rfl, trivial, trivial, ?_⟩)
        simp [confirmKeys, rejectKeys] at hm ⊢
        omega
      · rename_i hlt
        obtain rfl := Except.ok.inj h
        refine Or.inr (Or.inr ⟨⟨?_, ?_, ?_⟩, trivial⟩)
        · simp [confirmKeys, rejectKeys, Int16.ofNat_add]
        · have hle := ho.ahead
          simp [confirmKeys, rejectKeys] at hle ⊢
          omega
        · have hne := fun hm => hlt (hbehind.mpr hm)
          have hle := ho.behind
          simp [confirmKeys, rejectKeys] at hne hle ⊢
          omega

/-- A vote on a change that is open: it stays open, or is decided; and it is completed by the confirmation that puts one side
ahead by two. -/
theorem Open.applyDecision (ho : l.Open) (h : l.applyDecision lcd = .ok l') :
    (l'.status = .completed ∧ l.isLastConfirm lcd = true ∧ 2 ≤ l'.confirmKeys.length) ∨
      (l'.status ≠ .completed ∧ l.isLastConfirm lcd = false ∧ (l'.Open ∨ l'.status = .rejected)) := by
  rcases ho.applyDecision_cases h with ⟨hst, hlast, -, hlen⟩ | ⟨hst, hlast, -, -⟩ | ⟨hopen, hlast⟩
  · exact Or.inl ⟨hst, hlast, by omega⟩
  · exact Or.inr ⟨by simp [hst], hlast, Or.inr hst⟩
  · exact Or.inr ⟨by simp [hopen.status], hlast, Or.inl hopen⟩

/-- A vote that its key has not given is taken, when the change is open. -/
theorem Open.exists_ok (ho : l.Open) (h : ¬l.HasVote lcd) : ∃ l', l.applyDecision lcd = .ok l' := by
  unfold LimitChangeData.applyDecision
  simp only [ho.status]
  cases hd : lcd.decisionType with
  | confirm =>
    have hnot : ¬l.hasConfirmed lcd.publicKey = true := fun hc => h (Or.inl ⟨hd, hasConfirmed_iff.mp hc⟩)
    simp only [if_neg hnot]
    split <;> exact ⟨_, rfl⟩
  | reject =>
    have hnot : ¬l.hasRejected lcd.publicKey = true := fun hc => h (Or.inr ⟨hd, hasRejected_iff.mp hc⟩)
    simp only [if_neg hnot]
    split <;> exact ⟨_, rfl⟩

/-- A vote keeps the votes distinct. -/
theorem Distinct.applyDecision (hl : l.Distinct) (h : l.applyDecision lcd = .ok l') : l'.Distinct := by
  rcases applyDecision_eq_ok h with ⟨-, hk, hc, hr⟩ | ⟨-, hk, hr, hc⟩
  · refine ⟨?_, hr ▸ hl.rejections⟩
    rw [hc]
    exact List.Nodup.append hl.confirmations (List.nodup_singleton _) (by simpa using hk)
  · refine ⟨hc ▸ hl.confirmations, ?_⟩
    rw [hr]
    exact List.Nodup.append hl.rejections (List.nodup_singleton _) (by simpa using hk)

/-- An accepted vote was not there before, and is there afterwards. -/
theorem applyDecision_hasVote (h : l.applyDecision lcd = .ok l') : ¬l.HasVote lcd ∧ l'.HasVote lcd := by
  rcases applyDecision_eq_ok h with ⟨hd, hk, hc, -⟩ | ⟨hd, hk, hr, -⟩
  · refine ⟨?_, Or.inl ⟨hd, ?_⟩⟩
    · rintro (⟨-, hm⟩ | ⟨hd', -⟩)
      · exact hk hm
      · rw [hd] at hd'
        cases hd'
    · rw [hc]
      exact List.mem_append_right _ (List.mem_singleton_self _)
  · refine ⟨?_, Or.inr ⟨hd, ?_⟩⟩
    · rintro (⟨hd', -⟩ | ⟨-, hm⟩)
      · rw [hd] at hd'
        cases hd'
      · exact hk hm
    · rw [hr]
      exact List.mem_append_right _ (List.mem_singleton_self _)

end LimitChangeData

/-- How an accepted update changes the change of a limit that is pending. -/
inductive LimitRequestChange (up : StateUpdate) (u : UserId) (c : Currency) :
    Option LimitChangeData → Option LimitChangeData → Prop where
  | same (a : Option LimitChangeData) : LimitRequestChange up u c a a
  | closed (a : Option LimitChangeData) : LimitRequestChange up u c a none
  | opened (a : Option LimitChangeData) (l : LimitChangeData) : l.confirmations = [] → l.rejections = [] →
      LimitRequestChange up u c a (some l)
  | voted (l l' : LimitChangeData) (lcd : LimitChangeDecision) : up.body = .limitChangeDecision lcd →
      l.applyDecision lcd = .ok l' → LimitRequestChange up u c (some l) (some l')

/-- A change of a limit as it is asked for, with no votes. -/
def LimitChangeData.asked (o : Oracle) (username : UserId) (req : LimitChangeUpd) : LimitChangeData where
  id := o.newId
  user := username
  createdAt := o.now
  status := .inProgress 0 0
  currency := req.currency
  limit := req.limit
  confirmations := []
  rejections := []

/-- The vote decides the change. -/
def LimitChangeData.isDecided (l : LimitChangeData) : Bool :=
  match l.status with
  | .inProgress _ _ => false
  | _ => true

/-- How an accepted update changes the change of a limit that is pending, with what the update had to meet. -/
inductive PendingChange (s : State) (o : Oracle) (up : StateUpdate) (u : UserId) (c : Currency) :
    Option LimitChangeData → Option LimitChangeData → Prop where
  | same (a : Option LimitChangeData) : PendingChange s o up u c a a
  | asked (a : Option LimitChangeData) (ui : UserInfo) (i : UserCurrencyInfo) (req : LimitChangeUpd) :
      up.body = .limitsChangeRequest req → req.user = u → req.currency = c → s.users.get? u = some ui →
      ui.currencies.get? c = some i → PendingChange s o up u c a (some (.asked o ui.username req))
  | canceled (a : Option LimitChangeData) (req : LimitCancelData) : up.body = .cancelLimitChange req → req.user = u →
      req.currency = c → PendingChange s o up u c a none
  | disabled (a : Option LimitChangeData) (token : Erc20Token) :
      up.body = .updateTokens { user := u, token := token, action := .disable } → c = .erc20 token →
      PendingChange s o up u c a none
  | voted (l l' : LimitChangeData) (lcd : LimitChangeDecision) : up.body = .limitChangeDecision lcd → lcd.user = u →
      lcd.currency = c → l.applyDecision lcd = .ok l' → l'.isDecided = false →
      PendingChange s o up u c (some l) (some l')
  | decided (l l' : LimitChangeData) (lcd : LimitChangeDecision) : up.body = .limitChangeDecision lcd → lcd.user = u →
      lcd.currency = c → l.applyDecision lcd = .ok l' → l'.isDecided = true → PendingChange s o up u c (some l) none

theorem PendingChange.of_eq {s : State} {o : Oracle} {up : StateUpdate} {u : UserId} {c : Currency}
    {a a' : Option LimitChangeData} (h : a' = a) : PendingChange s o up u c a a' := h ▸ .same a'

/-- How the votes of a pending change are changed, and nothing more. -/
theorem PendingChange.limitRequestChange {s : State} {o : Oracle} {up : StateUpdate} {u : UserId} {c : Currency}
    {a a' : Option LimitChangeData} (h : PendingChange s o up u c a a') : LimitRequestChange up u c a a' := by
  cases h with
  | same => exact .same _
  | asked => exact .opened _ _ rfl rfl
  | canceled => exact .closed _
  | disabled => exact .closed _
  | voted l l' lcd hb _ _ ha _ => exact .voted l l' lcd hb ha
  | decided => exact .closed _

namespace State

variable {s s' : State} {u : UserId} {c : Currency}

/-- The pending changes are apart from the accounts. -/
theorem apart_limitChangeRequests : Apart UserInfo.limitChangeRequests := fun _ _ => rfl

theorem limitChange?_of_part (h : s'.part u (·.limitChangeRequests) = s.part u (·.limitChangeRequests)) :
    s'.limitChange? u c = s.limitChange? u c := by
  have key : ∀ s : State, s.limitChange? u c = (s.part u (·.limitChangeRequests)).bind (·.get? c) := by
    intro s
    rw [part, Option.bind_map]
    rfl
  rw [key, key, h]

/-- What a change of a user leaves of the changes of limits. -/
theorem limitChange?_modifyUser (s : State) (u u' : UserId) (c : Currency) (f : UserInfo → UserInfo) :
    (s.modifyUser u' f).limitChange? u c =
      if u = u' then (s.users.get? u).bind (fun ui => (f ui).limitChangeRequests.get? c) else s.limitChange? u c := by
  simp only [modifyUser, limitChange?, AssocMap.get?_modify]
  by_cases h : u = u'
  · rw [if_pos h, if_pos h, Option.bind_map]
    rfl
  · rw [if_neg h, if_neg h]

/-- A user who signs up has no pending changes, and no one else's are touched. -/
theorem withSignup_limitChange {t : NaiveDateTime} {info : SignupInfo} :
    (s.withSignup t info).1.limitChange? u c = s.limitChange? u c := by
  rcases part_withSignup (p := (·.limitChangeRequests)) (u := u) s t info with hsame | ⟨-, hnone, hnew⟩
  · exact limitChange?_of_part hsame
  · obtain ⟨ui, hui, hlimits⟩ := Option.map_eq_some_iff.mp hnew
    rw [limitChange?, limitChange?, hui, hnone, Option.bind_some, hlimits]
    rfl

/-! ## The methods that change it -/

/-- A user whose pending changes are closed in a currency. -/
theorem limitChange?_modifyUser_closed (s : State) (u' : UserId) (c' : Currency) (f : UserInfo → UserInfo)
    (hf : ∀ ui, (f ui).limitChangeRequests = ui.limitChangeRequests.erase c') :
    (s.modifyUser u' f).limitChange? u c = if u = u' ∧ c = c' then none else s.limitChange? u c := by
  rw [limitChange?_modifyUser]
  by_cases hu : u = u'
  · rw [if_pos hu]
    simp only [hf, AssocMap.get?_erase]
    by_cases hc : c = c'
    · simp only [if_pos hc, Option.bind_fun_none, if_pos (And.intro hu hc)]
    · simp only [if_neg hc, if_neg (fun h : u = u' ∧ c = c' => hc h.2)]
      rfl
  · rw [if_neg hu, if_neg (fun h => hu h.1)]

theorem cancelLimitChange_pending {o : Oracle} {up : StateUpdate} {req : LimitCancelData}
    (hb : up.body = .cancelLimitChange req) :
    PendingChange s o up u c (s.limitChange? u c) ((s.cancelLimitChange req).1.limitChange? u c) := by
  unfold cancelLimitChange updateUser
  split
  · rw [limitChange?_modifyUser_closed s req.user req.currency _ (fun _ => rfl)]
    by_cases huc : u = req.user ∧ c = req.currency
    · rw [if_pos huc]
      exact .canceled _ req hb huc.1.symm huc.2.symm
    · rw [if_neg huc]
      exact .same _
  · exact .same _

theorem updateTokens_pending {o : Oracle} {up : StateUpdate} {req : TokenUpdate} (hb : up.body = .updateTokens req) :
    PendingChange s o up u c (s.limitChange? u c) ((s.updateTokens req).1.limitChange? u c) := by
  obtain ⟨user, token, action⟩ := req
  unfold updateTokens
  simp only
  split
  · exact .same _
  · cases action with
    | enable =>
      simp only
      split
      · exact .same _
      · exact .of_eq (limitChange?_of_part (part_modifyUser_same s user _ (fun _ => rfl)))
    | disable =>
      simp only
      split
      · exact .same _
      · split
        · exact .same _
        · rw [limitChange?_modifyUser_closed s user (.erc20 token) _ (fun _ => rfl)]
          by_cases huc : u = user ∧ c = .erc20 token
          · obtain ⟨rfl, hc⟩ := huc
            rw [if_pos ⟨rfl, hc⟩]
            exact .disabled _ token hb hc
          · rw [if_neg huc]
            exact .same _

theorem insertLimitsReq_pending {o : Oracle} {up : StateUpdate} {req : LimitChangeUpd}
    (hb : up.body = .limitsChangeRequest req) :
    PendingChange s o up u c (s.limitChange? u c) ((s.insertLimitsReq o req).1.limitChange? u c) := by
  unfold insertLimitsReq
  split
  · exact .same _
  · rename_i ui hu
    split
    · exact .same _
    · rename_i i hi
      rw [limitChange?_modifyUser]
      by_cases hu' : u = req.user
      · subst hu'
        rw [if_pos rfl, hu, Option.bind_some]
        simp only [AssocMap.get?_insert]
        by_cases hc : c = req.currency
        · subst hc
          rw [if_pos rfl]
          exact .asked _ ui i req hb rfl rfl hu hi
        · rw [if_neg hc, limitChange?, hu]
          exact .same _
      · rw [if_neg hu']
        exact .same _

/-- What a decision does to the change that it is about: it is closed if the vote decides it, and has the vote otherwise. -/
theorem withLimitChangeDecision_eq_ok {lcd : LimitChangeDecision} (h : s.withLimitChangeDecision lcd = (s', .ok ())) :
    ∃ l l', s.limitChange? lcd.user lcd.currency = some l ∧ l.applyDecision lcd = .ok l' ∧
      s'.limitChange? lcd.user lcd.currency = (if l'.isDecided then none else some l') ∧
      ∀ u c, ¬(u = lcd.user ∧ c = lcd.currency) → s'.limitChange? u c = s.limitChange? u c := by
  unfold withLimitChangeDecision at h
  cases hu : s.users.get? lcd.user with
  | none => simp [hu] at h
  | some usr =>
    cases hl : usr.limitChangeRequests.get? lcd.currency with
    | none => simp [hu, hl] at h
    | some l =>
      cases ha : l.applyDecision lcd with
      | error e => simp [hu, hl, ha] at h
      | ok l' =>
        have hpending : s.limitChange? lcd.user lcd.currency = some l := by
          rw [limitChange?, hu, Option.bind_some, hl]
        refine ⟨l, l', hpending, ha, ?_⟩
        simp only [hu, hl, ha] at h
        -- a vote that decides the change closes it, whatever else it does to the user
        have hclosed : ∀ f : UserInfo → UserInfo, (∀ ui, (f ui).limitChangeRequests = ui.limitChangeRequests.erase lcd.currency) →
            s' = s.modifyUser lcd.user f → l'.isDecided = true →
            s'.limitChange? lcd.user lcd.currency = (if l'.isDecided then none else some l') ∧
              ∀ u c, ¬(u = lcd.user ∧ c = lcd.currency) → s'.limitChange? u c = s.limitChange? u c := by
          rintro f hf rfl hd
          refine ⟨?_, fun u c huc => ?_⟩
          · rw [limitChange?_modifyUser_closed s lcd.user lcd.currency f hf, if_pos ⟨rfl, rfl⟩, if_pos hd]
          · rw [limitChange?_modifyUser_closed s lcd.user lcd.currency f hf, if_neg huc]
        split at h
        · rename_i hst
          exact hclosed _ (fun _ => rfl) (Prod.mk.inj h).1.symm (by simp [LimitChangeData.isDecided, hst])
        · rename_i hst
          exact hclosed _ (fun _ => rfl) (Prod.mk.inj h).1.symm (by simp [LimitChangeData.isDecided, hst])
        · rename_i hst
          have hopen : l'.isDecided = false := by simp [LimitChangeData.isDecided, hst]
          obtain rfl := (Prod.mk.inj h).1
          refine ⟨?_, fun u c huc => ?_⟩
          · rw [limitChange?_modifyUser, if_pos rfl, hu, Option.bind_some, AssocMap.get?_modify_self, hl, hopen]
            rfl
          · rw [limitChange?_modifyUser]
            by_cases heq : u = lcd.user
            · have hc : c ≠ lcd.currency := fun hc => huc ⟨heq, hc⟩
              rw [if_pos heq, heq, limitChange?, hu]
              simp only [Option.bind_some, AssocMap.get?_modify, if_neg hc]
            · rw [if_neg heq]

/-- A decision that is accepted is about a pending change. -/
theorem limitDecision_of_applyUpdate {o : Oracle} {up : StateUpdate} {res : Option UpdateResult} {lcd : LimitChangeDecision}
    (h : s.applyUpdate o up = (s', .ok res)) (hb : up.body = .limitChangeDecision lcd) :
    ∃ l l', s.limitChange? lcd.user lcd.currency = some l ∧ l.applyDecision lcd = .ok l' ∧
      s'.limitChange? lcd.user lcd.currency = if l'.isDecided then none else some l' := by
  unfold State.applyUpdate at h
  rw [hb] at h
  obtain ⟨s₁, a, hout, rfl, -⟩ := stamped_eq_ok h
  obtain ⟨l, l', hl, hd, hafter, -⟩ := withLimitChangeDecision_eq_ok hout
  exact ⟨l, l', hl, hd, hafter⟩

theorem withLimitChangeDecision_pending {o : Oracle} {up : StateUpdate} {lcd : LimitChangeDecision}
    (hb : up.body = .limitChangeDecision lcd) (h : s.withLimitChangeDecision lcd = (s', .ok ())) :
    PendingChange s o up u c (s.limitChange? u c) (s'.limitChange? u c) := by
  obtain ⟨l, l', hl, ha, hafter, hother⟩ := withLimitChangeDecision_eq_ok h
  by_cases huc : u = lcd.user ∧ c = lcd.currency
  · obtain ⟨rfl, rfl⟩ := huc
    rw [hl, hafter]
    cases hd : l'.isDecided with
    | false => exact .voted l l' lcd hb rfl rfl ha hd
    | true => exact .decided l l' lcd hb rfl rfl ha hd
  · rw [hother u c huc]
    exact .same _

/-! ## The updates -/

/-- A method that leaves the pending changes as they are. -/
theorem pending_of_same {α : Type} {o : Oracle} {up : StateUpdate} {created : NaiveDateTime} {out : Outcome α}
    {f : α → Option UpdateResult} {res : Option UpdateResult} (h : stamped created out f = (s', .ok res))
    (hm : out.1.part u (·.limitChangeRequests) = s.part u (·.limitChangeRequests)) :
    PendingChange s o up u c (s.limitChange? u c) (s'.limitChange? u c) :=
  .of_eq (limitChange?_of_part (part_of_stamped h hm))

/-- A method that changes them. -/
theorem pending_of_change {α : Type} {o : Oracle} {up : StateUpdate} {created : NaiveDateTime} {out : Outcome α}
    {f : α → Option UpdateResult} {res : Option UpdateResult} (h : stamped created out f = (s', .ok res))
    (hm : PendingChange s o up u c (s.limitChange? u c) (out.1.limitChange? u c)) :
    PendingChange s o up u c (s.limitChange? u c) (s'.limitChange? u c) := by
  obtain ⟨s₁, a, rfl, rfl, -⟩ := stamped_eq_ok h
  exact hm

end State

open State in
/-- What an accepted update, other than a snapshot, does to the change of a limit that is pending, and why. -/
theorem applyUpdate_pending {s s' : State} {o : Oracle} {up : StateUpdate} {res : Option UpdateResult}
    (h : s.applyUpdate o up = (s', .ok res)) (hs : ¬up.body.IsSnapshot) (u : UserId) (c : Currency) :
    PendingChange s o up u c (s.limitChange? u c) (s'.limitChange? u c) := by
  have hp := apart_limitChangeRequests
  unfold State.applyUpdate at h
  cases hb : up.body with
  | snapshot s₀ => exact absurd (by rw [hb]; trivial) hs
  | signup info => rw [hb] at h; exact pending_of_change h (.of_eq withSignup_limitChange)
  | createWithdrawalRequest info => rw [hb] at h; exact pending_of_same h (part_withNewWithdrawalRequest hp ..)
  | withdrawalRequestDecision d => rw [hb] at h; exact pending_of_same h (part_withWithdrawalRequestDecision hp ..)
  | withdrawalRequestComplete info => rw [hb] at h; exact pending_of_same h (part_mapCurrencies hp ..)
  | withdrawalRequestNodeRejected info => rw [hb] at h; exact pending_of_same h (part_mapCurrencies hp ..)
  | depositAddress dep => rw [hb] at h; exact pending_of_same h (part_withDepositAddress hp ..)
  | bestBtcBlock btc => rw [hb] at h; exact pending_of_same h rfl
  | updateBtcTx tx => rw [hb] at h; exact pending_of_same h (part_withBtcTxUpdate hp ..)
  | cancelBtcTx tx => rw [hb] at h; exact pending_of_same h (part_withBtcTxCancel hp ..)
  | updateTokens req => rw [hb] at h; exact pending_of_change h (updateTokens_pending hb)
  | genInvite req => rw [hb] at h; exact pending_of_same h (part_genInvite ..)
  | limitsChangeRequest req => rw [hb] at h; exact pending_of_change h (insertLimitsReq_pending hb)
  | cancelLimitChange req => rw [hb] at h; exact pending_of_change h (cancelLimitChange_pending hb)
  | limitChangeDecision lcd =>
    rw [hb] at h
    obtain ⟨s₁, a, hout, rfl, -⟩ := stamped_eq_ok h
    change PendingChange s o up u c (s.limitChange? u c) (s₁.limitChange? u c)
    exact withLimitChangeDecision_pending hb hout
  | clearLimits span => rw [hb] at h; exact pending_of_same h (part_mapCurrencies hp ..)
  | setLanguage req => rw [hb] at h; exact pending_of_same h (part_updateUser_same _ _ _ (fun _ => rfl))
  | configUpdate req => rw [hb] at h; exact pending_of_same h (part_updateUser_same _ _ _ (fun _ => rfl))
  | passwordChange req => rw [hb] at h; exact pending_of_same h (part_updateUser_same _ _ _ (fun _ => rfl))
  | setPublicKey req => rw [hb] at h; exact pending_of_same h (part_updateUser_same _ _ _ (fun _ => rfl))
  | exchangeRequest req => rw [hb] at h; exact pending_of_same h (part_addExchangeRequest hp ..)
  | exchangeDecision req => rw [hb] at h; exact pending_of_same h (part_withExchangeDecision hp ..)
  | exchangeAddress req => rw [hb] at h; exact pending_of_same h rfl

/-- What an accepted update, other than a snapshot, does to the votes on the change of a limit that is pending. -/
theorem applyUpdate_limitChange {s s' : State} {o : Oracle} {up : StateUpdate} {res : Option UpdateResult}
    (h : s.applyUpdate o up = (s', .ok res)) (hs : ¬up.body.IsSnapshot) (u : UserId) (c : Currency) :
    LimitRequestChange up u c (s.limitChange? u c) (s'.limitChange? u c) :=
  (applyUpdate_pending h hs u c).limitRequestChange

end Hexstody
