import Hexstody.Lemmas.Journal
import Hexstody.Lemmas.Users
import Hexstody.Tokens

/-!
# The tokens that the ETH module tracks

`disable_token` posts the token that it disables, once for each token that is left, so the list is wrong unless it was the last one;
and each handler computes its list from a clone, so that a list that is posted may lack what an overlapping request changed, or have
what it removed. The list is right, whenever nothing is under way, if a user's requests do not overlap, only a user's last token is
disabled, the updates are accepted when their turn comes, and the lists arrive (`TokenApi.InTurn`, `TokenApi.token_list_tracks`). Of
a request that is alone, the kind alone decides.
-/

namespace Hexstody

/-! ## The lists of the handlers -/

theorem mem_filterTokens {curs : List Currency} {token : Erc20Token} : token ∈ filterTokens curs ↔ .erc20 token ∈ curs := by
  unfold filterTokens
  rw [List.mem_filterMap]
  constructor
  · rintro ⟨c, hc, h⟩
    cases c with
    | erc20 t =>
      obtain rfl := Option.some.inj h
      exact hc
    | _ => cases h
  · exact fun h => ⟨_, h, rfl⟩

/-- The tokens of a user are those with an account. -/
theorem State.mem_userTokens {s : State} {u : UserId} {token : Erc20Token} :
    token ∈ s.userTokens u ↔ (s.currency? u (.erc20 token)).isSome = true := by
  unfold State.userTokens State.currency?
  cases s.users.get? u with
  | none => simp
  | some user =>
    rw [mem_filterTokens, Option.bind_some]
    exact (AList.mem_keys.symm).trans AList.lookup_isSome.symm

/-- What a change makes of a set of tokens. -/
def TokenUpdate.after (req : TokenUpdate) (has : Erc20Token → Prop) (token : Erc20Token) : Prop :=
  match req.action with
  | .enable => has token ∨ token = req.token
  | .disable => has token ∧ token ≠ req.token

/-- What a change needs to be accepted: the token is not enabled, or it is, with a balance of zero. -/
def State.Ready (s : State) (req : TokenUpdate) : Prop :=
  match req.action with
  | .enable => s.currency? req.user (.erc20 req.token) = none
  | .disable => ∃ i, s.currency? req.user (.erc20 req.token) = some i ∧ i.balance = 0

/-- The list that a handler posts is right if the change is one that it gets right: to enable, or to disable the only token. -/
def OnlyToken (s : State) (u : UserId) (token : Erc20Token) (action : TokenAction) : Prop :=
  action = .disable → ∀ t ∈ s.userTokens u, t = token

namespace Handlers

variable {s : State} {u : UserId} {user : UserInfo} {token : Erc20Token} {action : TokenAction} {task : TokenTask}

/-- What a handler does not refuse is ready to be applied. -/
theorem changeToken_ready (hu : s.users.get? u = some user) (hname : user.username = u)
    (h : changeToken user token action = .ok task) :
    task.update = { user := u, token := token, action := action } ∧ task.sent = false ∧ s.Ready task.update := by
  have hcur : ∀ c, s.currency? u c = user.currencies.get? c := State.currency?_of_get? hu
  subst hname
  cases action with
  | enable =>
    obtain ⟨hnone, rfl⟩ := enableToken_eq_ok h
    exact ⟨rfl, rfl, (hcur _).trans hnone⟩
  | disable =>
    obtain ⟨⟨info, hinfo, hbal⟩, rfl⟩ := disableToken_eq_ok h
    exact ⟨rfl, rfl, info, (hcur _).trans hinfo, hbal⟩

/-- The list that a handler posts is the one after the change exactly if the kind of the change is right. -/
theorem changeToken_tokens (hu : s.users.get? u = some user) (h : changeToken user token action = .ok task) :
    (∀ t, t ∈ task.tokens ↔ task.update.after (· ∈ s.userTokens u) t) ↔ OnlyToken s u token action := by
  have htokens : s.userTokens u = filterTokens user.currencies.keys := by rw [State.userTokens, hu]
  cases action with
  | enable =>
    obtain ⟨-, rfl⟩ := enableToken_eq_ok h
    refine iff_of_true (fun t => ?_) (fun h => by cases h)
    rw [htokens, List.mem_append, List.mem_singleton]
    rfl
  | disable =>
    obtain ⟨-, rfl⟩ := disableToken_eq_ok h
    -- what is posted is the disabled token, if there is another ticker
    have hposted : ∀ t, t ∈ user.currencies.keys.filterMap (disabledTokens token) →
        t = token ∧ ∃ tok ∈ s.userTokens u, tok ≠ token := by
      intro t ht
      obtain ⟨c, hmem, hc⟩ := List.mem_filterMap.mp ht
      unfold disabledTokens at hc
      split at hc
      · rename_i tok
        split at hc
        · cases hc
        · rename_i hticker
          refine ⟨(Option.some.inj hc).symm, tok, ?_, fun heq => hticker (by rw [heq])⟩
          rw [htokens]
          exact mem_filterTokens.mpr hmem
      · cases hc
    constructor
    · intro hall _ t ht
      by_contra hne
      exact hne (hposted t ((hall t).mpr ⟨ht, hne⟩)).1
    · intro honly t
      refine iff_of_false (fun ht => ?_) (fun ht => ht.2 (honly rfl t ht.1))
      obtain ⟨-, tok, htok, hne⟩ := hposted t ht
      exact hne (honly rfl tok htok)

end Handlers

/-! ## What the updates do to the tokens -/

namespace State

variable {s s' : State} {o : Oracle} {up : StateUpdate} {res : Option UpdateResult} {u : UserId} {req : TokenUpdate}

/-- The State knows the user by the name. -/
def Knows (s : State) (u : UserId) : Prop := s.part u (·.username) = some u

theorem Knows.exists_user (hk : s.Knows u) : ∃ user, s.users.get? u = some user ∧ user.username = u :=
  Option.map_eq_some_iff.mp hk

/-- An accepted update leaves a user known by the name. -/
theorem Knows.applyUpdate (hk : s.Knows u) (h : s.applyUpdate o up = (s', .ok res)) (hs : ¬up.body.IsSnapshot) : s'.Knows u := by
  rcases applyUpdate_username h hs u with hsame | ⟨hnew, -⟩
  · exact hsame.trans hk
  · exact hnew

/-- An accepted update that is no change of a user's tokens leaves them. -/
theorem userTokens_applyUpdate (hk : s.Knows u) (h : s.applyUpdate o up = (s', .ok res)) (hs : ¬up.body.IsSnapshot)
    (hother : ∀ req ∈ up.body.tokenUpdate?, req.user ≠ u) (token : Erc20Token) :
    token ∈ s'.userTokens u ↔ token ∈ s.userTokens u := by
  rw [mem_userTokens, mem_userTokens]
  have hch := applyUpdate_account h hs u (.erc20 token)
  generalize s.currency? u (.erc20 token) = a, s'.currency? u (.erc20 token) = a' at hch
  cases hch with
  | opened hcause =>
    obtain ⟨user, huser, -⟩ := hk.exists_user
    rcases hcause with hnone | ⟨t, hb, -⟩
    · rw [huser] at hnone
      cases hnone
    · exact absurd rfl (hother { user := u, token := t, action := .enable } (by rw [hb]; rfl))
  | closed i t hb => exact absurd rfl (hother { user := u, token := t, action := .disable } (by rw [hb]; rfl))
  | _ => rfl

/-- A change of tokens that is ready is accepted, and does what it says. -/
theorem applyUpdate_updateTokens (hk : s.Knows u) (hu : req.user = u) (hr : s.Ready req) (hb : up.body = .updateTokens req) :
    ∃ s', s.applyUpdate o up = (s', .ok none) ∧
      ∀ token, token ∈ s'.userTokens u ↔ req.after (· ∈ s.userTokens u) token := by
  have happly : s.applyUpdate o up = stamped up.created (s.updateTokens req) noResult := by
    unfold State.applyUpdate
    rw [hb]
  obtain ⟨user, huser, -⟩ := hk.exists_user
  obtain ⟨name, token, action⟩ := req
  obtain rfl : name = u := hu
  unfold Ready at hr
  simp only [currency?_of_get? huser] at hr
  cases action with
  | enable =>
    have hupd : s.updateTokens { user := name, token := token, action := .enable } =
        (s.modifyUser name fun ui =>
          { ui with currencies := ui.currencies.insert (.erc20 token) (UserCurrencyInfo.new (.erc20 token)) }, .ok ()) := by
      simp only [updateTokens, huser, AssocMap.contains, hr, Option.isSome_none, Bool.false_eq_true, if_false]
    refine ⟨_, by rw [happly, hupd]; rfl, fun t => ?_⟩
    simp only [mem_userTokens, TokenUpdate.after]
    refine Iff.trans (Eq.to_iff (congrArg (fun a => Option.isSome a = true) (currency?_enable huser))) ?_
    by_cases ht : t = token
    · rw [ht, if_pos ⟨rfl, rfl⟩]
      simp
    · rw [if_neg fun h => ht (Currency.erc20.inj h.2)]
      simp [ht]
  | disable =>
    obtain ⟨i, hi, hbal⟩ := hr
    have hupd : s.updateTokens { user := name, token := token, action := .disable } =
        (s.modifyUser name fun ui =>
          { ui with
            currencies := ui.currencies.erase (.erc20 token)
            limitChangeRequests := ui.limitChangeRequests.erase (.erc20 token) }, .ok ()) := by
      simp only [updateTokens, huser, hi, hbal]
      rfl
    refine ⟨_, by rw [happly, hupd]; rfl, fun t => ?_⟩
    simp only [mem_userTokens, TokenUpdate.after]
    refine Iff.trans (Eq.to_iff (congrArg (fun a => Option.isSome a = true) (currency?_disable name token))) ?_
    by_cases ht : t = token
    · rw [ht, if_pos ⟨rfl, rfl⟩]
      simp
    · rw [if_neg fun h => ht (Currency.erc20.inj h.2)]
      simp [ht]

end State

/-! ## The condition -/

namespace TokenApi

variable {u : UserId} {m m' : TokenApi} {a : TokenApiAction}

/-- A request that would not be refused. -/
def Passes (u : UserId) (m : TokenApi) (token : Erc20Token) (action : TokenAction) : Prop :=
  ∃ user ∈ m.journal.state.users.get? u, (Handlers.changeToken user token action).isOk = true

/-- The condition on a step. A request that is not refused arrives when nothing is under way, and disables the user's only token if
it disables one; a list that is posted arrives; and a change of the user's tokens is saved, and is not refused because the balance
of the account is not zero any more. -/
def InTurn (u : UserId) (m : TokenApi) : TokenApiAction → Prop
  | .request token action => m.Passes u token action → m.Quiet u ∧ OnlyToken m.journal.state u token action
  | .post _ delivered => delivered = true
  | .apply _ saved => ∀ up ∈ m.updates.head?, ∀ req ∈ up.body.tokenUpdate?, req.user = u → saved = true ∧
      (req.action = .disable → ∀ i ∈ m.journal.state.currency? u (.erc20 req.token), i.balance = 0)
  | _ => True

instance (m : TokenApi) (token : Erc20Token) (action : TokenAction) : Decidable (m.Passes u token action) :=
  inferInstanceAs (Decidable (∃ user ∈ m.journal.state.users.get? u, _))

instance (s : State) (token : Erc20Token) (action : TokenAction) : Decidable (OnlyToken s u token action) :=
  inferInstanceAs (Decidable (_ → _))

instance (m : TokenApi) : Decidable (m.Quiet u) := inferInstanceAs (Decidable (_ ∧ _))

instance (m : TokenApi) (a : TokenApiAction) : Decidable (m.InTurn u a) :=
  match a with
  | .request _ _ => inferInstanceAs (Decidable (_ → _))
  | .send _ _ => isTrue trivial
  | .post _ _ => inferInstanceAs (Decidable (_ = _))
  | .other _ => isTrue trivial
  | .apply _ saved => inferInstanceAs (Decidable (∀ up ∈ m.updates.head?, ∀ req ∈ up.body.tokenUpdate?, req.user = u →
      saved = true ∧ (req.action = .disable → ∀ i ∈ m.journal.state.currency? u (.erc20 req.token), i.balance = 0)))

/-! ## The invariant -/

/-- A list is the one after a change that can still be made. -/
structure Sound (u : UserId) (s : State) (req : TokenUpdate) (tokens : List Erc20Token) : Prop where
  user : req.user = u
  tokens : ∀ t, t ∈ tokens ↔ req.after (· ∈ s.userTokens u) t
  enabled : req.token ∈ s.userTokens u ↔ req.action = .disable

/-- Where the user's request is, if there is one: it has not sent its update; it has; the update is applied before the list is
posted; or the list is posted before. -/
inductive Phase (u : UserId) (m : TokenApi) : Prop where
  | quiet : m.tasks = [] → m.waiting u = [] → m.Agrees u → Phase u m
  | asked (task : TokenTask) : m.tasks = [task] → task.sent = false → m.waiting u = [] → Sound u m.journal.state task.update task.tokens →
      Phase u m
  | sent (task : TokenTask) : m.tasks = [task] → task.sent = true → m.waiting u = [task.update] →
      Sound u m.journal.state task.update task.tokens → Phase u m
  | applied (task : TokenTask) : m.tasks = [task] → task.sent = true → m.waiting u = [] →
      (∀ t, t ∈ task.tokens ↔ t ∈ m.journal.state.userTokens u) → Phase u m
  | posted (req : TokenUpdate) : m.tasks = [] → m.waiting u = [req] → Sound u m.journal.state req m.stored → Phase u m

/-- One request at a time, and its list is right. -/
structure InOrder (u : UserId) (m : TokenApi) : Prop where
  knows : m.journal.state.Knows u
  noSnapshot : ∀ up ∈ m.updates, ¬up.body.IsSnapshot
  phase : m.Phase u

/-- When nothing is under way, the list is right. -/
theorem Phase.agrees (hp : m.Phase u) (hq : m.Quiet u) : m.Agrees u := by
  cases hp with
  | quiet _ _ hag => exact hag
  | asked task ht => exact absurd (ht.symm.trans hq.1) (List.cons_ne_nil _ _)
  | sent task ht => exact absurd (ht.symm.trans hq.1) (List.cons_ne_nil _ _)
  | applied task ht => exact absurd (ht.symm.trans hq.1) (List.cons_ne_nil _ _)
  | posted req _ hw => exact absurd (hw.symm.trans hq.2) (List.cons_ne_nil _ _)

/-- The phase is about the requests, the changes that wait, the list and the tokens. -/
theorem Phase.congr (hp : m.Phase u) (htasks : m'.tasks = m.tasks) (hwaiting : m'.waiting u = m.waiting u)
    (hstored : m'.stored = m.stored) (htokens : ∀ t, t ∈ m'.journal.state.userTokens u ↔ t ∈ m.journal.state.userTokens u) :
    m'.Phase u := by
  have hsound : ∀ {req tokens}, Sound u m.journal.state req tokens → Sound u m'.journal.state req tokens := by
    intro req tokens hs
    have hfun : (· ∈ m'.journal.state.userTokens u) = (· ∈ m.journal.state.userTokens u) := funext fun t => propext (htokens t)
    exact ⟨hs.user, by rw [hfun]; exact hs.tokens, (htokens _).trans hs.enabled⟩
  cases hp with
  | quiet ht hw hag => exact .quiet (htasks.trans ht) (hwaiting.trans hw) fun t => by rw [hstored, htokens]; exact hag t
  | asked task ht hn hw hs => exact .asked task (htasks.trans ht) hn (hwaiting.trans hw) (hsound hs)
  | sent task ht hn hw hs => exact .sent task (htasks.trans ht) hn (hwaiting.trans hw) (hsound hs)
  | applied task ht hn hw hl => exact .applied task (htasks.trans ht) hn (hwaiting.trans hw) fun t => by rw [htokens]; exact hl t
  | posted req ht hw hs => exact .posted req (htasks.trans ht) (hwaiting.trans hw) (hstored ▸ hsound hs)

/-! ## One lemma for each action -/

/-- What a request that is not refused starts. -/
theorem request_eq (hk : m.journal.state.Knows u) (token : Erc20Token) (action : TokenAction) :
    (¬m.Passes u token action ∧ m.request u token action = m) ∨
      ∃ user task, m.journal.state.users.get? u = some user ∧ user.username = u ∧
        Handlers.changeToken user token action = .ok task ∧ m.Passes u token action ∧
          m.request u token action = { m with tasks := m.tasks ++ [task] } := by
  obtain ⟨user, huser, hname⟩ := hk.exists_user
  unfold request Passes
  simp only [huser, Option.mem_def, Option.some.injEq, exists_eq_left']
  cases hc : Handlers.changeToken user token action with
  | error e => exact Or.inl ⟨by simp [Except.isOk, Except.toBool], rfl⟩
  | ok task => exact Or.inr ⟨user, task, rfl, hname, hc, rfl, rfl⟩

/-- A change that is ready finds the token where it expects it. -/
theorem enabled_of_ready {s : State} {req : TokenUpdate} (hu : req.user = u) (hr : s.Ready req) :
    req.token ∈ s.userTokens u ↔ req.action = .disable := by
  unfold State.Ready at hr
  rw [State.mem_userTokens, ← hu]
  cases ha : req.action with
  | enable =>
    simp only [ha] at hr
    simp [hr]
  | disable =>
    simp only [ha] at hr
    obtain ⟨i, hi, -⟩ := hr
    simp [hi]

theorem InOrder.request (hi : m.InOrder u) (token : Erc20Token) (action : TokenAction)
    (hc : m.InTurn u (.request token action)) : (m.request u token action).InOrder u := by
  rcases request_eq hi.knows token action with ⟨-, heq⟩ | ⟨user, task, huser, hname, htask, hpass, heq⟩
  · rwa [heq]
  · obtain ⟨⟨htasks, hwaiting⟩, honly⟩ := hc hpass
    obtain ⟨hupd, hsent, hready⟩ := Handlers.changeToken_ready huser hname htask
    have huser' : task.update.user = u := by rw [hupd]
    rw [heq]
    refine ⟨hi.knows, hi.noSnapshot, .asked task (by rw [htasks]; rfl) hsent hwaiting ⟨huser', ?_, ?_⟩⟩
    · exact (Handlers.changeToken_tokens huser htask).mpr honly
    · exact enabled_of_ready huser' hready

theorem send_eq_some {n : Nat} {created : NaiveDateTime} (h : m.send n created = some m') :
    ∃ task, m.tasks[n]? = some task ∧ task.sent = false ∧
      m' = { m with
        updates := m.updates ++ [{ created := created, body := .updateTokens task.update }]
        tasks := m.tasks.set n { task with sent := true } } := by
  unfold send at h
  cases ht : m.tasks[n]? with
  | none => simp [ht] at h
  | some task =>
    simp only [ht] at h
    by_cases hsent : task.sent = true
    · rw [if_pos hsent] at h
      cases h
    · rw [if_neg hsent] at h
      exact ⟨task, rfl, Bool.eq_false_iff.mpr hsent, (Option.some.inj h).symm⟩

theorem post_eq_some {n : Nat} {delivered : Bool} (h : m.post n delivered = some m') :
    ∃ task, m.tasks[n]? = some task ∧ task.sent = true ∧
      m' = { m with
        stored := if delivered then task.tokens else m.stored
        tasks := m.tasks.eraseIdx n } := by
  unfold post at h
  cases ht : m.tasks[n]? with
  | none => simp [ht] at h
  | some task =>
    simp only [ht] at h
    by_cases hsent : task.sent = true
    · rw [if_pos hsent] at h
      exact ⟨task, rfl, hsent, (Option.some.inj h).symm⟩
    · rw [if_neg hsent] at h
      cases h

/-- Where there is one task, an index that has a task is the first. -/
theorem eq_of_singleton {task task' : TokenTask} {n : Nat} (hts : m.tasks = [task]) (h : m.tasks[n]? = some task') :
    n = 0 ∧ task' = task := by
  rw [hts] at h
  cases n with
  | zero => exact ⟨rfl, (Option.some.inj h).symm⟩
  | succ n => simp at h

/-- The changes that wait, when an update is sent. -/
theorem waiting_append {up : StateUpdate} (h : m'.updates = m.updates ++ [up]) :
    m'.waiting u = m.waiting u ++ (up.body.tokenUpdate?.filter fun req => req.user = u).toList := by
  rw [waiting, h, List.filterMap_append]
  refine congrArg (m.waiting u ++ ·) ?_
  cases hf : up.body.tokenUpdate?.filter fun req => req.user = u <;> simp [hf]

/-- The changes that wait, with the update that is next. -/
theorem waiting_cons {up : StateUpdate} {updates : List StateUpdate} (h : m.updates = up :: updates)
    (h' : m'.updates = updates) :
    m.waiting u = (up.body.tokenUpdate?.filter fun req => req.user = u).toList ++ m'.waiting u := by
  rw [waiting, h, waiting, h', List.filterMap_cons]
  cases up.body.tokenUpdate?.filter fun req => req.user = u <;> rfl

theorem InOrder.send (hi : m.InOrder u) {n : Nat} {created : NaiveDateTime} (h : m.send n created = some m') :
    m'.InOrder u := by
  obtain ⟨task, ht, hnot, rfl⟩ := send_eq_some h
  refine ⟨hi.knows, fun up hup => ?_, ?_⟩
  · rcases List.mem_append.mp hup with hup | hup
    · exact hi.noSnapshot up hup
    · rw [List.mem_singleton.mp hup]
      exact fun hs => hs
  · cases hi.phase with
    | asked task' hts hn hw hs =>
      obtain ⟨rfl, rfl⟩ := eq_of_singleton hts ht
      refine .sent { task with sent := true } (by rw [hts]; rfl) rfl ?_ hs
      rw [waiting_append rfl, hw]
      simp [UpdateBody.tokenUpdate?, hs.user]
    | sent task' hts hsent =>
      obtain ⟨-, rfl⟩ := eq_of_singleton hts ht
      rw [hsent] at hnot
      cases hnot
    | applied task' hts hsent =>
      obtain ⟨-, rfl⟩ := eq_of_singleton hts ht
      rw [hsent] at hnot
      cases hnot
    | quiet hts => rw [hts] at ht; simp at ht
    | posted req hts => rw [hts] at ht; simp at ht

theorem InOrder.post (hi : m.InOrder u) {n : Nat} (h : m.post n true = some m') : m'.InOrder u := by
  obtain ⟨task, ht, hsent, rfl⟩ := post_eq_some h
  refine ⟨hi.knows, hi.noSnapshot, ?_⟩
  cases hi.phase with
  | sent task' hts _ hw hs =>
    obtain ⟨rfl, rfl⟩ := eq_of_singleton hts ht
    exact .posted task.update (by rw [hts]; rfl) hw ⟨hs.user, hs.tokens, hs.enabled⟩
  | applied task' hts _ hw hl =>
    obtain ⟨rfl, rfl⟩ := eq_of_singleton hts ht
    exact .quiet (by rw [hts]; rfl) hw hl
  | asked task' hts hn =>
    obtain ⟨-, rfl⟩ := eq_of_singleton hts ht
    rw [hn] at hsent
    cases hsent
  | quiet hts => rw [hts] at ht; simp at ht
  | posted req hts => rw [hts] at ht; simp at ht

/-- An update of another task changes nothing for the user. -/
theorem InOrder.other (hi : m.InOrder u) {up : StateUpdate} (hs : ¬up.body.IsSnapshot)
    (hother : ∀ req ∈ up.body.tokenUpdate?, req.user ≠ u) : InOrder u { m with updates := m.updates ++ [up] } := by
  refine ⟨hi.knows, fun up' hup => ?_, hi.phase.congr rfl ?_ rfl fun _ => Iff.rfl⟩
  · rcases List.mem_append.mp hup with hup | hup
    · exact hi.noSnapshot up' hup
    · rw [List.mem_singleton.mp hup]
      exact hs
  · rw [waiting_append rfl, Option.filter_eq_none_iff.mpr fun req hreq => by simpa using hother req hreq]
    exact List.append_nil _

/-- An update of another task that is applied leaves the user's tokens. -/
theorem InOrder.apply_other (hi : m.InOrder u) {o : Oracle} {saved : Bool} {up : StateUpdate} {updates : List StateUpdate}
    (hups : m.updates = up :: updates) (hother : ∀ req ∈ up.body.tokenUpdate?, req.user ≠ u)
    (h : m.apply o saved = some m') : m'.InOrder u := by
  have hsnap := hi.noSnapshot up (hups ▸ List.mem_cons_self)
  have htail : ∀ up ∈ updates, ¬up.body.IsSnapshot := fun up hup => hi.noSnapshot up (hups ▸ List.mem_cons_of_mem _ hup)
  have hwaiting : ∀ m' : TokenApi, m'.updates = updates → m'.waiting u = m.waiting u := by
    intro m' h'
    rw [waiting_cons hups h', Option.filter_eq_none_iff.mpr fun req hreq => by simpa using hother req hreq]
    rfl
  unfold apply at h
  rw [hups] at h
  cases hst : m.journal.store o up with
  | none =>
    simp only [hst] at h
    obtain rfl := Option.some.inj h
    exact ⟨hi.knows, htail, hi.phase.congr rfl (hwaiting _ rfl) rfl fun _ => Iff.rfl⟩
  | some j =>
    simp only [hst] at h
    obtain rfl := Option.some.inj h
    have happly := Journal.store_answer hst
    cases saved with
    | false => exact ⟨hi.knows, htail, hi.phase.congr rfl (hwaiting _ rfl) rfl fun _ => Iff.rfl⟩
    | true =>
      exact ⟨hi.knows.applyUpdate happly hsnap, htail, hi.phase.congr rfl (hwaiting _ rfl) rfl
        (State.userTokens_applyUpdate hi.knows happly hsnap hother)⟩

/-- The change that waits is applied. -/
theorem InOrder.apply_change (hi : m.InOrder u) {o : Oracle} {saved : Bool} {up : StateUpdate} {updates : List StateUpdate}
    {req : TokenUpdate} (hups : m.updates = up :: updates) (hreq : up.body.tokenUpdate? = some req) (huser : req.user = u)
    (hc : m.InTurn u (.apply o saved)) (h : m.apply o saved = some m') : m'.InOrder u := by
  have hb : up.body = .updateTokens req := by
    unfold UpdateBody.tokenUpdate? at hreq
    split at hreq
    · rename_i req' hb
      rw [hb, Option.some.inj hreq]
    · cases hreq
  obtain ⟨rfl, hbal⟩ := hc up (by rw [hups]; rfl) req hreq huser
  have hwaiting : ∀ m' : TokenApi, m'.updates = updates → m.waiting u = req :: m'.waiting u := by
    intro m' h'
    rw [waiting_cons hups h', hreq, Option.filter_some, if_pos (decide_eq_true huser)]
    rfl
  have hpoint := hwaiting { m with updates := updates } rfl
  -- it can be made, whether the list is posted or not
  have key : ∀ tokens, Sound u m.journal.state req tokens →
      m'.journal.state.Knows u ∧ m'.updates = updates ∧ m'.tasks = m.tasks ∧ m'.stored = m.stored ∧
        ∀ t, t ∈ tokens ↔ t ∈ m'.journal.state.userTokens u := by
    intro tokens hs
    have hready : m.journal.state.Ready req := by
      have henabled := hs.enabled
      rw [State.mem_userTokens, ← huser] at henabled
      unfold State.Ready
      cases ha : req.action with
      | enable =>
        rw [ha] at henabled
        simpa using henabled
      | disable =>
        rw [ha] at henabled
        obtain ⟨i, hcur⟩ := Option.isSome_iff_exists.mp (henabled.mpr rfl)
        exact ⟨i, hcur, hbal ha i (huser ▸ hcur)⟩
    obtain ⟨s', happly, htokens⟩ := State.applyUpdate_updateTokens (o := o) hi.knows huser hready hb
    have hst : m.journal.store o up =
        some { state := s', rows := m.journal.rows ++ [{ update := up, oracle := o, result := none }] } := by
      rw [Journal.store, happly]
    unfold apply at h
    rw [hups] at h
    simp only [hst] at h
    obtain rfl := Option.some.inj h
    refine ⟨hi.knows.applyUpdate happly (by rw [hb]; exact fun hs => hs), rfl, rfl, rfl, fun t => ?_⟩
    exact (hs.tokens t).trans (htokens t).symm
  have htail : ∀ up ∈ updates, ¬up.body.IsSnapshot := fun up hup => hi.noSnapshot up (hups ▸ List.mem_cons_of_mem _ hup)
  cases hi.phase with
  | quiet _ hw => rw [hw] at hpoint; cases hpoint
  | asked task _ _ hw => rw [hw] at hpoint; cases hpoint
  | applied task _ _ hw => rw [hw] at hpoint; cases hpoint
  | sent task hts hsent hw hs =>
    obtain ⟨hhead, hrest⟩ := List.cons.inj (hw.symm.trans hpoint)
    obtain ⟨hknows, hups', htasks, -, htokens⟩ := key task.tokens (hhead ▸ hs)
    refine ⟨hknows, by rw [hups']; exact htail, .applied task (htasks.trans hts) hsent ?_ htokens⟩
    exact (List.cons.inj ((hwaiting m' hups').symm.trans hpoint)).2.trans hrest.symm
  | posted req' hts hw hs =>
    obtain ⟨hhead, hrest⟩ := List.cons.inj (hw.symm.trans hpoint)
    obtain ⟨hknows, hups', htasks, hstored, htokens⟩ := key m.stored (hhead ▸ hs)
    refine ⟨hknows, by rw [hups']; exact htail, .quiet (htasks.trans hts) ?_ fun t => by rw [hstored]; exact htokens t⟩
    exact (List.cons.inj ((hwaiting m' hups').symm.trans hpoint)).2.trans hrest.symm

/-! ## Runs -/

/-- (step) A step that meets the condition keeps the order. -/
theorem InOrder.step (hi : m.InOrder u) (hc : m.InTurn u a) (h : m.step u a = some m') : m'.InOrder u := by
  cases a with
  | request token action =>
    obtain rfl := Option.some.inj h
    exact hi.request token action hc
  | send n created => exact hi.send h
  | post n delivered =>
    obtain rfl : delivered = true := hc
    exact hi.post h
  | other up =>
    unfold TokenApi.step at h
    simp only at h
    split at h
    · cases h
    · rename_i hnot
      obtain rfl := Option.some.inj h
      exact hi.other (fun hs => hnot (Or.inl hs)) fun req hreq hu => hnot (Or.inr ⟨req, hreq, hu⟩)
  | apply o saved =>
    cases hups : m.updates with
    | nil =>
      unfold TokenApi.step apply at h
      simp [hups] at h
    | cons up updates =>
      by_cases hmine : ∃ req, up.body.tokenUpdate? = some req ∧ req.user = u
      · obtain ⟨req, hreq, hu⟩ := hmine
        exact hi.apply_change hups hreq hu hc h
      · exact hi.apply_other hups (fun req hreq hu => hmine ⟨req, hreq, hu⟩) h

/-- (run) One request at a time, and its list is right. -/
theorem inOrder_of_reachable (h : (machine u).Reachable (InTurn u) m) : m.InOrder u := by
  refine h.invariant ?_ ?_
  · rintro m ⟨hknows, hups, htasks, hag⟩
    refine ⟨hknows, fun up hup => ?_, .quiet htasks ?_ hag⟩
    · rw [hups] at hup
      cases hup
    · rw [waiting, hups]
      rfl
  · exact fun m a m' _ hi hc hs => hi.step hc hs

/-- The steps that finish a request: no other arrives. -/
def Finishing (u : UserId) (m : TokenApi) : TokenApiAction → Prop
  | .request _ _ => False
  | a => m.InTurn u a

theorem Finishing.inTurn (h : m.Finishing u a) : m.InTurn u a := by
  cases a with
  | request token action => exact h.elim
  | _ => exact h

/-- A request that is alone can be finished, with its list, whatever it is. -/
theorem exists_finished (hi : m.InOrder u) (hq : m.Quiet u) (hups : m.updates = []) {token : Erc20Token} {action : TokenAction}
    {user : UserInfo} {task : TokenTask} (huser : m.journal.state.users.get? u = some user) (hname : user.username = u)
    (htask : Handlers.changeToken user token action = .ok task) :
    ∃ m', ((machine u).startedAt { m with tasks := m.tasks ++ [task] }).Reachable (Finishing u) m' ∧ m'.Quiet u ∧
      m'.stored = task.tokens ∧
        ∀ t, t ∈ m'.journal.state.userTokens u ↔ task.update.after (· ∈ m.journal.state.userTokens u) t := by
  obtain ⟨hupd, hsent, hready⟩ := Handlers.changeToken_ready huser hname htask
  have hreq : task.update.user = u := by rw [hupd]
  let up : StateUpdate := { created := ⟨0⟩, body := .updateTokens task.update }
  let o : Oracle := { newId := ⟨0⟩, now := "", users := .stored, currencies := .stored, requests := .stored }
  obtain ⟨s', happly, htokens⟩ : ∃ s', m.journal.state.applyUpdate o up = (s', .ok none) ∧
      ∀ t, t ∈ s'.userTokens u ↔ task.update.after (· ∈ m.journal.state.userTokens u) t :=
    State.applyUpdate_updateTokens hi.knows hreq hready rfl
  let j : Journal := { state := s', rows := m.journal.rows ++ [{ update := up, oracle := o, result := none }] }
  have hst : m.journal.store o up = some j := by rw [Journal.store, happly]
  let m₁ : TokenApi := { m with tasks := [task] }
  let m₂ : TokenApi := { m with updates := [up], tasks := [{ task with sent := true }] }
  let m₃ : TokenApi := { m with journal := j, updates := [], tasks := [{ task with sent := true }] }
  let m₄ : TokenApi := { journal := j, updates := [], tasks := [], stored := task.tokens }
  have h₁ : { m with tasks := m.tasks ++ [task] } = m₁ := by rw [hq.1]; rfl
  have h₂ : m₁.step u (.send 0 ⟨0⟩) = some m₂ := by
    simp only [step, TokenApi.send, m₁, m₂, List.getElem?_cons_zero, hsent, Bool.false_eq_true, if_false, hups]
    rfl
  have h₃ : m₂.step u (.apply o true) = some m₃ := by
    simp only [step, apply, m₂, hst]
    rfl
  have h₄ : m₃.step u (.post 0 true) = some m₄ := rfl
  -- the balance is still what the handler saw
  have hturn : m₂.InTurn u (.apply o true) := by
    rintro up' hup req hreq' -
    obtain rfl := Option.some.inj hup
    obtain rfl := Option.some.inj hreq'
    refine ⟨rfl, fun ha i hcur => ?_⟩
    unfold State.Ready at hready
    simp only [ha] at hready
    obtain ⟨i', hcur', hbal⟩ := hready
    rw [hreq] at hcur'
    rw [Option.some.inj (hcur.symm.trans hcur')]
    exact hbal
  have hr₂ : ((machine u).startedAt m₁).Reachable (Finishing u) m₂ := .step (a := .send 0 ⟨0⟩) (.init rfl) trivial h₂
  have hr₃ : ((machine u).startedAt m₁).Reachable (Finishing u) m₃ := .step (a := .apply o true) hr₂ hturn h₃
  rw [h₁]
  exact ⟨m₄, .step (a := .post 0 true) hr₃ rfl h₄, ⟨rfl, rfl⟩, rfl, htokens⟩

/-- In every run whose steps meet the condition, the list that is stored is that of the user's tokens whenever nothing is under way.
Whether a request that then comes alone leaves it so depends on its kind only: to enable, or to disable the only token. -/
theorem token_list_tracks (u : UserId) (m : TokenApi) (h : (machine u).Reachable (InTurn u) m) (hq : m.Quiet u) :
    m.Agrees u ∧ (m.updates = [] → ∀ (token : Erc20Token) (action : TokenAction), m.Passes u token action →
      (OnlyToken m.journal.state u token action ↔
        ∀ m', ((machine u).startedAt (m.request u token action)).Reachable (Finishing u) m' → m'.Quiet u → m'.Agrees u)) := by
  have hi := inOrder_of_reachable h
  refine ⟨hi.phase.agrees hq, fun hups token action hpass => ⟨fun honly m' hr hq' => ?_, fun hall => ?_⟩⟩
  · refine (Machine.Reachable.invariant (I := InOrder u) hr ?_ ?_).phase.agrees hq'
    · rintro _ rfl
      exact hi.request token action fun _ => ⟨hq, honly⟩
    · exact fun m a m' _ hi hc hs => hi.step hc.inTurn hs
  · rcases request_eq hi.knows token action with ⟨hnot, -⟩ | ⟨user, task, huser, hname, htask, -, heq⟩
    · exact absurd hpass hnot
    · obtain ⟨m', hr, hq', hstored, htokens⟩ := exists_finished hi hq hups huser hname htask
      have hag := hall m' (heq ▸ hr) hq'
      refine (Handlers.changeToken_tokens huser htask).mp fun t => ?_
      rw [← hstored, ← htokens]
      exact hag t

end TokenApi

/-! ## Signing up -/

/-- The tokens of a new user are those that the sign-up posts. -/
theorem mem_newTokens (username : UserId) (invite : Invite) (auth : SignupAuth) (t : NaiveDateTime) (token : Erc20Token) :
    token ∈ filterTokens (UserInfo.new username invite auth t).currencies.keys ↔ token ∈ Currency.defaultTokens := by
  have hkeys : (UserInfo.new username invite auth t).currencies.keys.reverse = Currency.defaultCurrencies := rfl
  rw [mem_filterTokens, ← List.mem_reverse, hkeys, ← mem_filterTokens]
  exact Eq.to_iff (congrArg (token ∈ ·) (by decide))

/-- A user who has signed up, with the list that the sign-up posts, may begin. -/
theorem TokenApi.init_of_signup {j j' : Journal} {o : Oracle} {up : StateUpdate} {info : SignupInfo}
    (h : j.store o up = some j') (hb : up.body = .signup info) :
    (machine info.username).init { journal := j', updates := [], tasks := [], stored := Currency.defaultTokens } := by
  obtain ⟨-, -, hstate⟩ := State.applyUpdate_signup (Journal.store_answer h) hb
  have huser : j'.state.users.get? info.username = some (UserInfo.new info.username info.invite info.auth up.created) := by
    rw [hstate]
    exact AssocMap.get?_insert_self ..
  refine ⟨by rw [huser]; rfl, rfl, rfl, fun token => ?_⟩
  simp only [State.userTokens, huser]
  exact (mem_newTokens _ _ _ _ token).symm

namespace Sample

def crv : Erc20Token := { ticker := "CRV", name := "CRV", contract := "0xd533a949740bb3306d119cc777fa900ba034cd52" }

/-- Alice has signed up. -/
def tokenApi : TokenApi where
  journal :=
    { state :=
        { State.new ⟨0⟩ "genesis" with users := AssocMap.empty.insert alice (UserInfo.new alice ⟨uuid 0⟩ (.password "") ⟨0⟩) }
      rows := [] }
  updates := []
  tasks := []
  stored := Currency.defaultTokens

theorem tokenApi_init : (TokenApi.machine alice).init tokenApi :=
  ⟨rfl, rfl, rfl, fun token => (mem_newTokens alice ⟨uuid 0⟩ (.password "") ⟨0⟩ token).symm⟩

end Sample

namespace TokenApi

open Sample in
/-- Alice enables a third token. -/
theorem token_list_tracks_enable : ∃ m : TokenApi, crv ∈ m.stored ∧ m.Agrees alice := by
  obtain ⟨m, hm, hq⟩ := Machine.exists_reachable (M := machine alice) (P := InTurn alice)
    [.request crv .enable, .send 0 ⟨0⟩, .post 0 true, .apply oracle true]
    (q := fun m => decide (m.Quiet alice ∧ crv ∈ m.stored)) tokenApi_init (by decide)
  obtain ⟨hquiet, hcrv⟩ := of_decide_eq_true hq
  exact ⟨m, hcrv, (token_list_tracks alice m hm hquiet).1⟩

/-- Lists arrive, and updates are saved. -/
def Delivers (_ : TokenApi) : TokenApiAction → Prop
  | .post _ delivered => delivered = true
  | .apply _ saved => saved = true
  | _ => True

/-- Nothing is disabled besides. -/
def DeliversEnabled (m : TokenApi) : TokenApiAction → Prop
  | .request _ action => action = .enable
  | a => m.Delivers a

instance (m : TokenApi) (a : TokenApiAction) : Decidable (m.Delivers a) :=
  match a with
  | .request _ _ => isTrue trivial
  | .send _ _ => isTrue trivial
  | .post _ _ => inferInstanceAs (Decidable (_ = _))
  | .other _ => isTrue trivial
  | .apply _ _ => inferInstanceAs (Decidable (_ = _))

instance (m : TokenApi) (a : TokenApiAction) : Decidable (m.DeliversEnabled a) :=
  match a with
  | .request _ _ => inferInstanceAs (Decidable (_ = _))
  | .send n created => inferInstanceAs (Decidable (m.Delivers (.send n created)))
  | .post n delivered => inferInstanceAs (Decidable (m.Delivers (.post n delivered)))
  | .other up => inferInstanceAs (Decidable (m.Delivers (.other up)))
  | .apply o saved => inferInstanceAs (Decidable (m.Delivers (.apply o saved)))

open Sample in
/-- Alice disables one token of two, and the list has that one; or enables two at once, and the list lacks the first. -/
theorem token_lists_wrong :
    (¬∀ (u : UserId) (m : TokenApi), (machine u).Reachable Delivers m → m.Quiet u → m.updates = [] → m.Agrees u) ∧
      ¬∀ (u : UserId) (m : TokenApi), (machine u).Reachable DeliversEnabled m → m.Quiet u → m.updates = [] → m.Agrees u := by
  constructor
  · intro h
    obtain ⟨m, hm, hq⟩ := Machine.exists_reachable (M := machine alice) (P := Delivers)
      [.request { ticker := "USDT", name := "USDT", contract := "0xdAC17F958D2ee523a2206206994597C13D831ec7" } .disable,
        .send 0 ⟨0⟩, .apply oracle true, .post 0 true]
      (q := fun m => decide ((m.Quiet alice ∧ m.updates.isEmpty = true) ∧ ∃ t ∈ m.stored, t ∉ m.journal.state.userTokens alice))
      tokenApi_init (by decide)
    obtain ⟨⟨hquiet, hups⟩, t, ht, hnot⟩ := of_decide_eq_true hq
    exact hnot ((h alice m hm hquiet (List.isEmpty_iff.mp hups) t).mp ht)
  · intro h
    obtain ⟨m, hm, hq⟩ := Machine.exists_reachable (M := machine alice) (P := DeliversEnabled)
      [.request crv .enable, .request { ticker := "T", name := "T", contract := "0x0" } .enable, .send 0 ⟨0⟩, .send 1 ⟨0⟩,
        .apply oracle true, .apply oracle true, .post 0 true, .post 0 true]
      (q := fun m => decide ((m.Quiet alice ∧ m.updates.isEmpty = true) ∧ ∃ t ∈ m.journal.state.userTokens alice, t ∉ m.stored))
      tokenApi_init (by decide)
    obtain ⟨⟨hquiet, hups⟩, t, ht, hnot⟩ := of_decide_eq_true hq
    exact hnot ((h alice m hm hquiet (List.isEmpty_iff.mp hups) t).mpr ht)

end TokenApi

end Hexstody
