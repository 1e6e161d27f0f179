import Hexstody.SignupDesk
import Hexstody.Theorems.SingleUse

/-!
# Sign-ups that were answered

Whether the account is there once `signup_email` has answered `Ok(())`. A request looks for the user and the invite long before its
sign-up is applied, so of two that overlap and carry one invite both are answered `Ok(())`, and the sign-up of the second is refused.
`answered_sign_ups_are_accepted` says when this does not happen: while each sign-up that is sent finds its name and its invite free, in
the State and in the channel, and no sign-up is lost because its row is not inserted, each request that was answered `Ok(())` has its
own sign-up, which is accepted when its turn comes.
-/

namespace Hexstody

theorem signup?_eq_some {b : UpdateBody} {info : SignupInfo} : b.signup? = some info ↔ b = .signup info := by
  cases b <;> simp [UpdateBody.signup?]

theorem signup?_of_besidesSignups {b : UpdateBody} (h : b.besidesSignups = true) : b.signup? = none := by
  cases b with
  | signup info => cases h
  | _ => rfl

/-- The sign-ups among updates. -/
def signUps (us : List StateUpdate) : List SignupInfo := us.filterMap (·.body.signup?)

theorem signUps_concat (us : List StateUpdate) (up : StateUpdate) : signUps (us ++ [up]) = signUps us ++ up.body.signup?.toList := by
  rw [signUps, List.filterMap_append, List.filterMap_cons, List.filterMap_nil]
  cases up.body.signup? <;> rfl

/-- The user changed the password. -/
def ChangedPassword (us : List StateUpdate) (u : UserId) : Prop := ∃ up ∈ us, ∃ req, up.body = .passwordChange req ∧ req.user = u

namespace State

/-- The accepted sign-ups have made different users, with the invite, and with the password as long as it is not changed. -/
structure SignedUp (s : State) (us : List StateUpdate) : Prop where
  names : ((signUps us).map (·.username)).Nodup
  invite : ∀ info ∈ signUps us, s.part info.username (·.invite) = some info.invite
  auth : ∀ info ∈ signUps us, ¬ChangedPassword us info.username → s.part info.username (·.auth) = some info.auth

variable {s s' : State} {us : List StateUpdate} {o : Oracle} {up : StateUpdate} {res : Option UpdateResult}

/-- What is settled at the sign-up of a user who is there stays as it is. -/
theorem part_of_steady {α : Type} {p : UserInfo → α} (hp : Steady p) (h : s.applyUpdate o up = (s', .ok res))
    (hs : ¬up.body.IsSnapshot) (hauth : (∀ ui a, p { ui with auth := a } = p ui) ∨ ∀ req, up.body ≠ .passwordChange req)
    {u : UserId} {x : α} (hx : s.part u p = some x) : s'.part u p = some x := by
  rcases applyUpdate_steady hp hauth h hs u with hsame | ⟨info, -, -, habsent, -⟩
  · rw [hsame, hx]
  · rw [part, habsent] at hx
    cases hx

theorem part_invite_of_some (h : s.applyUpdate o up = (s', .ok res)) (hs : ¬up.body.IsSnapshot) {u : UserId} {i : Invite}
    (hi : s.part u (·.invite) = some i) : s'.part u (·.invite) = some i :=
  part_of_steady ⟨fun _ _ _ => rfl, fun _ _ => rfl, fun _ _ => rfl⟩ h hs (Or.inl fun _ _ => rfl) hi

/-- Nobody but the user changes the password. -/
theorem part_auth_of_some (h : s.applyUpdate o up = (s', .ok res)) (hs : ¬up.body.IsSnapshot) {u : UserId} {a : SignupAuth}
    (hother : ∀ req, up.body = .passwordChange req → req.user ≠ u) (ha : s.part u (·.auth) = some a) :
    s'.part u (·.auth) = some a := by
  by_cases hb : ∃ req, up.body = .passwordChange req
  · obtain ⟨req, hb⟩ := hb
    unfold applyUpdate at h
    rw [hb] at h
    obtain ⟨s₁, x, hout, rfl, -⟩ := stamped_eq_ok h
    unfold changePassword updateUser at hout
    cases hget : s.users.get? req.user with
    | none =>
      rw [hget] at hout
      cases hout
    | some ui =>
      rw [hget] at hout
      obtain rfl := (Prod.mk.inj hout).1
      have hpart := part_modifyUser (p := (·.auth)) (u := u) s req.user fun u => { u with auth := .password req.newPassword }
      rw [if_neg (Ne.symm (hother req hb))] at hpart
      exact hpart.trans ha
  · exact part_of_steady ⟨fun _ _ _ => rfl, fun _ _ => rfl, fun _ _ => rfl⟩ h hs (Or.inr fun req hreq => hb ⟨req, hreq⟩) ha

theorem part_signup (h : s.applyUpdate o up = (s', .ok res)) {info : SignupInfo} (hb : up.body = .signup info) :
    s'.part info.username (·.invite) = some info.invite ∧ s'.part info.username (·.auth) = some info.auth := by
  obtain ⟨-, -, rfl⟩ := applyUpdate_signup h hb
  rw [part, part, AssocMap.get?_insert_self]
  exact ⟨rfl, rfl⟩

/-- Every update keeps it. -/
theorem SignedUp.step (hi : s.SignedUp us) (h : s.applyUpdate o up = (s', .ok res)) (hs : ¬up.body.IsSnapshot) :
    s'.SignedUp (us ++ [up]) := by
  have hcases : ∀ {info}, info ∈ signUps (us ++ [up]) → info ∈ signUps us ∨ up.body = .signup info := by
    intro info hinfo
    rw [signUps_concat, List.mem_append, Option.mem_toList, signup?_eq_some] at hinfo
    exact hinfo
  refine ⟨?_, fun info hinfo => ?_, fun info hinfo hchanged => ?_⟩
  · rw [signUps_concat]
    cases hup : up.body.signup? with
    | none => simpa using hi.names
    | some info =>
      have hb := signup?_eq_some.mp hup
      rw [Option.toList_some, List.map_append, List.map_singleton, ← List.concat_eq_append, List.nodup_concat]
      refine ⟨fun hmem => ?_, hi.names⟩
      obtain ⟨info', hinfo', hname⟩ := List.mem_map.mp hmem
      have hpart := hi.invite info' hinfo'
      rw [hname, part, (applyUpdate_signup h hb).1] at hpart
      cases hpart
  · rcases hcases hinfo with hinfo | hb
    · exact part_invite_of_some h hs (hi.invite info hinfo)
    · exact (part_signup h hb).1
  · rcases hcases hinfo with hinfo | hb
    · have hbefore : ¬ChangedPassword us info.username := by
        rintro ⟨c, hc, req, hreq⟩
        exact hchanged ⟨c, List.mem_append_left _ hc, req, hreq⟩
      refine part_auth_of_some h hs (fun req hb hu => ?_) (hi.auth info hinfo hbefore)
      exact hchanged ⟨up, List.mem_append_right _ List.mem_cons_self, req, hb, hu⟩
    · exact (part_signup h hb).2

theorem MadeBy.signedUp {P : State → UpdateBody → Prop} (h : s.MadeBy EXCHANGE_NUMBER_OF_CONFIRMATIONS P us) : s.SignedUp us :=
  h.invariant_number (fun _ _ => ⟨List.nodup_nil, List.forall_mem_nil _, List.forall_mem_nil _⟩)
    (fun _ _ _ hi => ⟨hi.names, hi.invite, hi.auth⟩) (fun _ hi _ hs happly => hi.step happly hs)

/-- Sign-ups of users with one invite are one, as long as no invite is generated twice. -/
theorem SignedUp.invites (hi : s.SignedUp us) (ht : s.InvitesTracked us) (hn : (generatedInvites us).Nodup) :
    ((signUps us).map (·.invite)).Nodup := by
  refine hi.names.of_map.map_on fun info hinfo info' hinfo' hsame => ?_
  have huser := ht.distinct hn info.username info'.username info.invite (hi.invite info hinfo) (hsame ▸ hi.invite info' hinfo')
  exact List.inj_on_of_nodup_map hi.names hinfo hinfo' huser

end State

/-- A sign-up for a free name and an invite that is there is accepted. -/
theorem Journal.exists_store_signup {j : Journal} {up : StateUpdate} {info : SignupInfo} (o : Oracle) (hb : up.body = .signup info)
    (huser : j.state.users.get? info.username = none) (hinvite : j.state.invites.contains info.invite = true) :
    ∃ j', j.store o up = some j' ∧ j'.state.users = j.state.users.insert info.username
        (UserInfo.new info.username info.invite info.auth up.created) ∧
      j'.state.invites = j.state.invites.erase info.invite := by
  have hcontains : j.state.users.contains info.username = false := by rw [AssocMap.contains, huser]; rfl
  unfold store State.applyUpdate State.withSignup
  rw [hb]
  simp only [hcontains, hinvite, Bool.false_eq_true, Bool.not_true, if_false]
  exact ⟨_, rfl, rfl, rfl⟩

/-! ## The requests -/

/-- The sign-up that a request sent, if it was answered `Ok(())`. -/
def SignupCall.succeeded? : SignupCall → Option SignupInfo
  | .succeeded info => some info
  | _ => none

namespace SignupDesk

variable {d d' : SignupDesk} {act : SignupAction}

/-- The sign-ups of the requests that were answered `Ok(())`. -/
def answered (d : SignupDesk) : List SignupInfo := d.calls.filterMap SignupCall.succeeded?

/-- The sign-ups that were accepted. -/
def accepted (d : SignupDesk) : List SignupInfo := signUps d.journal.updates

/-- The sign-ups in the channel. -/
def waiting (d : SignupDesk) : List SignupInfo := signUps d.queue

/-- The sign-up that a request is about to send. -/
def sends? (d : SignupDesk) (n : Nat) (hash : Except String String) : Option SignupInfo :=
  match d.calls[n]?, hash with
  | some (.sending data), .ok passHash => some (data.info passHash)
  | _, _ => none

/-- Nobody has the name, the invite is there, and no sign-up in the channel is for either. -/
def Free (d : SignupDesk) (info : SignupInfo) : Prop :=
  d.journal.state.users.contains info.username = false ∧ d.journal.state.invites.contains info.invite = true ∧
    ∀ w ∈ d.waiting, w.username ≠ info.username ∧ w.invite ≠ info.invite

instance (d : SignupDesk) (info : SignupInfo) : Decidable (d.Free info) := inferInstanceAs (Decidable (_ ∧ _ ∧ _))

/-- A sign-up is sent when its name and its invite are free, and none is lost as its row is not inserted. -/
def Orderly (d : SignupDesk) : SignupAction → Prop
  | .send n hash _ => ∀ info ∈ d.sends? n hash, d.Free info
  | .apply _ inserted => inserted = false → ∀ up ∈ d.queue.head?, up.body.signup? = none
  | _ => True

instance (d : SignupDesk) (act : SignupAction) : Decidable (d.Orderly act) :=
  match act with
  | .send n hash _ => inferInstanceAs (Decidable (∀ info ∈ d.sends? n hash, d.Free info))
  | .apply _ inserted => inferInstanceAs (Decidable (inserted = false → ∀ up ∈ d.queue.head?, up.body.signup? = none))
  | .request _ => isTrue trivial
  | .check _ => isTrue trivial
  | .createuser _ _ => isTrue trivial
  | .postTokens _ _ => isTrue trivial
  | .other _ => isTrue trivial

/-- Each request that was answered `Ok(())` has its own sign-up, accepted or in the channel; an accepted one has made the user with the
invite and the password; and no two of them are for one name, or with one invite that was not generated twice. -/
structure Honest (d : SignupDesk) : Prop where
  own : d.answered.Perm (d.accepted ++ d.waiting)
  created : ∀ info ∈ d.accepted, ∃ ui, d.journal.state.users.get? info.username = some ui ∧ ui.invite = info.invite ∧
    (¬ChangedPassword d.journal.updates info.username → ui.auth = info.auth)
  names : (d.answered.map (·.username)).Nodup
  invites : (generatedInvites d.journal.updates).Nodup → (d.answered.map (·.invite)).Nodup

/-! ## What a step does -/

/-- What a step does to the State, the channel and the answers. -/
inductive Moves (d : SignupDesk) : SignupAction → SignupDesk → Prop where
  | quiet {act : SignupAction} {d' : SignupDesk} : d'.journal = d.journal → d'.queue = d.queue → d'.answered.Perm d.answered →
      Moves d act d'
  | send {n : Nat} {hash : Except String String} {created : NaiveDateTime} {d' : SignupDesk} (info : SignupInfo) :
      d.sends? n hash = some info → d'.journal = d.journal → d'.queue = d.queue ++ [signupUpdate info created] →
      d'.answered.Perm (info :: d.answered) → Moves d (.send n hash created) d'
  | other (up : StateUpdate) : up.body.besidesSignups = true → Moves d (.other up) { d with queue := d.queue ++ [up] }
  | lost (o : Oracle) (inserted : Bool) (up : StateUpdate) (rest : List StateUpdate) : d.queue = up :: rest →
      (inserted = true → d.journal.store o up = none) → Moves d (.apply o inserted) { d with queue := rest }
  | stored (o : Oracle) (up : StateUpdate) (rest : List StateUpdate) (j : Journal) : d.queue = up :: rest →
      d.journal.store o up = some j → Moves d (.apply o true) { d with queue := rest, journal := j }

theorem answered_setCall {n : Nat} {call : SignupCall} (hcall : d.calls[n]? = some call) (hnone : call.succeeded? = none)
    (call' : SignupCall) : (d.setCall n call').answered.Perm (call'.succeeded?.toList ++ d.answered) := by
  obtain ⟨hn, hget⟩ := List.getElem?_eq_some_iff.mp hcall
  have hset : ∀ c, (d.calls.set n c).filterMap SignupCall.succeeded? =
      (d.calls.take n).filterMap SignupCall.succeeded? ++ (c.succeeded?.toList ++
        (d.calls.drop (n + 1)).filterMap SignupCall.succeeded?) := by
    intro c
    rw [List.set_eq_take_append_cons_drop, if_pos hn, List.filterMap_append, List.filterMap_cons]
    cases c.succeeded? <;> rfl
  have hold := hset call
  rw [← hget, List.set_getElem_self, hget, hnone] at hold
  rw [answered, setCall, hset call', answered, hold]
  exact List.perm_append_comm_assoc ..

theorem answered_request (call : SignupCall) (hnone : call.succeeded? = none) :
    answered { d with calls := d.calls ++ [call] } = d.answered := by
  simp [answered, hnone]

theorem moves_ask {n : Nat} {data : SignupEmail} {req : EthRequest} {call next : SignupCall} {outcome : EthOutcome}
    (hcall : d.calls[n]? = some call) (hnone : call.succeeded? = none) (hnext : next.succeeded? = none)
    (h : d.ask n data req next outcome = some d') : Moves d act d' := by
  have hset : ∀ next : SignupCall, next.succeeded? = none → (d.setCall n next).answered.Perm d.answered := by
    intro next hnext
    have hperm := answered_setCall hcall hnone next
    rwa [hnext] at hperm
  cases outcome with
  | done =>
    obtain ⟨logins, -, rfl⟩ := Option.map_eq_some_iff.mp h
    exact .quiet rfl rfl (hset next hnext)
  | lost e =>
    obtain ⟨logins, -, rfl⟩ := Option.map_eq_some_iff.mp h
    exact .quiet rfl rfl (hset _ rfl)
  | failed e =>
    obtain rfl := Option.some.inj h
    exact .quiet rfl rfl (hset _ rfl)

theorem moves (h : machine.step d act = some d') : Moves d act d' := by
  have hset : ∀ {n call}, d.calls[n]? = some call → call.succeeded? = none → ∀ next : SignupCall, next.succeeded? = none →
      (d.setCall n next).answered.Perm d.answered := by
    intro n call hcall hnone next hnext
    have hperm := answered_setCall hcall hnone next
    rwa [hnext] at hperm
  cases act with
  | request data =>
    simp only [machine, step] at h
    split at h
    · obtain rfl := Option.some.inj h
      exact .quiet rfl rfl (.of_eq (answered_request _ rfl))
    · obtain rfl := Option.some.inj h
      exact .quiet rfl rfl (.of_eq (answered_request _ rfl))
  | check n =>
    simp only [machine, step] at h
    split at h
    · rename_i data hcall
      split at h
      · obtain rfl := Option.some.inj h
        exact .quiet rfl rfl (hset hcall rfl _ rfl)
      · obtain rfl := Option.some.inj h
        exact .quiet rfl rfl (hset hcall rfl _ rfl)
    · cases h
  | createuser n outcome =>
    simp only [machine, step] at h
    split at h
    · rename_i data hcall
      exact moves_ask hcall rfl rfl h
    · cases h
  | postTokens n outcome =>
    simp only [machine, step] at h
    split at h
    · rename_i data hcall
      exact moves_ask hcall rfl rfl h
    · cases h
  | send n hash created =>
    simp only [machine, step] at h
    split at h
    · rename_i data e hcall
      obtain rfl := Option.some.inj h
      exact .quiet rfl rfl (hset hcall rfl _ rfl)
    · rename_i data passHash hcall
      obtain rfl := Option.some.inj h
      exact .send (data.info passHash) (by simp [sends?, hcall]) rfl rfl (answered_setCall hcall rfl _)
    · cases h
  | other up =>
    simp only [machine, step] at h
    split at h
    · rename_i hup
      obtain rfl := Option.some.inj h
      exact .other up hup
    · cases h
  | apply o inserted =>
    simp only [machine, step] at h
    split at h
    · rename_i up rest hqueue
      obtain rfl := Option.some.inj h
      cases inserted with
      | false => exact .lost o false up rest hqueue nofun
      | true =>
        cases hs : d.journal.store o up with
        | none => exact .lost o true up rest hqueue fun _ => hs
        | some j => exact .stored o up rest j hqueue hs
    · cases h

/-! ## Every run -/

theorem not_isSnapshot_of_besidesSignups {b : UpdateBody} (h : b.besidesSignups = true) : ¬b.IsSnapshot := by
  cases b with
  | snapshot s => cases h
  | _ => exact not_false

/-- (step) No snapshot is ever in the channel. -/
theorem noSnapshot_step (hd : ∀ up ∈ d.queue, ¬up.body.IsSnapshot) (h : machine.step d act = some d') :
    ∀ up ∈ d'.queue, ¬up.body.IsSnapshot := by
  cases moves h with
  | quiet _ hqueue _ => rwa [hqueue]
  | send info _ _ hqueue _ =>
    rw [hqueue]
    exact List.forall_mem_append.mpr ⟨hd, List.forall_mem_singleton.mpr not_false⟩
  | other up hup => exact List.forall_mem_append.mpr ⟨hd, List.forall_mem_singleton.mpr (not_isSnapshot_of_besidesSignups hup)⟩
  | lost o inserted up rest hqueue _ =>
    rw [hqueue] at hd
    exact (List.forall_mem_cons.mp hd).2
  | stored o up rest j hqueue _ =>
    rw [hqueue] at hd
    exact (List.forall_mem_cons.mp hd).2

/-- (run) -/
theorem noSnapshot {P : SignupDesk → SignupAction → Prop} (h : machine.Reachable P d) : ∀ up ∈ d.queue, ¬up.body.IsSnapshot := by
  refine Machine.Reachable.invariant (I := fun (d : SignupDesk) => ∀ up ∈ d.queue, ¬up.body.IsSnapshot) h ?_
    fun _ _ _ _ hd _ hs => noSnapshot_step hd hs
  rintro _ ⟨now, genesisHash, rfl⟩
  exact List.forall_mem_nil _

/-- The worker's part of a run is a run of the worker. -/
theorem journal_reachable {P : SignupDesk → SignupAction → Prop} (h : machine.Reachable P d) :
    Journal.machine.Reachable (fun _ a => ¬a.2.body.IsSnapshot) d.journal := by
  refine h.simulate (f := fun (d : SignupDesk) => d.journal) ?_ fun d act d' hr _ hs => ?_
  · rintro _ ⟨now, genesisHash, rfl⟩
    exact ⟨now, genesisHash, rfl⟩
  · cases moves hs with
    | quiet hjournal _ _ => exact Or.inl hjournal
    | send _ _ hjournal _ _ => exact Or.inl hjournal
    | other up _ => exact Or.inl rfl
    | lost o inserted up rest _ _ => exact Or.inl rfl
    | stored o up rest j hqueue hstore =>
      exact Or.inr ⟨(o, up), noSnapshot hr up (hqueue ▸ List.mem_cons_self), hstore⟩

theorem madeBy {P : SignupDesk → SignupAction → Prop} (h : machine.Reachable P d) :
    d.journal.state.MadeBy EXCHANGE_NUMBER_OF_CONFIRMATIONS State.anyUpdate d.journal.updates :=
  Journal.madeBy_updates (fun _ _ h => ⟨trivial, h⟩) (journal_reachable h)

/-! ## Orderly runs -/

/-- What holds while sign-ups are sent when they find their names and invites free. -/
structure Pending (d : SignupDesk) : Prop where
  own : d.answered.Perm (d.accepted ++ d.waiting)
  free : ∀ w ∈ d.waiting, d.journal.state.users.get? w.username = none ∧ d.journal.state.invites.contains w.invite = true
  apart : d.waiting.Pairwise fun w w' => w.username ≠ w'.username ∧ w.invite ≠ w'.invite

/-- A sign-up is sent. -/
theorem Pending.send (hd : d.Pending) {info : SignupInfo} {created : NaiveDateTime} (hfree : d.Free info)
    (hjournal : d'.journal = d.journal) (hqueue : d'.queue = d.queue ++ [signupUpdate info created])
    (hanswered : d'.answered.Perm (info :: d.answered)) : d'.Pending := by
  obtain ⟨huser, hinvite, hothers⟩ := hfree
  have hwaiting : d'.waiting = d.waiting ++ [info] := by
    rw [waiting, hqueue, signUps_concat]
    rfl
  have haccepted : d'.accepted = d.accepted := by rw [accepted, hjournal, accepted]
  refine ⟨?_, ?_, ?_⟩
  · rw [hwaiting, haccepted, ← List.append_assoc]
    exact hanswered.trans ((List.Perm.cons info hd.own).trans (List.perm_append_singleton info _).symm)
  · rw [hwaiting, hjournal]
    refine List.forall_mem_append.mpr ⟨hd.free, List.forall_mem_singleton.mpr ⟨?_, hinvite⟩⟩
    simpa [AssocMap.contains] using huser
  · rw [hwaiting]
    refine List.pairwise_append.mpr ⟨hd.apart, List.pairwise_singleton _ _, fun w hw w' hw' => ?_⟩
    rw [List.mem_singleton.mp hw']
    exact hothers w hw

/-- A step that neither answers `Ok(())` nor touches a sign-up. -/
theorem Pending.keep (hd : d.Pending) (hanswered : d'.answered.Perm d.answered) (haccepted : d'.accepted = d.accepted)
    (hwaiting : d'.waiting = d.waiting)
    (husers : ∀ u, d.journal.state.users.get? u = none → d'.journal.state.users.get? u = none)
    (hinvites : ∀ i, d.journal.state.invites.contains i = true → d'.journal.state.invites.contains i = true) : d'.Pending := by
  refine ⟨?_, fun w hw => ?_, hwaiting ▸ hd.apart⟩
  · rw [hwaiting, haccepted]
    exact hanswered.trans hd.own
  · obtain ⟨huser, hinvite⟩ := hd.free w (hwaiting ▸ hw)
    exact ⟨husers _ huser, hinvites _ hinvite⟩

theorem waiting_cons {up : StateUpdate} {rest : List StateUpdate} (hqueue : d.queue = up :: rest) :
    d.waiting = up.body.signup?.toList ++ signUps rest := by
  rw [waiting, hqueue, signUps, List.filterMap_cons]
  cases up.body.signup? <;> rfl

/-- The first sign-up of the channel is accepted. -/
theorem Pending.accept (hd : d.Pending) {up : StateUpdate} {rest : List StateUpdate} {j : Journal} {info : SignupInfo}
    (hqueue : d.queue = up :: rest) (hup : up.body = .signup info) (hupdates : j.updates = d.journal.updates ++ [up])
    (husers : ∀ u, u ≠ info.username → j.state.users.get? u = d.journal.state.users.get? u)
    (hinvites : ∀ i, i ≠ info.invite → j.state.invites.contains i = d.journal.state.invites.contains i) :
    Pending { d with queue := rest, journal := j } := by
  have hwaiting : d.waiting = info :: signUps rest := by
    rw [waiting_cons hqueue, hup]
    rfl
  have haccepted : accepted { d with queue := rest, journal := j } = d.accepted ++ [info] := by
    rw [accepted, hupdates, signUps_concat, hup]
    rfl
  have hapart := hd.apart
  rw [hwaiting, List.pairwise_cons] at hapart
  refine ⟨?_, fun w hw => ?_, hapart.2⟩
  · rw [haccepted, List.append_assoc]
    have hown := hd.own
    rw [hwaiting] at hown
    exact hown
  · obtain ⟨huser, hinvite⟩ := hd.free w (hwaiting ▸ List.mem_cons_of_mem _ hw)
    obtain ⟨hname, hi⟩ := hapart.1 w hw
    exact ⟨(husers _ hname.symm).trans huser, (hinvites _ hi.symm).trans hinvite⟩

/-- An update that is no sign-up lets names and invites be free. -/
theorem free_of_other {s s' : State} {o : Oracle} {up : StateUpdate} {res : Option UpdateResult}
    (h : s.applyUpdate o up = (s', .ok res)) (hs : ¬up.body.IsSnapshot) (hup : up.body.signup? = none) :
    (∀ u, s.users.get? u = none → s'.users.get? u = none) ∧
      ∀ i, s.invites.contains i = true → s'.invites.contains i = true := by
  have hsign : ∀ info, up.body ≠ .signup info := fun info hb => by
    rw [signup?_eq_some.mpr hb] at hup
    cases hup
  refine ⟨fun u hu => applyUpdate_absent h hs (fun info hb => absurd hb (hsign info)) hu, fun i hi => ?_⟩
  rcases applyUpdate_invites h hs with ⟨info, -, hb, -, -, -, -⟩ | ⟨req, -, -, hinvites⟩ | ⟨-, -, hinvites⟩
  · exact absurd hb (hsign info)
  · rw [hinvites, AssocMap.contains, AssocMap.get?_insert]
    split
    · rfl
    · exact hi
  · rw [hinvites]
    exact hi

/-- (step) -/
theorem Pending.step (hd : d.Pending) (hsnap : ∀ up ∈ d.queue, ¬up.body.IsSnapshot) (horderly : d.Orderly act)
    (h : machine.step d act = some d') : d'.Pending := by
  cases moves h with
  | quiet hjournal hqueue hanswered =>
    refine hd.keep hanswered ?_ ?_ (fun u hu => ?_) fun i hi => ?_
    · rw [accepted, hjournal, accepted]
    · rw [waiting, hqueue, waiting]
    · rw [hjournal, hu]
    · rw [hjournal, hi]
  | send info hsends hjournal hqueue hanswered => exact hd.send (horderly info hsends) hjournal hqueue hanswered
  | other up hup =>
    refine hd.keep (.refl _) rfl ?_ (fun _ hu => hu) fun _ hi => hi
    rw [waiting, signUps_concat, signup?_of_besidesSignups hup]
    exact List.append_nil _
  | lost o inserted up rest hqueue hlost =>
    cases hup : up.body.signup? with
    | none =>
      refine hd.keep (.refl _) rfl ?_ (fun _ hu => hu) fun _ hi => hi
      rw [waiting_cons hqueue, hup]
      rfl
    | some info =>
      -- the sign-up of a free name is accepted, and its row is inserted
      obtain ⟨huser, hinvite⟩ := hd.free info (by rw [waiting_cons hqueue, hup]; exact List.mem_cons_self)
      obtain ⟨j, hj, -, -⟩ := Journal.exists_store_signup o (signup?_eq_some.mp hup) huser hinvite
      cases inserted with
      | false =>
        have hnone := horderly rfl up (by rw [hqueue]; rfl)
        rw [hup] at hnone
        cases hnone
      | true =>
        rw [hlost rfl] at hj
        cases hj
  | stored o up rest j hqueue hstore =>
    cases hup : up.body.signup? with
    | none =>
      obtain ⟨husers, hinvites⟩ := free_of_other (Journal.store_answer hstore) (hsnap up (hqueue ▸ List.mem_cons_self)) hup
      refine hd.keep (.refl _) ?_ ?_ husers hinvites
      · rw [accepted, Journal.updates_store hstore, signUps_concat, hup]
        exact List.append_nil _
      · rw [waiting_cons hqueue, hup]
        rfl
    | some info =>
      have hb := signup?_eq_some.mp hup
      obtain ⟨huser, hinvite⟩ := hd.free info (by rw [waiting_cons hqueue, hup]; exact List.mem_cons_self)
      obtain ⟨j', hj', husers, hinvites⟩ := Journal.exists_store_signup o hb huser hinvite
      obtain rfl := Option.some.inj (hstore.symm.trans hj')
      refine hd.accept hqueue hb (Journal.updates_store hstore) (fun u hu => ?_) fun i hi => ?_
      · rw [husers, AssocMap.get?_insert, if_neg hu]
      · rw [hinvites, AssocMap.contains, AssocMap.get?_erase, if_neg hi]
        rfl

/-- (run) -/
theorem pending (h : machine.Reachable Orderly d) : d.Pending := by
  refine h.invariant ?_ fun d act d' hr hd horderly hs => hd.step (noSnapshot hr) horderly hs
  rintro _ ⟨now, genesisHash, rfl⟩
  exact ⟨.refl _, List.forall_mem_nil _, List.Pairwise.nil⟩

/-- Where the channel holds only free names and invites, the answers are honest. -/
theorem Pending.honest (hd : d.Pending) (hs : d.journal.state.SignedUp d.journal.updates)
    (ht : d.journal.state.InvitesTracked d.journal.updates) : d.Honest := by
  have hpart : ∀ {α : Type} {p : UserInfo → α} {u x}, d.journal.state.part u p = some x →
      ∃ ui, d.journal.state.users.get? u = some ui ∧ p ui = x := Option.map_eq_some_iff.mp
  refine ⟨hd.own, fun info hinfo => ?_, ?_, fun hn => ?_⟩
  · obtain ⟨ui, hui, hinvite⟩ := hpart (hs.invite info hinfo)
    refine ⟨ui, hui, hinvite, fun hchanged => ?_⟩
    obtain ⟨ui', hui', hauth⟩ := hpart (hs.auth info hinfo hchanged)
    obtain rfl := Option.some.inj (hui.symm.trans hui')
    exact hauth
  · rw [(hd.own.map _).nodup_iff, List.map_append]
    refine List.nodup_append.mpr ⟨hs.names, ?_, ?_⟩
    · exact List.pairwise_map.mpr (hd.apart.imp And.left)
    · rintro _ hu _ hu' rfl
      obtain ⟨info, hinfo, rfl⟩ := List.mem_map.mp hu
      obtain ⟨w, hw, hname⟩ := List.mem_map.mp hu'
      obtain ⟨ui, hui, -⟩ := hpart (hs.invite info hinfo)
      rw [← hname, (hd.free w hw).1] at hui
      cases hui
  · rw [(hd.own.map _).nodup_iff, List.map_append]
    refine List.nodup_append.mpr ⟨hs.invites ht hn, ?_, ?_⟩
    · exact List.pairwise_map.mpr (hd.apart.imp And.right)
    · rintro _ hi _ hi' rfl
      obtain ⟨info, hinfo, rfl⟩ := List.mem_map.mp hi
      obtain ⟨w, hw, hinvite⟩ := List.mem_map.mp hi'
      have hspent := ht.spent hn info.username info.invite (hs.invite info hinfo)
      have hfree := (hd.free w hw).2
      rw [hinvite, AssocMap.contains, hspent] at hfree
      cases hfree

/-- In orderly runs each request that was answered `Ok(())` has its own sign-up, which is accepted when its turn comes. -/
theorem answered_sign_ups_are_accepted (h : machine.Reachable Orderly d) : d.Honest :=
  (pending h).honest (madeBy h).signedUp (madeBy h).invitesTracked

end SignupDesk

namespace Sample

def signupDesk : SignupDesk := { journal := start, queue := [], logins := [], calls := [] }

theorem machine_init_signupDesk : SignupDesk.machine.init signupDesk := ⟨⟨0⟩, "genesis", rfl⟩

/-- An invite is generated. -/
def anInvite (n : Nat) : List SignupAction :=
  [.other { created := ⟨1⟩, body := .genInvite { invite := ⟨uuid n⟩, invitor := "op", label := "" } }, .apply oracle true]

def asks (user : String) (n : Nat) : SignupAction := .request { user := user, invite := ⟨uuid n⟩, password := "secret" }

/-- The request with a number is let through up to where it sends. -/
def letThrough (n : Nat) : List SignupAction := [.check n, .createuser n .done, .postTokens n .done]

def sends (n : Nat) : SignupAction := .send n (.ok "hash") ⟨2⟩

def signedUp (user : String) (n : Nat) : SignupInfo := { username := user, invite := ⟨uuid n⟩, auth := .password "hash" }

end Sample

open Sample in
/-- One request after another. -/
theorem SignupDesk.answered_one_by_one :
    ∃ d, machine.Reachable Orderly d ∧ d.answered = [signedUp alice 1, signedUp "carol" 2] ∧ d.queue = [] ∧ d.Honest := by
  obtain ⟨d, hr, hq⟩ := Machine.exists_reachable (P := Orderly)
    (anInvite 1 ++ anInvite 2 ++ [asks alice 1] ++ letThrough 0 ++ [sends 0, .apply oracle true, asks "carol" 2] ++ letThrough 1 ++
      [sends 1, .apply oracle true])
    (q := fun (d : SignupDesk) => decide (d.answered = [signedUp alice 1, signedUp "carol" 2]) && d.queue.isEmpty)
    machine_init_signupDesk (by decide)
  obtain ⟨hanswered, hqueue⟩ := Bool.and_eq_true_iff.mp hq
  exact ⟨d, hr, of_decide_eq_true hanswered, List.isEmpty_iff.mp hqueue, answered_sign_ups_are_accepted hr⟩

/-- Where more requests were answered `Ok(())` than sign-ups are accepted or waiting, the answers are not honest. -/
theorem SignupDesk.not_honest_of_length {d : SignupDesk} (h : d.accepted.length + d.waiting.length < d.answered.length) :
    ¬d.Honest := by
  intro hd
  have hlength := hd.own.length_eq
  rw [List.length_append] at hlength
  omega

open Sample in
/-- Two requests with one invite that overlap are both answered `Ok(())`, and the second user is never there. So are two requests for one
name that reaches the login of somebody else, with an invite each. -/
theorem SignupDesk.answered_and_refused :
    (∃ d, machine.Reachable Machine.anyStep d ∧ d.answered = [signedUp alice 1, signedUp "carol" 1] ∧ d.queue = [] ∧
      d.journal.state.users.keys = [alice]) ∧
    (∃ d, machine.Reachable Machine.anyStep d ∧
      d.answered = [signedUp alice 1, signedUp "../tokens/alice" 2, signedUp "../tokens/alice" 3] ∧ d.queue = [] ∧
      d.accepted = [signedUp alice 1, signedUp "../tokens/alice" 2]) ∧
    ¬∀ d, machine.Reachable Machine.anyStep d → d.Honest := by
  obtain ⟨d, hr, hq⟩ := Machine.exists_reachable (P := Machine.anyStep)
    (anInvite 1 ++ [asks alice 1, asks "carol" 1] ++ letThrough 0 ++ letThrough 1 ++
      [sends 0, sends 1, .apply oracle true, .apply oracle true])
    (q := fun (d : SignupDesk) => decide (d.answered = [signedUp alice 1, signedUp "carol" 1] ∧ d.queue.isEmpty = true ∧
      d.journal.state.users.keys = [alice] ∧ d.accepted.length + d.waiting.length < d.answered.length))
    machine_init_signupDesk (by decide)
  obtain ⟨d', hr', hq'⟩ := Machine.exists_reachable (P := Machine.anyStep)
    (anInvite 1 ++ anInvite 2 ++ anInvite 3 ++ [asks alice 1] ++ letThrough 0 ++ [sends 0, .apply oracle true] ++
      [asks "../tokens/alice" 2, asks "../tokens/alice" 3] ++ letThrough 1 ++ letThrough 2 ++
      [sends 1, sends 2, .apply oracle true, .apply oracle true])
    (q := fun (d : SignupDesk) => decide
      (d.answered = [signedUp alice 1, signedUp "../tokens/alice" 2, signedUp "../tokens/alice" 3] ∧ d.queue.isEmpty = true ∧
        d.accepted = [signedUp alice 1, signedUp "../tokens/alice" 2]))
    machine_init_signupDesk (by decide)
  obtain ⟨hanswered, hqueue, hkeys, hless⟩ := of_decide_eq_true hq
  obtain ⟨hanswered', hqueue', haccepted'⟩ := of_decide_eq_true hq'
  refine ⟨⟨d, hr, hanswered, List.isEmpty_iff.mp hqueue, hkeys⟩, ⟨d', hr', hanswered', List.isEmpty_iff.mp hqueue', haccepted'⟩, ?_⟩
  exact fun hall => not_honest_of_length hless (hall d hr)

end Hexstody
