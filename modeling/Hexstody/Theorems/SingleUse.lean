import Hexstody.History
import Hexstody.Lemmas.Invites

/-!
# Invites

An invite signs up one user. Of a State and the updates that made it: an invite of the State is one that was generated and is stored
under itself, a user's invite was generated before the user's sign-up, and, as long as no invite is generated twice, a user's invite is
none of the State's and no other user's (`invites_single_use`). So there are no more users than generated invites.
-/

namespace Hexstody

/-- The invite that an update generates. -/
def StateUpdate.generated? (up : StateUpdate) : Option Invite :=
  match up.body with
  | .genInvite req => some req.invite
  | _ => none

/-- The invites that updates generate, in their order. -/
def generatedInvites (us : List StateUpdate) : List Invite := us.filterMap StateUpdate.generated?

/-- The update is the sign-up of a user with an invite. -/
def StateUpdate.SignsUp (up : StateUpdate) (u : UserId) (i : Invite) : Prop :=
  ∃ info, up.body = .signup info ∧ info.username = u ∧ info.invite = i

namespace State

/-- Invites are single use. -/
structure SingleUse (s : State) (us : List StateUpdate) : Prop where
  distinct : ∀ u u' ui ui', s.users.get? u = some ui → s.users.get? u' = some ui' → ui.invite = ui'.invite → u = u'
  spent : ∀ u ui, s.users.get? u = some ui → ui.invite ∉ s.invites.keys
  earlier : ∀ u ui, s.users.get? u = some ui →
    ∃ g up, [g, up].Sublist us ∧ g.generated? = some ui.invite ∧ up.SignsUp u ui.invite
  keyed : ∀ i r, s.invites.get? i = some r → r.invite = i
  count : s.users.keys.length ≤ (generatedInvites us).length

/-- The invariant: what holds of the State's invites (`stored`, `keyed`) and of the users' (`earlier`, `spent`, `distinct`). -/
structure InvitesTracked (s : State) (us : List StateUpdate) : Prop where
  stored : ∀ i r, s.invites.get? i = some r → i ∈ generatedInvites us
  keyed : ∀ i r, s.invites.get? i = some r → r.invite = i
  earlier : ∀ u i, s.part u (·.invite) = some i → ∃ g up, [g, up].Sublist us ∧ g.generated? = some i ∧ up.SignsUp u i
  spent : (generatedInvites us).Nodup → ∀ u i, s.part u (·.invite) = some i → s.invites.get? i = none
  distinct : (generatedInvites us).Nodup → ∀ u u' i, s.part u (·.invite) = some i → s.part u' (·.invite) = some i → u = u'

variable {s s' : State} {us : List StateUpdate} {o : Oracle} {up : StateUpdate} {res : Option UpdateResult}

theorem mem_generatedInvites {i : Invite} : i ∈ generatedInvites us ↔ ∃ g ∈ us, g.generated? = some i := List.mem_filterMap

theorem generatedInvites_concat (us : List StateUpdate) (up : StateUpdate) :
    generatedInvites (us ++ [up]) = generatedInvites us ++ up.generated?.toList := by
  rw [generatedInvites, List.filterMap_append, List.filterMap_cons, List.filterMap_nil]
  cases up.generated? <;> rfl

/-- An update that generates no invite leaves the list of them. -/
theorem generatedInvites_same (h : up.generated? = none) : generatedInvites (us ++ [up]) = generatedInvites us := by
  rw [generatedInvites_concat, h]
  exact List.append_nil _

theorem InvitesTracked.new (now : NaiveDateTime) (genesisHash : String) : (State.new now genesisHash).InvitesTracked [] where
  stored := nofun
  keyed := nofun
  earlier := nofun
  spent := nofun
  distinct := nofun

/-- The invites of the users are those they had, but for a user who is signed up. -/
theorem part_invite (h : s.applyUpdate o up = (s', .ok res)) (hs : ¬up.body.IsSnapshot) (u : UserId) :
    s'.part u (·.invite) = s.part u (·.invite) ∨
      ∃ info, up.body = .signup info ∧ info.username = u ∧ s'.part u (·.invite) = some info.invite := by
  have hp : Steady (fun ui : UserInfo => ui.invite) := ⟨fun _ _ _ => rfl, fun _ _ => rfl, fun _ _ => rfl⟩
  rcases applyUpdate_steady hp (Or.inl fun _ _ => rfl) h hs u with hsame | ⟨info, hb, hu, -, hnew⟩
  · exact Or.inl hsame
  · exact Or.inr ⟨info, hb, hu, hnew⟩

/-- A user whose sign-up the update is not keeps the invite. -/
theorem part_invite_same (h : s.applyUpdate o up = (s', .ok res)) (hs : ¬up.body.IsSnapshot) {u : UserId}
    (hsign : ∀ info, up.body = .signup info → info.username ≠ u) : s'.part u (·.invite) = s.part u (·.invite) := by
  rcases part_invite h hs u with hsame | ⟨info, hb, hu, -⟩
  · exact hsame
  · exact absurd hu (hsign info hb)

/-- A sign-up takes an invite of the State, and gives it to a user who was not there. -/
theorem InvitesTracked.taken (hi : s.InvitesTracked us) (h : s.applyUpdate o up = (s', .ok res)) (hs : ¬up.body.IsSnapshot)
    {info : SignupInfo} {r : InviteRec} (hb : up.body = .signup info) (hr : s.invites.get? info.invite = some r)
    (hinv : s'.invites = s.invites.erase info.invite)
    (hnew : s'.part info.username (·.invite) = some info.invite) : s'.InvitesTracked (us ++ [up]) := by
  have hgen : up.generated? = none := by rw [StateUpdate.generated?, hb]
  have hother : ∀ {u : UserId}, u ≠ info.username → s'.part u (·.invite) = s.part u (·.invite) := by
    intro u hu
    refine part_invite_same h hs fun info' hb' hu' => hu ?_
    obtain rfl := UpdateBody.signup.inj (hb.symm.trans hb')
    exact hu'.symm
  have hleft : ∀ {i : Invite} {r' : InviteRec}, s'.invites.get? i = some r' → s.invites.get? i = some r' := by
    intro i r' hi'
    rw [hinv, AssocMap.get?_erase] at hi'
    split at hi'
    · cases hi'
    · exact hi'
  refine ⟨fun i r' hi' => ?_, fun i r' hi' => hi.keyed i r' (hleft hi'), fun u i hu => ?_, fun hn u i hu => ?_,
    fun hn u u' i hu hu' => ?_⟩
  · rw [generatedInvites_same hgen]
    exact hi.stored i r' (hleft hi')
  · by_cases hsame : u = info.username
    · obtain rfl := hsame
      obtain rfl := Option.some.inj (hnew.symm.trans hu)
      obtain ⟨g, hg, hgi⟩ := mem_generatedInvites.mp (hi.stored _ r hr)
      exact ⟨g, up, (List.singleton_sublist.mpr hg).append (List.Sublist.refl [up]), hgi, info, hb, rfl, rfl⟩
    · obtain ⟨g, up', hsub, hg, hup⟩ := hi.earlier u i ((hother hsame).symm.trans hu)
      exact ⟨g, up', hsub.trans (List.sublist_append_left us [up]), hg, hup⟩
  · rw [generatedInvites_same hgen] at hn
    rw [hinv, AssocMap.get?_erase]
    by_cases hsame : u = info.username
    · obtain rfl := hsame
      obtain rfl := Option.some.inj (hnew.symm.trans hu)
      exact if_pos rfl
    · rw [hi.spent hn u i ((hother hsame).symm.trans hu), ite_self]
  · rw [generatedInvites_same hgen] at hn
    -- another user's invite is none of the State's, so it is not the one that is taken
    have hfresh : ∀ {u : UserId}, u ≠ info.username → s'.part u (·.invite) ≠ some info.invite := by
      intro u hne hu
      rw [hother hne] at hu
      rw [hi.spent hn u _ hu] at hr
      cases hr
    by_cases hsame : u = info.username
    · obtain rfl := hsame
      obtain rfl := Option.some.inj (hnew.symm.trans hu)
      exact (by_contra fun hne => hfresh (Ne.symm hne) hu')
    · by_cases hsame' : u' = info.username
      · obtain rfl := hsame'
        obtain rfl := Option.some.inj (hnew.symm.trans hu')
        exact absurd hu (hfresh hsame)
      · exact hi.distinct hn u u' i ((hother hsame).symm.trans hu) ((hother hsame').symm.trans hu')

/-- A generated invite is nobody's, if it was not generated before. -/
theorem InvitesTracked.generated (hi : s.InvitesTracked us) (h : s.applyUpdate o up = (s', .ok res)) (hs : ¬up.body.IsSnapshot)
    {req : InviteRec} (hb : up.body = .genInvite req) (hinv : s'.invites = s.invites.insert req.invite req) :
    s'.InvitesTracked (us ++ [up]) := by
  have hgen : generatedInvites (us ++ [up]) = generatedInvites us ++ [req.invite] := by
    rw [generatedInvites_concat, StateUpdate.generated?, hb]
    rfl
  have hsame : ∀ u, s'.part u (·.invite) = s.part u (·.invite) :=
    fun u => part_invite_same h hs fun info hb' => absurd (hb.symm.trans hb') nofun
  have hinsert : ∀ i, s'.invites.get? i = if i = req.invite then some req else s.invites.get? i :=
    fun i => hinv ▸ AssocMap.get?_insert ..
  have hnodup : (generatedInvites (us ++ [up])).Nodup → (generatedInvites us).Nodup ∧ req.invite ∉ generatedInvites us := by
    rw [hgen, ← List.concat_eq_append, List.nodup_concat]
    exact And.symm
  refine ⟨fun i r hr => ?_, fun i r hr => ?_, fun u i hu => ?_, fun hn u i hu => ?_, fun hn u u' i hu hu' => ?_⟩
  · rw [hgen, List.mem_append, List.mem_singleton]
    rw [hinsert] at hr
    split at hr
    · rename_i hi'
      exact Or.inr hi'
    · exact Or.inl (hi.stored i r hr)
  · rw [hinsert] at hr
    split at hr
    · rename_i hi'
      rw [hi', ← Option.some.inj hr]
    · exact hi.keyed i r hr
  · obtain ⟨g, up', hsub, hg, hup⟩ := hi.earlier u i (hsame u ▸ hu)
    exact ⟨g, up', hsub.trans (List.sublist_append_left us [up]), hg, hup⟩
  · obtain ⟨hn', hfresh⟩ := hnodup hn
    rw [hsame] at hu
    rw [hinsert, if_neg, hi.spent hn' u i hu]
    rintro rfl
    obtain ⟨g, up', hsub, hg, -⟩ := hi.earlier u req.invite hu
    exact hfresh (mem_generatedInvites.mpr ⟨g, hsub.subset List.mem_cons_self, hg⟩)
  · rw [hsame] at hu hu'
    exact hi.distinct (hnodup hn).1 u u' i hu hu'

/-- An update that neither signs up nor generates an invite changes nothing. -/
theorem InvitesTracked.other (hi : s.InvitesTracked us) (h : s.applyUpdate o up = (s', .ok res)) (hs : ¬up.body.IsSnapshot)
    (hsign : ∀ info, up.body ≠ .signup info) (hgen : ∀ req, up.body ≠ .genInvite req) (hinv : s'.invites = s.invites) :
    s'.InvitesTracked (us ++ [up]) := by
  have hnone : up.generated? = none := by
    unfold StateUpdate.generated?
    split
    · rename_i req hb
      exact absurd hb (hgen req)
    · rfl
  have hsame : ∀ u, s'.part u (·.invite) = s.part u (·.invite) :=
    fun u => part_invite_same h hs fun info hb => absurd hb (hsign info)
  have hlist : generatedInvites (us ++ [up]) = generatedInvites us := generatedInvites_same hnone
  refine ⟨fun i r hr => ?_, fun i r hr => hi.keyed i r (hinv ▸ hr), fun u i hu => ?_, fun hn u i hu => ?_,
    fun hn u u' i hu hu' => ?_⟩
  · rw [hlist]
    exact hi.stored i r (hinv ▸ hr)
  · obtain ⟨g, up', hsub, hg, hup⟩ := hi.earlier u i (hsame u ▸ hu)
    exact ⟨g, up', hsub.trans (List.sublist_append_left us [up]), hg, hup⟩
  · rw [hinv]
    exact hi.spent (hlist ▸ hn) u i (hsame u ▸ hu)
  · exact hi.distinct (hlist ▸ hn) u u' i (hsame u ▸ hu) (hsame u' ▸ hu')

/-- Every update keeps it. -/
theorem InvitesTracked.step (hi : s.InvitesTracked us) (h : s.applyUpdate o up = (s', .ok res)) (hs : ¬up.body.IsSnapshot) :
    s'.InvitesTracked (us ++ [up]) := by
  rcases applyUpdate_invites h hs with ⟨info, r, hb, -, hr, hinv, hnew⟩ | ⟨req, hb, -, hinv⟩ | ⟨hsign, hgen, hinv⟩
  · exact hi.taken h hs hb hr hinv (by rw [State.part, hnew]; rfl)
  · exact hi.generated h hs hb hinv
  · exact hi.other h hs hsign hgen hinv

theorem MadeBy.invitesTracked {P : State → UpdateBody → Prop} (h : s.MadeBy EXCHANGE_NUMBER_OF_CONFIRMATIONS P us) :
    s.InvitesTracked us :=
  h.invariant_number InvitesTracked.new (fun _ _ _ hi => ⟨hi.stored, hi.keyed, hi.earlier, hi.spent, hi.distinct⟩)
    (fun _ hi _ hs happly => hi.step happly hs)

/-! ## The number of users -/

/-- Users whose invites are distinct, and generated, are no more than the generated invites. -/
theorem InvitesTracked.count (hi : s.InvitesTracked us) (hn : (generatedInvites us).Nodup) :
    s.users.keys.length ≤ (generatedInvites us).length := by
  have hpart : ∀ e ∈ s.users.toList, s.part e.1 (·.invite) = some e.2.invite := by
    intro e he
    rw [State.part, (AssocMap.mem_toList_iff _ _ _).mp he]
    rfl
  have hnodup : (s.users.toList.map fun e => e.2.invite).Nodup := by
    refine List.Nodup.map_on (fun e he e' he' heq => ?_) (AssocMap.nodup_toList s.users)
    have hkey := hi.distinct hn e.1 e'.1 e.2.invite (hpart e he) (heq ▸ hpart e' he')
    refine Prod.ext hkey (Option.some.inj ?_)
    rw [← (AssocMap.mem_toList_iff _ _ _).mp he, ← (AssocMap.mem_toList_iff _ _ _).mp he', hkey]
  have hsub : (s.users.toList.map fun e => e.2.invite) ⊆ generatedInvites us := by
    intro i hi'
    obtain ⟨e, he, rfl⟩ := List.mem_map.mp hi'
    obtain ⟨g, up', hsub, hg, -⟩ := hi.earlier e.1 e.2.invite (hpart e he)
    exact mem_generatedInvites.mpr ⟨g, hsub.subset List.mem_cons_self, hg⟩
  have hlength := (List.subperm_of_subset hnodup hsub).length_le
  rwa [List.length_map, ← List.length_map (·.1), AssocMap.toList_keys] at hlength

/-- An invite signs up one user. -/
theorem invites_single_use {s : State} {us : List StateUpdate} (h : s.MadeBy EXCHANGE_NUMBER_OF_CONFIRMATIONS anyUpdate us)
    (hdistinct : (generatedInvites us).Nodup) : s.SingleUse us := by
  have hi := h.invitesTracked
  have hpart : ∀ {u ui}, s.users.get? u = some ui → s.part u (·.invite) = some ui.invite := by
    intro u ui hu
    rw [State.part, hu]
    rfl
  refine ⟨fun u u' ui ui' hu hu' heq => ?_, fun u ui hu => ?_, fun u ui hu => hi.earlier u _ (hpart hu), hi.keyed,
    hi.count hdistinct⟩
  · exact hi.distinct hdistinct u u' ui.invite (hpart hu) (heq ▸ hpart hu')
  · rw [AssocMap.mem_keys_iff, hi.spent hdistinct u _ (hpart hu)]
    rintro ⟨r, hr⟩
    cases hr

open Sample in
/-- Alice signs up with the invite that was generated. -/
theorem invites_single_use_signup : ∃ (s : State) (us : List StateUpdate), s.users.keys = [alice] ∧
    generatedInvites us = [⟨uuid 1⟩] ∧ s.SingleUse us := by
  obtain ⟨j, hj, hq⟩ := Machine.exists_reachable (P := fun (_ : Journal) (a : Oracle × StateUpdate) => ¬a.2.body.IsSnapshot) signup
    (q := fun (j : Journal) => decide (j.state.users.keys = [alice] ∧ generatedInvites j.updates = [⟨uuid 1⟩])) start_init (by decide)
  obtain ⟨hkeys, hgen⟩ := of_decide_eq_true hq
  have hmade : j.state.MadeBy EXCHANGE_NUMBER_OF_CONFIRMATIONS anyUpdate j.updates :=
    Journal.madeBy_updates (fun _ _ h => ⟨trivial, h⟩) hj
  exact ⟨j.state, j.updates, hkeys, hgen, invites_single_use hmade (by rw [hgen]; exact List.nodup_singleton _)⟩

end State

end Hexstody
