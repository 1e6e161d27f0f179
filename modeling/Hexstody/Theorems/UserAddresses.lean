import Hexstody.DepositDesk
import Hexstody.Lemmas.Addresses
import Hexstody.Theorems.ExchangeAddresses
import Hexstody.Theorems.PendingOrders

/-!
# Addresses of the users that were handed out

An address is handed out before it is the user's: its update may still be on the way, behind others. `handed_out_addresses_held` says
that no address is lost on the way: in every run where no token is disabled that a user has an address in, or is about to get one in,
and no row of an address fails to be inserted, each address that was answered is the user's or its update is on the way, it is in the
currency that was asked for, and what is the user's stays so.
-/

namespace Hexstody

/-- The account that an update closes. -/
def UpdateBody.closes? : UpdateBody → Option (UserId × Currency)
  | .updateTokens req =>
    match req.action with
    | .disable => some (req.user, .erc20 req.token)
    | .enable => none
  | _ => none

/-- The update gives an address to a user. -/
def UpdateBody.givesAddress : UpdateBody → Bool
  | .depositAddress _ => true
  | _ => false

/-- The account that a call counts on: it has an address in it, or is about to get one. -/
def DepositCall.account? : DepositCall → Option (UserId × Currency)
  | .allocating userId c => some (userId, c)
  | .sending userId a => some (userId, a.currency)
  | .answered userId _ (.ok a) => some (userId, a.currency)
  | _ => none

namespace State

variable {s s' : State} {o : Oracle} {up : StateUpdate} {res : Option UpdateResult} {u : UserId}

/-- An account stays where the update does not close it. -/
theorem account_stays_of_closes {c : Currency} (h : s.applyUpdate o up = (s', .ok res)) (hs : ¬up.body.IsSnapshot)
    (hcloses : up.body.closes? ≠ some (u, c)) (hacc : s.currency? u c ≠ none) : s'.currency? u c ≠ none := by
  rcases account_stays h hs hacc with hstays | ⟨token, hb, rfl⟩
  · exact hstays
  · exact absurd (by rw [hb]; rfl) hcloses

/-- (run) Every user has an account in bitcoins. -/
theorem Reached.btc_account {P : State → UpdateBody → Prop} (h : s.Reached P) {u : UserId} {ui : UserInfo}
    (hu : s.users.get? u = some ui) : s.currency? u .btc ≠ none := by
  refine h.invariant (I := fun s => ∀ u ui, s.users.get? u = some ui → s.currency? u .btc ≠ none) ?_ ?_ ?_ u ui hu
  · intro now genesisHash u ui hu
    cases hu
  · exact fun s created hs => hs
  · intro s o up s' res _ hs _ hsnap happly u ui hu
    cases hold : s.users.get? u with
    | some ui₀ =>
      refine account_stays_of_closes happly hsnap ?_ (hs u ui₀ hold)
      intro hcloses
      unfold UpdateBody.closes? at hcloses
      split at hcloses
      · split at hcloses <;> cases hcloses
      · cases hcloses
    | none =>
      by_cases hsign : ∃ info, up.body = .signup info ∧ info.username = u
      · obtain ⟨info, hb, rfl⟩ := hsign
        obtain ⟨-, -, rfl⟩ := applyUpdate_signup happly hb
        rw [currency?_of_get? (AssocMap.get?_insert_self _ _ _)]
        exact Option.some_ne_none _
      · rw [applyUpdate_absent happly hsnap (fun info hb hn => hsign ⟨info, hb, hn⟩) hold] at hu
        cases hu

/-- The addresses of an account stay where the update does not close it. -/
theorem infoOf_stays {c : Currency} {a : CurrencyAddress} (h : s.applyUpdate o up = (s', .ok res)) (hs : ¬up.body.IsSnapshot)
    (hcloses : up.body.closes? ≠ some (u, c)) (ha : a ∈ infoOf (s.currency? u c)) : a ∈ infoOf (s'.currency? u c) := by
  rcases (applyUpdate_account h hs u c).depositInfo with hsame | ⟨token, hb, rfl, -⟩ | ⟨address, -, -, happend⟩
  · rw [hsame]
    exact ha
  · exact absurd (by rw [hb]; rfl) hcloses
  · rw [happend]
    exact List.mem_append_left _ ha

/-- An address is given out to an account that is there, unless it is there already. -/
theorem depositAddress_held {a : CurrencyAddress} (hacc : s.currency? u a.currency ≠ none)
    (hb : up.body = .depositAddress { userId := u, address := a }) :
    a ∈ infoOf (s.currency? u a.currency) ∨ ∃ s', s.applyUpdate o up = (s', .ok none) := by
  obtain ⟨i, hi⟩ := Option.ne_none_iff_exists'.mp hacc
  obtain ⟨ui, hu, hc⟩ := Option.bind_eq_some_iff.mp hi
  by_cases hmem : a ∈ i.depositInfo
  · exact Or.inl (mem_infoOf.mpr ⟨i, hi, hmem⟩)
  · refine Or.inr ?_
    unfold applyUpdate withDepositAddress
    simp only [hb, hu, hc]
    rw [if_neg (by simpa using hmem)]
    exact ⟨_, rfl⟩

end State

namespace DepositDesk

variable {d d' : DepositDesk}

/-- No account is closed that a call counts on, and no row of an address fails to be inserted. -/
def KeepsAddresses (d : DepositDesk) : DepositAction → Prop
  | .apply _ inserted => ∀ up ∈ d.queue.head?,
      (up.body.givesAddress = true → inserted = true) ∧ ∀ x ∈ up.body.closes?, ∀ call ∈ d.calls, call.account? ≠ some x
  | _ => True

instance (d : DepositDesk) (act : DepositAction) : Decidable (d.KeepsAddresses act) :=
  match act with
  | .apply _ inserted => inferInstanceAs (Decidable (∀ up ∈ d.queue.head?,
      (up.body.givesAddress = true → inserted = true) ∧ ∀ x ∈ up.body.closes?, ∀ call ∈ d.calls, call.account? ≠ some x))
  | .request _ _ | .enter _ | .lookUp _ | .allocate _ _ | .send _ _ | .other _ => isTrue trivial

/-- The address is the user's. -/
def Held (d : DepositDesk) (u : UserId) (a : CurrencyAddress) : Prop := a ∈ infoOf (d.journal.state.currency? u a.currency)

/-- The address is the user's, or the update that makes it so is on the way. -/
def Assured (d : DepositDesk) (u : UserId) (a : CurrencyAddress) : Prop :=
  d.Held u a ∨ ∃ up ∈ d.queue, up.body = .depositAddress { userId := u, address := a }

/-- The invariant: every address that was answered is assured, in an account that is there. -/
structure Keeps (d : DepositDesk) : Prop where
  reached : d.journal.state.Reached State.anyUpdate
  queue : ∀ up ∈ d.queue, ¬up.body.IsSnapshot
  accounts : ∀ call ∈ d.calls, ∀ x ∈ call.account?, d.journal.state.currency? x.1 x.2 ≠ none
  answered : ∀ u c a, .answered u c (.ok a) ∈ d.calls → a.currency = c ∧ d.Assured u a

/-- (step) A call goes on: to where the account that it counts on is there, and an address that it answers is assured. -/
theorem Keeps.setCall (hk : d.Keeps) (n : Nat) {call : DepositCall}
    (haccount : ∀ x ∈ call.account?, d.journal.state.currency? x.1 x.2 ≠ none)
    (hanswer : ∀ u c a, call = .answered u c (.ok a) → a.currency = c ∧ d.Assured u a) : (d.setCall n call).Keeps where
  reached := hk.reached
  queue := hk.queue
  accounts := by
    intro call' hcall'
    rcases List.mem_or_eq_of_mem_set hcall' with hmem | rfl
    · exact hk.accounts call' hmem
    · exact haccount
  answered := by
    intro u c a hmem
    rcases List.mem_or_eq_of_mem_set hmem with hmem | hcall
    · exact hk.answered u c a hmem
    · exact hanswer u c a hcall.symm

/-- (step) An update that is no snapshot is sent. -/
theorem Keeps.enqueue (hk : d.Keeps) {up : StateUpdate} (hup : ¬up.body.IsSnapshot) :
    ({ d with queue := d.queue ++ [up] } : DepositDesk).Keeps where
  reached := hk.reached
  queue := by
    intro up' hup'
    rcases List.mem_append.mp hup' with hmem | hmem
    · exact hk.queue up' hmem
    · rw [List.mem_singleton.mp hmem]
      exact hup
  accounts := hk.accounts
  answered := by
    intro u c a hmem
    obtain ⟨hc, hheld | ⟨up', hup', hb⟩⟩ := hk.answered u c a hmem
    · exact ⟨hc, Or.inl hheld⟩
    · exact ⟨hc, Or.inr ⟨up', List.mem_append_left _ hup', hb⟩⟩

theorem Keeps.enter (hk : d.Keeps) (n : Nat) (u : UserId) (c : Currency) : (d.setCall n (.enter d.journal.state u c)).Keeps := by
  unfold DepositCall.enter
  cases hu : d.journal.state.users.get? u with
  | none => exact hk.setCall n (fun x hx => by cases hx) (fun u c a h => by cases h)
  | some ui =>
    by_cases hc : c = .btc
    · simp only [if_pos hc]
      refine hk.setCall n (fun x hx => ?_) (fun u c a h => by cases h)
      obtain rfl := Option.some.inj hx
      rw [hc]
      exact hk.reached.btc_account hu
    · simp only [if_neg hc]
      exact hk.setCall n (fun x hx => by cases hx) (fun u c a h => by cases h)

theorem Keeps.lookUp (hk : d.Keeps) (n : Nat) (u : UserId) (c : Currency) :
    (d.setCall n (.lookUp d.journal.state u c)).Keeps := by
  unfold DepositCall.lookUp
  cases hi : d.journal.state.currency? u c with
  | none => exact hk.setCall n (fun x hx => by cases hx) (fun u c a h => by cases h)
  | some info =>
    cases hd : info.depositInfo with
    | nil =>
      simp only [hd]
      refine hk.setCall n (fun x hx => ?_) (fun u c a h => by cases h)
      obtain rfl := Option.some.inj hx
      rw [hi]
      exact Option.some_ne_none info
    | cons address rest =>
      simp only [hd]
      have hmem : address ∈ info.depositInfo := hd ▸ List.mem_cons_self
      have hcur : address.currency = c := (hk.reached.tidy hi).addresses address hmem
      refine hk.setCall n (fun x hx => ?_) (fun u' c' a h => ?_)
      · obtain rfl := Option.some.inj hx
        rw [hcur, hi]
        exact Option.some_ne_none info
      · obtain ⟨rfl, rfl, ha⟩ := DepositCall.answered.inj h
        obtain rfl := Except.ok.inj ha
        refine ⟨hcur, Or.inl (mem_infoOf.mpr ⟨info, ?_, hmem⟩)⟩
        rw [hcur, hi]

/-- (step) An update is taken out of the channel and dropped: it gives no address that is not the user's. -/
theorem Keeps.drop (hk : d.Keeps) {up : StateUpdate} {rest : List StateUpdate} (hqueue : d.queue = up :: rest)
    (hdrop : ∀ u c a, .answered u c (.ok a) ∈ d.calls → up.body = .depositAddress { userId := u, address := a } → d.Held u a) :
    ({ d with queue := rest } : DepositDesk).Keeps := by
  refine ⟨hk.reached, fun up' hup' => hk.queue up' (hqueue ▸ List.mem_cons_of_mem up hup'), hk.accounts, fun u c a hmem => ?_⟩
  obtain ⟨hc, hheld | ⟨up', hup', hb⟩⟩ := hk.answered u c a hmem
  · exact ⟨hc, Or.inl hheld⟩
  · rw [hqueue] at hup'
    rcases List.mem_cons.mp hup' with rfl | hup'
    · exact ⟨hc, Or.inl (hdrop u c a hmem hb)⟩
    · exact ⟨hc, Or.inr ⟨up', hup', hb⟩⟩

/-- (step) -/
theorem Keeps.apply (hk : d.Keeps) {o : Oracle} {up : StateUpdate} {rest : List StateUpdate} (hqueue : d.queue = up :: rest)
    (hp : ∀ x ∈ up.body.closes?, ∀ call ∈ d.calls, call.account? ≠ some x) :
    ({ d with queue := rest, journal := (d.journal.store o up).getD d.journal } : DepositDesk).Keeps := by
  have hsnap : ¬up.body.IsSnapshot := hk.queue up (hqueue ▸ List.mem_cons_self)
  have hrest : ∀ up' ∈ rest, ¬up'.body.IsSnapshot := fun up' hup' => hk.queue up' (hqueue ▸ List.mem_cons_of_mem up hup')
  have hcloses : ∀ call ∈ d.calls, ∀ x ∈ call.account?, up.body.closes? ≠ some x :=
    fun call hcall x hx hup => hp x hup call hcall hx
  cases hj : d.journal.store o up with
  | none =>
    rw [Option.getD_none]
    refine hk.drop hqueue fun u c a hmem hb => ?_
    -- the update is refused only if the address is the user's already
    rcases State.depositAddress_held (o := o) (hk.accounts _ hmem (u, a.currency) rfl) hb with hheld | ⟨s', happly⟩
    · exact hheld
    · rw [Journal.store, happly] at hj
      cases hj
  | some j =>
    rw [Option.getD_some]
    obtain ⟨res, happly, -⟩ := Journal.store_eq_some hj
    obtain ⟨us, hmade⟩ := hk.reached
    refine ⟨⟨us ++ [up], .update hmade trivial hsnap (by rw [State.applyUpdateAt_number]; exact happly)⟩, hrest,
      fun call hcall x hx => ?_, fun u c a hmem => ?_⟩
    · exact State.account_stays_of_closes happly hsnap (hcloses call hcall x hx) (hk.accounts call hcall x hx)
    · have hstays : d.Held u a → a ∈ infoOf (j.state.currency? u a.currency) :=
        State.infoOf_stays happly hsnap (hcloses _ hmem (u, a.currency) rfl)
      obtain ⟨hc, hheld | ⟨up', hup', hb⟩⟩ := hk.answered u c a hmem
      · exact ⟨hc, Or.inl (hstays hheld)⟩
      · rw [hqueue] at hup'
        rcases List.mem_cons.mp hup' with rfl | hup'
        · exact ⟨hc, Or.inl (State.mem_infoOf_depositAddress happly hb)⟩
        · exact ⟨hc, Or.inr ⟨up', hup', hb⟩⟩

/-- (step) -/
theorem Keeps.step {act : DepositAction} (hk : d.Keeps) (hp : d.KeepsAddresses act) (hs : d.step act = some d') : d'.Keeps := by
  cases act with
  | request u c =>
    obtain rfl := Option.some.inj hs
    refine ⟨hk.reached, hk.queue, fun call hcall => ?_, fun u' c' a hmem => ?_⟩
    · rcases List.mem_append.mp hcall with hcall | hcall
      · exact hk.accounts call hcall
      · obtain rfl := List.mem_singleton.mp hcall
        exact fun x hx => by cases hx
    · rcases List.mem_append.mp hmem with hmem | hmem
      · exact hk.answered u' c' a hmem
      · cases List.mem_singleton.mp hmem
  | enter n =>
    simp only [DepositDesk.step] at hs
    split at hs
    · obtain rfl := Option.some.inj hs
      exact hk.enter n _ _
    · cases hs
  | lookUp n =>
    simp only [DepositDesk.step] at hs
    split at hs
    · obtain rfl := Option.some.inj hs
      exact hk.lookUp n _ _
    · cases hs
  | allocate n answer =>
    simp only [DepositDesk.step] at hs
    split at hs
    · rename_i u c hcall
      obtain rfl := Option.some.inj hs
      have hacc := hk.accounts _ (List.mem_of_getElem? hcall) (u, c) rfl
      cases answer with
      | error e => exact hk.setCall n (fun x hx => by cases hx) (fun u c a h => by cases h)
      | ok address =>
        refine hk.setCall n (fun x hx => ?_) (fun u c a h => by cases h)
        obtain rfl := Option.some.inj hx
        rw [Handlers.packedAddress_currency]
        exact hacc
    · cases hs
  | send n created =>
    simp only [DepositDesk.step] at hs
    split at hs
    · rename_i u a hcall
      obtain rfl := Option.some.inj hs
      have hacc := hk.accounts _ (List.mem_of_getElem? hcall) (u, a.currency) rfl
      have hsent : ({ d with
          queue := d.queue ++ [{ created := created, body := .depositAddress { userId := u, address := a } }] } : DepositDesk).Keeps :=
        hk.enqueue id
      refine hsent.setCall n (fun x hx => ?_) (fun u' c' a' h => ?_)
      · obtain rfl := Option.some.inj hx
        exact hacc
      · obtain ⟨rfl, rfl, ha⟩ := DepositCall.answered.inj h
        obtain rfl := Except.ok.inj ha
        exact ⟨rfl, Or.inr ⟨_, List.mem_append_right _ List.mem_cons_self, rfl⟩⟩
    · cases hs
  | other up =>
    simp only [DepositDesk.step] at hs
    split at hs
    · cases hs
    · rename_i hup
      obtain rfl := Option.some.inj hs
      refine hk.enqueue fun hsnap => ?_
      cases hb : up.body with
      | snapshot s => exact hup s hb
      | _ => rw [hb] at hsnap; exact hsnap
  | apply o inserted =>
    simp only [DepositDesk.step] at hs
    split at hs
    · rename_i up rest hqueue hheld
      obtain rfl := Option.some.inj hs
      obtain ⟨hinserted, hcloses⟩ := hp up (by rw [hqueue]; rfl)
      cases inserted with
      | true => exact hk.apply hqueue hcloses
      | false =>
        refine hk.drop hqueue fun u c a _ hb => ?_
        rw [hb] at hinserted
        cases hinserted rfl
    · cases hs

/-- (step) The State is as before, or an update is applied. -/
theorem journal_step {act : DepositAction} (hs : d.step act = some d') :
    d'.journal = d.journal ∨
      ∃ o inserted up rest, act = .apply o inserted ∧ d.queue = up :: rest ∧ d.journal.store o up = some d'.journal := by
  cases act with
  | apply o inserted =>
    simp only [DepositDesk.step] at hs
    split at hs
    · rename_i up rest hqueue hheld
      obtain rfl := Option.some.inj hs
      cases inserted with
      | false => exact Or.inl rfl
      | true =>
        cases hj : d.journal.store o up with
        | none => exact Or.inl rfl
        | some j => exact Or.inr ⟨o, true, up, rest, rfl, hqueue, hj⟩
    · cases hs
  | request u c =>
    obtain rfl := Option.some.inj hs
    exact Or.inl rfl
  | _ =>
    simp only [DepositDesk.step] at hs
    split at hs
    all_goals first
    | cases hs; done
    | obtain rfl := Option.some.inj hs
      exact Or.inl rfl

/-- (step) What is the user's stays so. -/
theorem Held.step {act : DepositAction} {u : UserId} {c : Currency} {a : CurrencyAddress} (hheld : d.Held u a) (hk : d.Keeps)
    (hgiven : .answered u c (.ok a) ∈ d.calls) (hp : d.KeepsAddresses act) (hs : d.step act = some d') : d'.Held u a := by
  rcases journal_step hs with hsame | ⟨o, inserted, up, rest, rfl, hqueue, hj⟩
  · rw [Held, hsame]
    exact hheld
  · obtain ⟨res, happly, -⟩ := Journal.store_eq_some hj
    refine State.infoOf_stays happly (hk.queue up (hqueue ▸ List.mem_cons_self)) (fun hcloses => ?_) hheld
    exact (hp up (by rw [hqueue]; rfl)).2 (u, a.currency) hcloses _ hgiven rfl

/-- (run) An address that was answered to a user is in the currency that was asked for; it is the user's, or the update that makes it
so is on the way; and once it is the user's it stays so. -/
theorem handed_out_addresses_held (h : machine.Reachable KeepsAddresses d) {u : UserId} {c : Currency} {a : CurrencyAddress}
    (hgiven : .answered u c (.ok a) ∈ d.calls) :
    a.currency = c ∧ d.Assured u a ∧ (d.queue = [] → d.journal.state.HoldsAddress u a) ∧
      ∀ act d', machine.step d act = some d' → d.KeepsAddresses act → d.Held u a → d'.Held u a := by
  have hk : d.Keeps := by
    refine h.invariant ?_ (fun d act d' _ hk hp hs => hk.step hp hs)
    rintro _ ⟨now, genesisHash, rfl⟩
    exact ⟨⟨[], .new now genesisHash⟩, fun up hup => (by cases hup), fun call hcall => (by cases hcall),
      fun u c a hmem => (by cases hmem)⟩
  obtain ⟨hc, hassured⟩ := hk.answered u c a hgiven
  refine ⟨hc, hassured, fun hqueue => ?_, fun act d' hs hp hheld => hheld.step hk hgiven hp hs⟩
  rcases hassured with hheld | ⟨up, hup, -⟩
  · exact ⟨_, hheld⟩
  · rw [hqueue] at hup
    cases hup

end DepositDesk

namespace Sample

/-- Alice signs up, and asks for an address in bitcoins and one in ether; both modules answer, and both updates are applied. -/
def bothAddresses : List DepositAction :=
  signup.map (fun a => .other a.2) ++ [.apply oracle true, .apply oracle true, .request alice .btc, .request alice .eth, .enter 0, .enter 1,
    .lookUp 1, .allocate 0 (.ok "addr"), .allocate 1 (.ok "0x1"), .send 1 ⟨3⟩, .send 0 ⟨4⟩, .apply oracle true, .apply oracle true]

end Sample

namespace DepositDesk

open Sample in
/-- Both addresses are alice's. -/
theorem handed_out_addresses_held_both : ∃ d : DepositDesk, d.queue = [] ∧
    d.journal.state.HoldsAddress alice (.btc { addr := "addr" }) ∧ d.journal.state.HoldsAddress alice (.eth { account := "0x1" }) := by
  obtain ⟨d, hd, hq⟩ := Machine.exists_reachable (M := machine) (P := KeepsAddresses) bothAddresses
    (q := fun d : DepositDesk => decide (d.queue.length = 0 ∧
      d.calls = [.answered alice .btc (.ok (.btc { addr := "addr" })), .answered alice .eth (.ok (.eth { account := "0x1" }))]))
    ⟨⟨0⟩, "genesis", rfl⟩ (by decide +kernel)
  obtain ⟨hlen, hcalls⟩ := of_decide_eq_true hq
  have hqueue : d.queue = [] := List.length_eq_zero_iff.mp hlen
  refine ⟨d, hqueue, (handed_out_addresses_held hd (u := alice) (c := .btc) ?_).2.2.1 hqueue,
    (handed_out_addresses_held hd (u := alice) (c := .eth) ?_).2.2.1 hqueue⟩
  · rw [hcalls]
    exact List.mem_cons_self
  · rw [hcalls]
    exact List.mem_cons_of_mem _ List.mem_cons_self

end DepositDesk

end Hexstody
