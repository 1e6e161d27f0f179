import Hexstody.Handlers
import Hexstody.Lemmas.Addresses

/-!
# Who owns a deposit address

Whether a deposit address belongs to one user only, and a bitcoin address not both to a user and to the exchange. A method that
registers an address looks at the addresses of the user who gets it and at nobody else's, and the address of the exchange is set
without a look at the users. `deposit_addresses_owned_once` says that an address has one owner in every run where no address is
given to a second user, or to a user and to the exchange (`State.GivesUnowned`), and that any other step makes an address have two;
and what follows: the search for the owner of an address finds the same user in every order, and a deposit is recorded with one
account and with no other.
-/

namespace Hexstody

namespace State

/-- No address is held by two users, or by a user and the exchange. -/
structure OwnedOnce (s : State) : Prop where
  one : ∀ a u u', s.HoldsAddress u a → s.HoldsAddress u' a → u = u'
  notExchange : ∀ b u, s.HoldsAddress u (.btc b) → s.isExchangeAddress (.btc b) = false

/-- An address that is given to a user is no other user's and not the exchange's; and one that is given to the exchange is no
user's. -/
def GivesUnowned (s : State) : UpdateBody → Prop
  | .depositAddress dep => (∀ u, s.HoldsAddress u dep.address → u = dep.userId) ∧
      ∀ b, dep.address = .btc b → s.isExchangeAddress (.btc b) = false
  | .exchangeAddress req => ∀ b, req = .btc b → ∀ u, ¬s.HoldsAddress u (.btc b)
  | _ => True

/-- A deposit to the address is recorded with a user, or with the exchange. -/
def Receives (s : State) (a : Address) : Option UserId → Prop
  | some u => s.Owns u a
  | none => s.isExchangeAddress (btcAddress a) = true

variable {s s' : State} {o : Oracle} {up : StateUpdate} {res : Option UpdateResult}

/-! ## One step -/

/-- (step) -/
theorem OwnedOnce.applyUpdate (hone : s.OwnedOnce) (hg : s.GivesUnowned up.body) (hs : ¬up.body.IsSnapshot)
    (h : s.applyUpdate o up = (s', .ok res)) : s'.OwnedOnce := by
  constructor
  · intro a u u' hu hu'
    rcases holds_of_applyUpdate h hs hu with hu | hb
    · rcases holds_of_applyUpdate h hs hu' with hu' | hb'
      · exact hone.one a u u' hu hu'
      · rw [hb'] at hg
        exact hg.1 u hu
    · rw [hb] at hg
      rcases holds_of_applyUpdate h hs hu' with hu' | hb'
      · exact (hg.1 u' hu').symm
      · rw [hb] at hb'
        exact congrArg DepositAddress.userId (UpdateBody.depositAddress.inj hb')
  · intro b u hu
    rcases holds_of_applyUpdate h hs hu with hu | hb
    · by_cases hset : ∃ req, up.body = .exchangeAddress req
      · obtain ⟨req, hb⟩ := hset
        rw [hb] at hg
        rw [isExchangeAddress_set h hb]
        split
        · exact decide_eq_false (fun heq => hg b heq u hu)
        · exact hone.notExchange b u hu
      · rw [isExchangeAddress_applyUpdate h hs (fun req hb => hset ⟨req, hb⟩)]
        exact hone.notExchange b u hu
    · rw [isExchangeAddress_applyUpdate h hs (fun req hb' => by rw [hb] at hb'; cases hb')]
      rw [hb] at hg
      exact hg.2 b rfl

/-- A step after which no address is held twice gave none that was held. -/
theorem givesUnowned_of_ownedOnce (hone : s'.OwnedOnce) (hs : ¬up.body.IsSnapshot)
    (h : s.applyUpdate o up = (s', .ok res)) : s.GivesUnowned up.body := by
  cases hb : up.body with
  | depositAddress dep =>
    have hheld : s'.HoldsAddress dep.userId dep.address := ⟨_, mem_infoOf_depositAddress h hb⟩
    refine ⟨fun u hu => ?_, fun b hbtc => ?_⟩
    · exact hone.one _ _ _ (hu.applyUpdate h hs (fun req hb' => by rw [hb] at hb'; cases hb')) hheld
    · rw [← isExchangeAddress_applyUpdate h hs (fun req hb' => by rw [hb] at hb'; cases hb')]
      exact hone.notExchange b dep.userId (hbtc ▸ hheld)
  | exchangeAddress req =>
    rintro b rfl u hu
    have hfalse := hone.notExchange b u (hu.applyUpdate h hs (fun req hb' => by rw [hb] at hb'; cases hb'))
    rw [isExchangeAddress_set h hb] at hfalse
    simp [CurrencyAddress.currency] at hfalse
  | _ => trivial

/-- (run) -/
theorem Reached.ownedOnce (h : s.Reached GivesUnowned) : s.OwnedOnce := by
  refine h.invariant (I := OwnedOnce) ?_ ?_ ?_
  · intro now genesisHash
    exact ⟨fun a u u' hu => (by obtain ⟨c, hm⟩ := hu; cases hm), fun b u hu => (by obtain ⟨c, hm⟩ := hu; cases hm)⟩
  · exact fun s created hone => ⟨hone.one, hone.notExchange⟩
  · exact fun _ hone hg hs happly => hone.applyUpdate hg hs happly

/-! ## What follows -/

theorem OwnedOnce.addressesApart (hone : s.OwnedOnce) (h : s.Reached anyUpdate) : s.AddressesApart :=
  ⟨fun _ u u' hu hu' => hone.one _ u u' (h.holds_btc_iff.mpr hu) (h.holds_btc_iff.mpr hu'),
    fun _ u hu => hone.notExchange _ u (h.holds_btc_iff.mpr hu)⟩

/-- The search finds the same user in every order. -/
theorem OwnedOnce.findUserAddress_eq (hone : s.OwnedOnce) (a : CurrencyAddress) (o o' : Oracle) :
    s.findUserAddress o a = s.findUserAddress o' a := by
  refine AssocMap.findVal?_eq_of_unique _ _ ?_
  have hholds : ∀ (k : UserId) (ui : UserInfo) (x : UserId), s.users.get? k = some ui →
      (if ui.hasAddress a then some k else none) = some x → s.HoldsAddress x a := by
    intro k ui x hk hx
    split at hx
    · rename_i hhas
      obtain rfl := Option.some.inj hx
      unfold UserInfo.hasAddress at hhas
      split at hhas
      · rename_i i hi
        refine ⟨a.currency, mem_infoOf.mpr ⟨i, by rw [currency?_of_get? hk, hi], ?_⟩⟩
        simpa [UserCurrencyInfo.hasAddress] using hhas
      · cases hhas
    · cases hx
  intro k v k' v' x x' hk hx hk' hx'
  exact hone.one a x x' (hholds k v x hk hx) (hholds k' v' x' hk' hx')

/-- A deposit to the address is recorded with one account at most. -/
theorem OwnedOnce.receives_one (hone : s.OwnedOnce) (h : s.Reached anyUpdate) {a : Address} {r r' : Option UserId}
    (hr : s.Receives a r) (hr' : s.Receives a r') : r = r' := by
  have hapart := hone.addressesApart h
  have hno : ∀ u, s.Owns u a → s.isExchangeAddress (btcAddress a) = true → False := by
    intro u hu hx
    rw [hapart.notExchange a u hu] at hx
    cases hx
  cases r with
  | none =>
    cases r' with
    | none => rfl
    | some u' => exact (hno u' hr' hr).elim
  | some u =>
    cases r' with
    | none => exact (hno u hr hr').elim
    | some u' => rw [hapart.one a u u' hr hr']

/-- In every State that is reached without giving out an address that is somebody's: no address is held twice; the owner of an
address is found in every order; a deposit is accepted and is recorded with the one account that receives it, if there is one, and
with no other; and a further step keeps this just when it does not give out such an address either. -/
theorem deposit_addresses_owned_once (s : State) (h : s.Reached GivesUnowned) :
    s.OwnedOnce ∧ (∀ a o o', s.findUserAddress o a = s.findUserAddress o' a) ∧
      (∀ (o : Oracle) (created : NaiveDateTime) (tx : BtcTransaction), tx.amount ≥ 0 →
        (∀ r r', s.Receives tx.address r → s.Receives tx.address r' → r = r') ∧
          ∃ s', s.applyUpdate o { created := created, body := .updateBtcTx tx } = (s', .ok none) ∧ s.Deposited s' tx) ∧
      ∀ (o : Oracle) (up : StateUpdate) (s' : State) (res : Option UpdateResult), ¬up.body.IsSnapshot →
        s.applyUpdate o up = (s', .ok res) → (s'.OwnedOnce ↔ s.GivesUnowned up.body) := by
  have hone := h.ownedOnce
  refine ⟨hone, hone.findUserAddress_eq, ?_, ?_⟩
  · intro o created tx hpos
    exact ⟨fun r r' hr hr' => hone.receives_one h.any hr hr', applyUpdate_updateBtcTx (hone.addressesApart h.any) o created hpos⟩
  · intro o up s' res hs happly
    exact ⟨fun hone' => givesUnowned_of_ownedOnce hone' hs happly, fun hg => hone.applyUpdate hg hs happly⟩

end State

namespace Sample

def bob : UserId := "bob"

/-- Alice and bob sign up, and alice gets an address. -/
def twoUsers : List (Oracle × StateUpdate) :=
  signup ++ [upd 3 (.genInvite { invite := ⟨uuid 2⟩, invitor := "op", label := "" }),
    upd 4 (.signup { username := bob, invite := ⟨uuid 2⟩, auth := .lightning }),
    upd 5 (.depositAddress { userId := alice, address := .btc { addr := "addr" } })]

/-- The address is in nobody's accounts. -/
def unheld (s : State) (a : CurrencyAddress) : Bool :=
  s.users.values.all (fun ui => ui.currencies.values.all (fun i => !i.depositInfo.contains a))

theorem not_holds_of_unheld {s : State} {a : CurrencyAddress} (h : unheld s a = true) (u : UserId) : ¬s.HoldsAddress u a := by
  rintro ⟨c, hm⟩
  obtain ⟨i, hi, ha⟩ := mem_infoOf.mp hm
  obtain ⟨ui, hu, hc⟩ := Option.bind_eq_some_iff.mp hi
  have hall := List.all_eq_true.mp (List.all_eq_true.mp h ui ((AssocMap.mem_values_iff _ _).mpr ⟨u, hu⟩)) i
    ((AssocMap.mem_values_iff _ _).mpr ⟨c, hc⟩)
  simp [ha] at hall

/-- No snapshot is taken over, and an address that is given out is nobody's. -/
def givesUnheld (j : Journal) (a : Oracle × StateUpdate) : Bool :=
  match a.2.body with
  | .depositAddress dep => unheld j.state dep.address && !j.state.isExchangeAddress dep.address
  | .exchangeAddress req => unheld j.state req
  | .snapshot _ => false
  | _ => true

theorem givesUnheld_step {j : Journal} {a : Oracle × StateUpdate} (h : givesUnheld j a = true) :
    j.state.GivesUnowned a.2.body ∧ ¬a.2.body.IsSnapshot := by
  unfold givesUnheld at h
  cases hb : a.2.body with
  | depositAddress dep =>
    rw [hb] at h
    obtain ⟨hunheld, hx⟩ := Bool.and_eq_true_iff.mp h
    refine ⟨⟨fun u hu => absurd hu (not_holds_of_unheld hunheld u), fun b hbtc => ?_⟩, id⟩
    rw [← hbtc]
    exact Bool.not_eq_true' _ ▸ hx
  | exchangeAddress req =>
    rw [hb] at h
    exact ⟨fun b hbtc u hu => not_holds_of_unheld h u (hbtc ▸ hu), id⟩
  | snapshot s₀ =>
    rw [hb] at h
    cases h
  | _ => exact ⟨trivial, id⟩

end Sample

namespace State

open Sample in
/-- Alice has an address and the exchange another; a deposit to alice's is recorded with her. -/
theorem deposit_addresses_owned : ∃ s s' : State, s.Owns alice ⟨"addr"⟩ ∧ s.isExchangeAddress (.btc { addr := "exchange" }) = true ∧
    s.OwnedOnce ∧ s.applyUpdate oracle { created := ⟨7⟩, body := .updateBtcTx (deposit 1000) } = (s', .ok none) ∧
      s'.deposits alice = recorded (deposit 1000) (s.deposits alice) := by
  obtain ⟨j, hj, hq⟩ := Machine.exists_reachable (P := fun (j : Journal) a => givesUnheld j a = true)
    (twoUsers ++ [upd 6 (.exchangeAddress (.btc { addr := "exchange" }))])
    (q := fun j => decide (.btc { addr := "addr" } ∈ infoOf (j.state.currency? alice .btc)) &&
      j.state.isExchangeAddress (.btc { addr := "exchange" })) start_init (by decide)
  obtain ⟨hown, hx⟩ := Bool.and_eq_true_iff.mp hq
  have hown : j.state.Owns alice ⟨"addr"⟩ := owns_iff.mpr (of_decide_eq_true hown)
  obtain ⟨hone, -, hdeposit, -⟩ := deposit_addresses_owned_once j.state ⟨_, Journal.madeBy_updates (fun _ _ => givesUnheld_step) hj⟩
  obtain ⟨-, s', happly, hdep⟩ := hdeposit oracle ⟨7⟩ (deposit 1000) (by decide)
  exact ⟨j.state, s', hown, hx, hone, happly, hdep.owner alice hown⟩

open Sample in
/-- Bob gets the address that alice has; whose a deposit is depends on the order of the search, and the address can be the
exchange's as well. -/
theorem deposit_address_shared :
    (∃ s : State, s.Reached anyUpdate ∧ s.HoldsAddress alice (.btc { addr := "addr" }) ∧ s.HoldsAddress bob (.btc { addr := "addr" }) ∧
      s.isExchangeAddress (.btc { addr := "addr" }) = true ∧
        ∃ o o', s.findUserAddress o (.btc { addr := "addr" }) = some alice ∧
          s.findUserAddress o' (.btc { addr := "addr" }) = some bob) ∧
      ¬∀ s : State, s.Reached anyUpdate → s.OwnedOnce := by
  obtain ⟨j, hj, hq⟩ := Machine.exists_reachable (P := fun (_ : Journal) (a : Oracle × StateUpdate) => ¬a.2.body.IsSnapshot)
    (twoUsers ++ [upd 6 (.depositAddress { userId := bob, address := .btc { addr := "addr" } }),
      upd 7 (.exchangeAddress (.btc { addr := "addr" }))])
    (q := fun j => decide (.btc { addr := "addr" } ∈ infoOf (j.state.currency? alice .btc) ∧
      .btc { addr := "addr" } ∈ infoOf (j.state.currency? bob .btc) ∧
      j.state.isExchangeAddress (.btc { addr := "addr" }) = true ∧
      j.state.findUserAddress { oracle with users := .first alice } (.btc { addr := "addr" }) = some alice ∧
      j.state.findUserAddress { oracle with users := .first bob } (.btc { addr := "addr" }) = some bob))
    start_init (by decide)
  obtain ⟨ha, hb, hx, hfa, hfb⟩ := of_decide_eq_true hq
  have hr : j.state.Reached anyUpdate := ⟨_, Journal.madeBy_updates (fun _ _ h => ⟨trivial, h⟩) hj⟩
  refine ⟨⟨j.state, hr, ⟨_, ha⟩, ⟨_, hb⟩, hx, _, _, hfa, hfb⟩, fun h => ?_⟩
  exact absurd ((h j.state hr).one _ _ _ ⟨_, ha⟩ ⟨_, hb⟩) (by decide)

end State

end Hexstody
