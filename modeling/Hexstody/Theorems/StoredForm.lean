import Hexstody.Lemmas.Ledger
import Hexstody.Stored
import Mathlib.Data.Nat.Digits.Defs
import Mathlib.Logic.Equiv.Nat

/-!
# What is stored of an update

Whether an update that is written as a row is read back as it was. What is written under a tag is read back under it
(`UpdateBody.deserialize_json`), so all depends on what can be written. That is every update but a snapshot, and the snapshot of
a State that has no invite and no token in any map of currencies (`UpdateBody.stored_form_lossless`): an invite and a token are
not encoded as strings, so they are no keys of a JSON object. No State that is reached is such a State, for the exchange account
has a balance in each supported currency from the start (`Journal.snapshot_not_written`).
-/

namespace Hexstody

open Codec

/-- No key of the map is a token. -/
def NoTokens {α : Type} (m : AssocMap Currency α) : Prop := ∀ c ∈ m.keys, c.isToken = false

instance {α : Type} (m : AssocMap Currency α) : Decidable (NoTokens m) := inferInstanceAs (Decidable (∀ c ∈ m.keys, _))

/-- No key of the user's maps is a token. -/
structure UserInfo.Storable (u : UserInfo) : Prop where
  currencies : NoTokens u.currencies
  limitChangeRequests : NoTokens u.limitChangeRequests

/-- There is no invite, and no key of a map of currencies is a token. -/
structure State.Storable (s : State) : Prop where
  invites : s.invites.keys = []
  users : ∀ id user, s.users.get? id = some user → user.Storable
  addresses : NoTokens s.exchangeState.addresses
  balances : NoTokens s.exchangeState.balances

/-- The update is no snapshot, or it is one of a State that can be written. -/
def UpdateBody.Storable : UpdateBody → Prop
  | .snapshot s => s.Storable
  | _ => True

theorem encodes_byCurrency_iff {α : Type} [Codec α] [Total α] {m : AssocMap Currency α} : Encodes m ↔ NoTokens m := by
  rw [encodes_map_iff]
  constructor
  · intro h c hc
    obtain ⟨a, ha⟩ := AssocMap.mem_keys_iff.mp hc
    exact (Currency.isKey_iff c).mp (h c a ha).1
  · intro h c a ha
    exact ⟨(Currency.isKey_iff c).mpr (h c (AssocMap.mem_keys_of_get? ha)), encodes a⟩

/-! ## The States that are reached -/

/-- (step) A currency that the exchange account has a balance in keeps it. -/
theorem Journal.mem_balances_store {j j' : Journal} {o : Oracle} {up : StateUpdate} {c : Currency}
    (hc : c ∈ j.state.exchangeState.balances.keys) (hsnap : ¬up.body.IsSnapshot) (hst : j.store o up = some j') :
    c ∈ j'.state.exchangeState.balances.keys := by
  have hch := applyUpdate_exchangeState (store_answer hst) hsnap
  generalize j'.state.exchangeState = e' at hch
  cases hch with
  | same => exact hc
  | deposited tx =>
    unfold ExchangeState.processIncomingBtcTx
    split
    · split
      · exact hc
      · exact AssocMap.mem_keys_modifyOrInsert hc _ _ _
    · exact hc
  | canceled tx =>
    unfold ExchangeState.cancelBtcTx
    split
    · exact AssocMap.mem_keys_modifyOrInsert hc _ _ _
    · exact hc
  | settled req order => exact AssocMap.mem_keys_modifyOrInsert (AssocMap.mem_keys_modifyOrInsert hc _ _ _) _ _ _
  | addressed req => exact hc

/-- (run) The exchange account has a balance in every supported currency. -/
theorem Journal.mem_balances {P : Journal → Oracle × StateUpdate → Prop} {j : Journal} (h : machine.Reachable P j)
    (hP : ∀ j a, P j a → ¬a.2.body.IsSnapshot) {c : Currency} (hc : c ∈ Currency.supported) :
    c ∈ j.state.exchangeState.balances.keys := by
  refine h.invariant (I := fun j => c ∈ j.state.exchangeState.balances.keys) ?_ ?_
  · rintro j ⟨now, genesisHash, rfl⟩
    have hnew : ∀ c ∈ Currency.supported, c ∈ ExchangeState.new.balances.keys := by decide
    exact hnew c hc
  · intro j a j' _ hj hp hst
    exact mem_balances_store hj (hP j a hp) hst

/-! ## Texts, for the updates that are written out -/

namespace Sample

theorem digitChar_toNat : ∀ d < 10, (Nat.digitChar d).toNat - 48 = d := by decide

/-- A number in decimal after some other text; zero is no digit at all. -/
def decimal {α : Type} (lead : String) (toNat : α → Nat) (ofNat : Nat → α) (h : ∀ a, ofNat (toNat a) = a) : Text α where
  toText a := lead ++ String.ofList ((Nat.digits 10 (toNat a)).map Nat.digitChar)
  ofText s := .ok (ofNat (Nat.ofDigits 10 ((s.toList.drop lead.length).map (fun c => c.toNat - 48))))
  lossless a := by
    have hd : ((Nat.digits 10 (toNat a)).map Nat.digitChar).map (fun c => c.toNat - 48) = Nat.digits 10 (toNat a) := by
      rw [List.map_map]
      refine (List.map_congr_left fun d hd => ?_).trans (List.map_id _)
      exact digitChar_toNat d (Nat.digits_lt_base (by decide) hd)
    rw [String.toList_append, String.toList_ofList, ← String.length_toList, List.drop_left, hd, Nat.ofDigits_digits, h]

/-- Bytes, each as a character. -/
def latin {α : Type} (bytes : α → List UInt8) (ofBytes : List UInt8 → α) (h : ∀ a, ofBytes (bytes a) = a) : Text α where
  toText a := String.ofList ((bytes a).map UInt8.toChar)
  ofText s := .ok (ofBytes (s.toList.map Char.toUInt8))
  lossless a := by
    have hb : ((bytes a).map UInt8.toChar).map Char.toUInt8 = bytes a := by
      rw [List.map_map]
      refine (List.map_congr_left fun b _ => ?_).trans (List.map_id _)
      simp [Char.toUInt8, UInt8.toChar]
    rw [String.toList_ofList, hb, h]

/-- Times counted from the epoch; identifiers as numbers, keys and signatures byte by byte. -/
@[reducible] def texts : Texts where
  uuid := decimal "" (·.bits.toNat) (fun n => ⟨.ofNat 128 n⟩) fun i => by simp
  time := decimal "1970-01-01T00:00:00" (fun t => Equiv.intEquivNat t.nanos) (fun n => ⟨Equiv.intEquivNat.symm n⟩) fun t => by simp
  publicKey := latin (·.bytes) (⟨·⟩) fun _ => rfl
  signature := latin (·.bytes) (⟨·⟩) fun _ => rfl
  txid := ⟨(·.hex), fun s => .ok ⟨s⟩, fun _ => rfl⟩
  address := ⟨(·.display), fun s => .ok ⟨s⟩, fun _ => rfl⟩

end Sample

/-! ## Reading a row -/

theorem UpdateTag.fromStr_toText (t : UpdateTag) : fromStr t.toText = .ok t := by
  cases t <;> rfl

section Texts

variable [Texts]

/-- The body is written, and the row with it is read back as the body. -/
def UpdateBody.Lossless (b : UpdateBody) : Prop :=
  ∃ v, b.json = .ok v ∧ UpdateTag.fromTag b.tag.toText CURRENT_BODY_VERSION v = .ok b

/-- What is written under a tag is read back under it. -/
theorem UpdateBody.deserialize_json {b : UpdateBody} {v : Json} (h : b.json = .ok v) : b.tag.deserialize v = .ok b := by
  cases b <;> exact map_decode h

/-- All that an update needs to be read back is to be written. -/
theorem UpdateBody.lossless_iff_json (b : UpdateBody) : b.Lossless ↔ ∃ v, b.json = .ok v := by
  constructor
  · rintro ⟨v, hv, -⟩
    exact ⟨v, hv⟩
  · rintro ⟨v, hv⟩
    refine ⟨v, hv, ?_⟩
    simp only [UpdateTag.fromTag, UpdateTag.fromStr_toText, UpdateBody.deserialize_json hv]
    rfl

/-! ## Writing a State -/

theorem encodes_invites_iff {m : AssocMap Invite InviteRec} : Encodes m ↔ m.keys = [] := by
  rw [encodes_map_iff, List.eq_nil_iff_forall_not_mem]
  constructor
  · intro h i hi
    obtain ⟨r, hr⟩ := AssocMap.mem_keys_iff.mp hi
    exact Invite.record.not_isKey i (h i r hr).1
  · intro h i r hr
    exact absurd (AssocMap.mem_keys_of_get? hr) (h i)

theorem UserInfo.encodes_iff (u : UserInfo) : Encodes u ↔ u.Storable := by
  rw [UserInfo.record.encodes_iff]
  simp only [Fields.field_encodes_iff, Fields.build_encodes, encodes_byCurrency_iff, encodes, true_and, and_true]
  constructor
  · rintro ⟨hcurrencies, hchanges⟩
    exact ⟨hcurrencies, hchanges⟩
  · intro h
    exact ⟨h.currencies, h.limitChangeRequests⟩

theorem encodes_users_iff {m : AssocMap UserId UserInfo} : Encodes m ↔ ∀ id user, m.get? id = some user → user.Storable := by
  simp only [encodes_map_iff, UserInfo.encodes_iff, Keyed.isKey, true_and]

theorem ExchangeState.encodes_iff (e : ExchangeState) : Encodes e ↔ NoTokens e.addresses ∧ NoTokens e.balances := by
  rw [ExchangeState.record.encodes_iff]
  simp only [Fields.field_encodes_iff, Fields.build_encodes, encodes_byCurrency_iff, encodes, true_and, and_true]

theorem State.encodes_iff (s : State) : Encodes s ↔ s.Storable := by
  rw [State.record.encodes_iff]
  simp only [Fields.field_encodes_iff, Fields.build_encodes, encodes_users_iff, encodes_invites_iff,
    ExchangeState.encodes_iff, encodes, true_and, and_true]
  constructor
  · rintro ⟨⟨husers, hinvites⟩, haddresses, hbalances⟩
    exact ⟨hinvites, husers, haddresses, hbalances⟩
  · intro h
    exact ⟨⟨h.users, h.invites⟩, h.addresses, h.balances⟩

/-- An update is written when it is no snapshot, or one of a State that can be written. -/
theorem UpdateBody.json_iff (b : UpdateBody) : (∃ v, b.json = .ok v) ↔ b.Storable := by
  cases b with
  | snapshot s => exact s.encodes_iff
  | _ => exact iff_of_true (encodes _) trivial

/-! ## Which updates are read back -/

/-- No State that is reached can be written as a snapshot. -/
theorem Journal.snapshot_not_written {P : Journal → Oracle × StateUpdate → Prop} {j : Journal} (h : machine.Reachable P j)
    (hP : ∀ j a, P j a → ¬a.2.body.IsSnapshot) : ¬∃ v, (UpdateBody.snapshot j.state).json = .ok v := by
  rw [UpdateBody.json_iff]
  intro hs
  have hc : Currency.usdtErc20 ∈ Currency.supported := by decide
  exact absurd (hs.balances _ (mem_balances h hP hc)) (by decide)

/-- An update is stored without loss just when it is no snapshot, or the snapshot of a State with no invite and no token as a key
of a map. -/
theorem UpdateBody.stored_form_lossless (b : UpdateBody) : b.Lossless ↔ b.Storable := by
  rw [UpdateBody.lossless_iff_json, UpdateBody.json_iff]

end Texts

theorem UpdateBody.stored_form_lossless_limits :
    @UpdateBody.Lossless Sample.texts
      (.limitsChangeRequest { user := Sample.alice, currency := .usdtErc20, limit := { amount := 1000, span := .week } }) :=
  (@UpdateBody.stored_form_lossless Sample.texts _).mpr trivial

/-- The snapshot of a new State is not written: its exchange account has a balance in a token. -/
theorem UpdateBody.snapshot_lost : ¬∀ (_ : Texts) (b : UpdateBody), b.Lossless := by
  intro h
  have hl := h Sample.texts (.snapshot (State.new ⟨0⟩ "genesis"))
  have hs : (State.new ⟨0⟩ "genesis").Storable :=
    (@UpdateBody.json_iff Sample.texts _).mp ((@UpdateBody.lossless_iff_json Sample.texts _).mp hl)
  exact absurd (hs.balances .usdtErc20 (by decide)) (by decide)

end Hexstody
