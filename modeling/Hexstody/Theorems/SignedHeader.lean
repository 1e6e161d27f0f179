import Hexstody.Library.Base64
import Hexstody.Library.Delimited
import Hexstody.Library.Lists
import Hexstody.Lemmas.Invites
import Hexstody.SignedHeader
import Hexstody.Theorems.Resending
import Hexstody.Theorems.SignedTexts

/-!
# What comes of signed requests

A `Signature-Data` header is read if it is three texts with colons between them, each of which is read; what is written is read back
(`header_read_iff`). So what `hexstody-client` sends to ask for an invite is answered with one if its key is an operator's, and only
then (`client_invited_iff`). And in every run of the operators' API, the invites that a key is told are those that were generated for it
and that no sign-up has used since, each of them asked for by a request that was accepted (`invites_listed`).
-/

namespace Hexstody

/-! ## The header -/

/-- The parts of three texts with colons between them. -/
theorem splitOn_joined_triple {a b c : String} (ha : ':' ∉ a.toList) (hb : ':' ∉ b.toList) (hc : ':' ∉ c.toList) :
    (joined [a, b, c]).toList.splitOn ':' = [a.toList, b.toList, c.toList] := by
  refine Delimited.splitOn_eq_iff.mpr ⟨List.cons_ne_nil _ _, ?_, ?_⟩
  · simp only [List.mem_cons, List.not_mem_nil, or_false]
    rintro p (rfl | rfl | rfl)
    · exact ha
    · exact hb
    · exact hc
  · rw [Route.joined_triple]
    simp [List.intercalate]

namespace SignatureData

variable {E : Encodings} {text : String} {sd : SignatureData}

/-- The parts of a text that is three texts with colons between them. -/
theorem splitOn_eq_triple {p q r : List Char} (h : text.toList.splitOn ':' = [p, q, r]) :
    text = joined [String.ofList p, String.ofList q, String.ofList r] ∧ ':' ∉ p ∧ ':' ∉ q ∧ ':' ∉ r := by
  obtain ⟨-, hparts, htext⟩ := Delimited.splitOn_eq_iff.mp h
  refine ⟨?_, hparts p (by simp), hparts q (by simp), hparts r (by simp)⟩
  rw [Route.joined_triple, ← String.toList_inj, htext]
  simp [List.intercalate]

/-- What is read is what the three parts are read as. -/
theorem fromRequest_joined {a b c : String} (ha : ':' ∉ a.toList) (hb : ':' ∉ b.toList) (hc : ':' ∉ c.toList) :
    fromRequest E (some (joined [a, b, c])) = .ok sd ↔
      E.readSignature a = some sd.signature ∧ parseU64 b = some sd.nonce ∧ E.readKey c = some sd.publicKey := by
  unfold fromRequest
  simp only [splitOn_joined_triple ha hb hc, String.ofList_toList]
  cases E.readSignature a with
  | none => simp
  | some signature =>
    cases parseU64 b with
    | none => simp
    | some nonce =>
      cases E.readKey c with
      | none => simp
      | some publicKey =>
        obtain ⟨signature', nonce', publicKey'⟩ := sd
        simp

/-- A header that was written is read as what was written. -/
theorem fromRequest_header (E : Encodings) (sd : SignatureData) : fromRequest E (some (sd.header E)) = .ok sd := by
  have hnonce : parseU64 (toString sd.nonce) = some sd.nonce := by
    have hdec : IsDecimal (toString sd.nonce) sd.nonce.toNat := isDecimal_toString sd.nonce.toNat
    rw [parseU64_of_decimal hdec, if_pos sd.nonce.toNat_lt, UInt64.ofNat_toNat]
  exact (fromRequest_joined (E.colon_notMem_base64Encode _) (colon_notMem_nonce sd.nonce) (E.colon_notMem_base64Encode _)).mpr
    ⟨E.readSignature_signatureText sd.signature, hnonce, E.readKey_keyText sd.publicKey⟩

/-- A header that is not three texts with colons between them is told so. -/
theorem fromRequest_length :
    fromRequest E (some text) = .error (.header 400 .invalidSignatureDataLength) ↔ text.toList.count ':' ≠ 2 := by
  have hlen := Delimited.length_splitOn (c := ':') text.toList
  simp only [fromRequest]
  split
  · rename_i signature nonce publicKey hparts
    rw [hparts] at hlen
    refine iff_of_false ?_ (fun hne => hne (Nat.succ.inj hlen.symm))
    intro herror
    split at herror
    · cases herror
    · split at herror
      · cases herror
      · split at herror <;> cases herror
  · rename_i hparts
    refine iff_of_true rfl fun htwo => ?_
    rw [htwo] at hlen
    obtain ⟨a, b, c, habc⟩ := List.length_eq_three.mp hlen
    exact hparts a b c habc

end SignatureData

/-- A header is read as a signature, a nonce and a key exactly if it is three texts without colons that are read so, with colons
between them; one with another number of colons is told so; and what is written is read back. -/
theorem header_read_iff (E : Encodings) (text : String) (sd : SignatureData) :
    (SignatureData.fromRequest E (some text) = .ok sd ↔ ∃ a b c : String, text = joined [a, b, c] ∧
      (':' ∉ a.toList ∧ ':' ∉ b.toList ∧ ':' ∉ c.toList) ∧
      E.readSignature a = some sd.signature ∧ parseU64 b = some sd.nonce ∧ E.readKey c = some sd.publicKey) ∧
    (SignatureData.fromRequest E (some text) = .error (.header 400 .invalidSignatureDataLength) ↔ text.toList.count ':' ≠ 2) ∧
    SignatureData.fromRequest E (some (sd.header E)) = .ok sd := by
  refine ⟨⟨fun h => ?_, ?_⟩, SignatureData.fromRequest_length, SignatureData.fromRequest_header E sd⟩
  · have hthree : (text.toList.splitOn ':').length = 3 := by
      have hcount : text.toList.count ':' = 2 := by
        by_contra hne
        rw [SignatureData.fromRequest_length.mpr hne] at h
        cases h
      rw [Delimited.length_splitOn, hcount]
    obtain ⟨a, b, c, hparts⟩ := List.length_eq_three.mp hthree
    obtain ⟨rfl, ha, hb, hc⟩ := SignatureData.splitOn_eq_triple hparts
    rw [← String.toList_ofList (l := a)] at ha
    rw [← String.toList_ofList (l := b)] at hb
    rw [← String.toList_ofList (l := c)] at hc
    exact ⟨_, _, _, rfl, ⟨ha, hb, hc⟩, (SignatureData.fromRequest_joined ha hb hc).mp h⟩
  · rintro ⟨a, b, c, rfl, ⟨ha, hb, hc⟩, hread⟩
    exact (SignatureData.fromRequest_joined ha hb hc).mpr hread

namespace Sample

/-- Base64, and signatures and keys as their bytes. -/
def encodings : Encodings where
  base64Encode bytes := String.ofList (Base64.encode bytes)
  base64Decode text := Base64.decode text.toList
  signatureToDer sig := sig.bytes
  signatureFromDer bytes := some ⟨bytes⟩
  keyToDer key := key.bytes
  keyFromDer bytes := some ⟨bytes⟩
  base64Decode_encode bytes := by rw [String.toList_ofList, Base64.decode_encode]
  colon_notMem_base64Encode bytes := by
    rw [String.toList_ofList]
    intro h
    rcases Base64.mem_encode h with hdigit | hpad
    · exact absurd hdigit (by decide)
    · exact absurd hpad (by decide)
  signatureFromDer_toDer _ := rfl
  keyFromDer_toDer _ := rfl

end Sample

open Sample in
/-- A signature and a key of one byte each are read; without the key the header is told that it is too short. -/
theorem header_read_signed :
    SignatureData.fromRequest encodings (some "AQ==:0:AQ==") = .ok (signed 1) ∧
      SignatureData.fromRequest encodings (some "AQ==:0") = .error (.header 400 .invalidSignatureDataLength) :=
  ⟨(header_read_iff encodings "AQ==:0:AQ==" (signed 1)).1.mpr
      ⟨"AQ==", "0", "AQ==", by decide +kernel, ⟨by decide, by decide, by decide⟩, by decide +kernel, by decide +kernel, by decide +kernel⟩,
    (header_read_iff encodings "AQ==:0" (signed 1)).2.1.mpr (by decide)⟩

/-! ## The client -/

/-- What a secret key has signed is accepted by the guard if its key is an operator's. -/
theorem Handlers.guardOpSignature_signed {Γ : Ctx} (secretKey : SecretKey Γ.verify) (uri body : String) (nonce : UInt64) :
    guardOpSignature Γ uri
        { signature := secretKey.sign (joined [Γ.domain ++ uri, body, toString nonce])
          nonce := nonce
          publicKey := secretKey.publicKey } body =
      if secretKey.publicKey ∈ Γ.operatorPublicKeys then .ok () else .error (.signatureError .invalidPublicKey) := by
  have hsigned := secretKey.verifies (joined [Γ.domain ++ uri, body, toString nonce])
  by_cases hkey : secretKey.publicKey ∈ Γ.operatorPublicKeys
  · rw [if_pos hkey]
    exact guardOpSignature_eq_ok_iff.mpr ⟨hkey, hsigned⟩
  · simp [guardOpSignature, SignatureVerificationData.verify, hkey]

/-- A request that the client sends for an invite is answered with one exactly if its key is an operator's: with the first identifier
that is no invite of the State, which is generated for that key. Else the answer names the key as what is wrong. -/
theorem client_invited_iff (E : Encodings) (Γ : OpCtx) (secretKey : SecretKey Γ.ctx.verify) (req : InviteRequest) (s : State)
    (ids : List Uuid) :
    Handlers.genInviteRoute E Γ s (some (ApiClient.genInvite E Γ.inviteJson Γ.ctx.domain secretKey req).signatureData)
        (ApiClient.genInvite E Γ.inviteJson Γ.ctx.domain secretKey req).body ids =
      if secretKey.publicKey ∈ Γ.ctx.operatorPublicKeys then
        .ok ((ids.find? fun id => !s.invites.contains ⟨id⟩).map fun id =>
          ({ invite := ⟨id⟩, label := req.label },
            .genInvite { invite := ⟨id⟩, invitor := Γ.keyText secretKey.publicKey, label := req.label }))
      else .error (.handler (.signatureError .invalidPublicKey)) := by
  have hguard : Handlers.guardOpSignature Γ.ctx genInviteUri
      { signature := secretKey.sign (joined [Γ.ctx.domain ++ "/invite/generate", Γ.inviteJson req, toString (0 : UInt64)])
        nonce := 0
        publicKey := secretKey.publicKey } (Γ.inviteJson req) =
      if secretKey.publicKey ∈ Γ.ctx.operatorPublicKeys then .ok () else .error (.signatureError .invalidPublicKey) :=
    Handlers.guardOpSignature_signed secretKey genInviteUri (Γ.inviteJson req) 0
  simp only [Handlers.genInviteRoute, ApiClient.genInvite, SignatureData.fromRequest_header, Handlers.genInvite, hguard]
  by_cases hkey : secretKey.publicKey ∈ Γ.ctx.operatorPublicKeys
  · simp only [if_pos hkey]
    cases ids.find? fun id => !s.invites.contains ⟨id⟩ with
    | none => rfl
    | some id => rfl
  · simp only [if_neg hkey]

namespace Sample

/-- A signature is the bytes of the key and the text. -/
def scheme : Verify := fun k text sig => sig.bytes == k.bytes ++ text.toUTF8.toList

def secretKey (k : UInt8) : SecretKey scheme where
  publicKey := key k
  sign text := ⟨(key k).bytes ++ text.toUTF8.toList⟩
  verifies _ := by simp [scheme]

/-- The configuration of the operators' API, with that scheme. -/
def signing : OpCtx := { opCtx with ctx := { ctx with verify := scheme } }

/-- What the client with a secret key sends to ask for an invite. -/
def inviteCall (k : UInt8) : InviteCall :=
  ApiClient.genInvite encodings signing.inviteJson signing.ctx.domain (secretKey k) { label := "label" }

end Sample

open Sample in
/-- The first operator is answered with an invite, a key that is no operator's is not. -/
theorem client_invited_first :
    Handlers.genInviteRoute encodings signing (State.new ⟨0⟩ "genesis") (some (inviteCall 1).signatureData) (inviteCall 1).body [uuid 7] =
        .ok (some ({ invite := ⟨uuid 7⟩, label := "label" }, .genInvite { invite := ⟨uuid 7⟩, invitor := "op", label := "label" })) ∧
      Handlers.genInviteRoute encodings signing (State.new ⟨0⟩ "genesis") (some (inviteCall 9).signatureData) (inviteCall 9).body [uuid 7] =
        .error (.handler (.signatureError .invalidPublicKey)) :=
  ⟨client_invited_iff encodings signing (secretKey 1) { label := "label" } _ [uuid 7],
    client_invited_iff encodings signing (secretKey 9) { label := "label" } _ [uuid 7]⟩

/-! ## The invites of an operator -/

namespace Journal

/-- The invite was generated as this, and no sign-up has used it since. -/
def OpenInvite (j : Journal) (r : InviteRec) : Prop :=
  Since (fun row : Row => row.update.body = .genInvite r) (fun row => ∀ info, row.update.body = .signup info → info.invite ≠ r.invite)
    j.rows

variable {j j' : Journal} {o : Oracle} {up : StateUpdate}

/-- (step) An invite is open if it was generated just now, or was open and is not used just now. -/
theorem openInvite_store (h : j.store o up = some j') (r : InviteRec) :
    j'.OpenInvite r ↔ up.body = .genInvite r ∨ (j.OpenInvite r ∧ ∀ info, up.body = .signup info → info.invite ≠ r.invite) := by
  obtain ⟨res, -, hrows⟩ := store_eq_some h
  rw [OpenInvite, hrows, since_concat]
  rfl

/-- The invites of the State are the open ones, each stored under itself. -/
def InvitesOpen (j : Journal) : Prop := ∀ i r, j.state.invites.get? i = some r ↔ r.invite = i ∧ j.OpenInvite r

/-- (step) -/
theorem InvitesOpen.store (hi : j.InvitesOpen) (hs : ¬up.body.IsSnapshot) (h : j.store o up = some j') : j'.InvitesOpen := by
  intro i r
  rw [openInvite_store h r]
  obtain ⟨res, ha, -⟩ := store_eq_some h
  rcases Hexstody.applyUpdate_invites ha hs with
    ⟨info, r₀, hb, -, -, hinvites, -⟩ | ⟨req, hb, hnone, hinvites⟩ | ⟨hsignup, hgen, hinvites⟩
  · have hused : (∀ info', up.body = .signup info' → info'.invite ≠ r.invite) ↔ info.invite ≠ r.invite := by
      rw [hb]
      exact ⟨fun h => h info rfl, fun hne info' hinfo => by rwa [← UpdateBody.signup.inj hinfo]⟩
    have hgen : up.body ≠ .genInvite r := by
      rw [hb]
      intro h
      cases h
    rw [hinvites, AssocMap.get?_erase, hused]
    by_cases hii : i = info.invite
    · rw [if_pos hii]
      refine iff_of_false (by simp) ?_
      rintro ⟨hri, hg | ⟨-, hne⟩⟩
      · exact hgen hg
      · exact hne (hii.symm.trans hri.symm)
    · rw [if_neg hii, hi i r]
      refine and_congr_right fun hri => ⟨fun hopen => Or.inr ⟨hopen, fun h => hii (hri.symm.trans h.symm)⟩, ?_⟩
      rintro (hg | ⟨hopen, -⟩)
      · exact absurd hg hgen
      · exact hopen
  · have hused : ∀ info', up.body = .signup info' → info'.invite ≠ r.invite := by
      rw [hb]
      intro info' h
      cases h
    rw [hinvites, AssocMap.get?_insert, hb]
    by_cases hii : i = req.invite
    · rw [if_pos hii, Option.some_inj]
      constructor
      · rintro rfl
        exact ⟨hii.symm, Or.inl rfl⟩
      · rintro ⟨hri, hg | ⟨hopen, -⟩⟩
        · exact UpdateBody.genInvite.inj hg
        · -- an open invite would be in the State already
          rw [(hi req.invite r).mpr ⟨hri.trans hii, hopen⟩] at hnone
          cases hnone
    · rw [if_neg hii, hi i r]
      refine and_congr_right fun hri => ⟨fun hopen => Or.inr ⟨hopen, hb ▸ hused⟩, ?_⟩
      rintro (hg | ⟨hopen, -⟩)
      · rw [UpdateBody.genInvite.inj hg] at hii
        exact absurd hri.symm hii
      · exact hopen
  · rw [hinvites, hi i r]
    refine and_congr_right fun _ => ⟨fun hopen => Or.inr ⟨hopen, fun info hinfo => absurd hinfo (hsignup info)⟩, ?_⟩
    rintro (hg | ⟨hopen, -⟩)
    · exact absurd hg (hgen r)
    · exact hopen

/-- (run) -/
theorem invitesOpen_of_reachable (h : machine.Reachable Fresh j) : j.InvitesOpen := by
  refine h.invariant ?_ fun j a j' _ hi hp hs => hi.store hp.1 hs
  rintro _ ⟨now, genesisHash, rfl⟩ i r
  exact iff_of_false (by rintro ⟨⟩) fun hopen => since_nil hopen.2

end Journal

theorem ok_of_mapError {ε ε' α : Type} {f : ε → ε'} {x : Except ε α} {y : α} (h : x.mapError f = .ok y) : x = .ok y := by
  cases x with
  | error e => cases h
  | ok z => exact congrArg Except.ok (Except.ok.inj h)

theorem ok_of_map_some {ε ε' α : Type} {f : ε → ε'} {x : Except ε α} {y : α} (h : (x.map some).mapError f = .ok (some y)) :
    x = .ok y := by
  have hmap := ok_of_mapError h
  cases x with
  | error e => cases hmap
  | ok z => exact congrArg Except.ok (Option.some.inj (Except.ok.inj hmap))

namespace Handlers

variable {Γ : OpCtx} {sd : SignatureData} {rec : InviteRec}

/-- What asks for an invite is a request for one: the invite has the label that it gives, and is for the key that signed. -/
theorem genInvite_eq_ok {s : State} {req : InviteRequest} {ids : List Uuid} (h : genInvite Γ s sd req ids = .ok (some (.genInvite rec))) :
    req.label = rec.label ∧ rec.invitor = Γ.keyText sd.publicKey := by
  unfold genInvite at h
  split at h
  · cases h
  · obtain ⟨id, -, hid⟩ := Option.map_eq_some_iff.mp (Except.ok.inj h)
    obtain rfl := UpdateBody.genInvite.inj hid
    exact ⟨rfl, rfl⟩

theorem decideWithdrawal_ne {Γ : Ctx} {uri : String} {t : WithdrawalRequestDecisionType} {data : ConfirmationData} :
    decideWithdrawal Γ uri t sd data ≠ .ok (.genInvite rec) := by
  unfold decideWithdrawal
  intro h
  split at h <;> cases h

theorem decideLimits_ne {uri : String} {t : LimitChangeDecisionType} {data : LimitConfirmationData} :
    decideLimits Γ uri t sd data ≠ .ok (.genInvite rec) := by
  unfold decideLimits
  intro h
  split at h <;> cases h

theorem decideExchange_ne {uri : String} {t : ExchangeDecisionType} {data : ExchangeConfirmationData} :
    decideExchange Γ uri t sd data ≠ .ok (.genInvite rec) := by
  unfold decideExchange
  intro h
  split at h <;> cases h

theorem getExchangeAddress_ne {s : State} {c : Currency} {answer : Option String} :
    getExchangeAddress Γ s sd c answer ≠ .ok (some (.genInvite rec)) := by
  have hallocate : ∀ c, allocateAddress c answer ≠ .ok (some (.genInvite rec)) := by
    intro c h
    unfold allocateAddress at h
    split at h <;> cases h
  intro h
  unfold getExchangeAddress getDepositAddress at h
  split at h
  · cases h
  · split at h
    · cases h
    · split at h
      · exact hallocate _ h
      · split at h
        · cases h
        · split at h
          · exact hallocate _ h
          · cases h

end Handlers

/-- Only a request for an invite generates one: with the label that it gives, for the key that signed it. -/
theorem SignedRequest.handle_genInvite {Γ : OpCtx} {s : State} {draw : Draw} {r : SignedRequest} {rec : InviteRec}
    (h : r.handle Γ s draw = .ok (some (.genInvite rec))) :
    r.request = .genInvite { label := rec.label } ∧ rec.invitor = Γ.keyText r.data.publicKey := by
  unfold handle at h
  cases hr : r.request with
  | query uri =>
    rw [hr] at h
    have hquery := ok_of_mapError h
    cases hguard : Handlers.guardOpSignatureNomsg Γ.ctx uri r.data with
    | error e => rw [hguard] at hquery; cases hquery
    | ok u => rw [hguard] at hquery; cases hquery
  | genInvite req =>
    rw [hr] at h
    obtain ⟨hlabel, hkey⟩ := Handlers.genInvite_eq_ok (ok_of_mapError h)
    exact ⟨by rw [← hlabel], hkey⟩
  | getExchangeAddress currency =>
    rw [hr] at h
    exact absurd h Handlers.getExchangeAddress_ne
  | confirm data =>
    rw [hr] at h
    exact absurd (ok_of_map_some h) Handlers.decideWithdrawal_ne
  | reject data =>
    rw [hr] at h
    exact absurd (ok_of_map_some h) Handlers.decideWithdrawal_ne
  | confirmLimits data =>
    rw [hr] at h
    exact absurd (ok_of_map_some h) Handlers.decideLimits_ne
  | rejectLimits data =>
    rw [hr] at h
    exact absurd (ok_of_map_some h) Handlers.decideLimits_ne
  | confirmExchange data =>
    rw [hr] at h
    exact absurd (ok_of_map_some h) Handlers.decideExchange_ne
  | rejectExchange data =>
    rw [hr] at h
    exact absurd (ok_of_map_some h) Handlers.decideExchange_ne

/-- The invites that are told are among the keys of the map, in the order of the map. -/
theorem invites_sublist_keys {invitor : String} {l : List (Invite × InviteRec)} (hkeyed : ∀ e ∈ l, e.2.invite = e.1) :
    (((l.map (·.2)).filterMap fun r => if r.invitor = invitor then some r.toResp else none).map (·.invite)).Sublist
      (l.map (·.1)) := by
  induction l with
  | nil => exact List.Sublist.refl _
  | cons e l ih =>
    have hrest := ih fun e' he' => hkeyed e' (List.mem_cons_of_mem e he')
    rw [List.map_cons, List.map_cons, List.filterMap_cons]
    by_cases hinvitor : e.2.invitor = invitor
    · rw [if_pos hinvitor]
      rw [← hkeyed e List.mem_cons_self]
      exact hrest.cons_cons e.2.invite
    · rw [if_neg hinvitor]
      exact hrest.cons e.1

namespace OperatorApi

variable {Γ : OpCtx} {m : OperatorApi}

/-- (run) What an operator is told when he asks for his invites: those that were generated for his key and that nobody has signed up
with since, each once, in any order of the map. For each of them a request that he signed was accepted. -/
theorem invites_listed (h : (machine Γ).Reachable FreshIds m) (sd : SignatureData)
    (hsd : Handlers.guardOpSignatureNomsg Γ.ctx Handlers.listOpsInvitesUri sd = .ok ()) (order : IterOrder Invite) :
    ∃ resp, Handlers.listOpsInvites Γ m.journal.state sd order = .ok resp ∧ (resp.map (·.invite)).Nodup ∧
      (∀ x, x ∈ resp ↔ m.journal.OpenInvite { invite := x.invite, invitor := Γ.keyText sd.publicKey, label := x.label }) ∧
      ∀ x ∈ resp, ∃ a ∈ m.accepted, a.1.Authentic Γ ∧ a.1.request = .genInvite { label := x.label } ∧
        Γ.keyText a.1.data.publicKey = Γ.keyText sd.publicKey := by
  have hopen := Journal.invitesOpen_of_reachable (journal_of_reachable h)
  have hmem : ∀ x : InviteResp, (x ∈ ((m.journal.state.invites.iter order).map (·.2)).filterMap fun r =>
      if r.invitor = Γ.keyText sd.publicKey then some r.toResp else none) ↔
        m.journal.OpenInvite { invite := x.invite, invitor := Γ.keyText sd.publicKey, label := x.label } := by
    intro x
    simp only [List.mem_filterMap, List.mem_map]
    constructor
    · rintro ⟨r, ⟨⟨i, r'⟩, hir, rfl⟩, hx⟩
      obtain ⟨hinvitor, hx⟩ := Option.ite_none_right_eq_some.mp hx
      obtain rfl := Option.some.inj hx
      have hr := ((hopen i r').mp (AssocMap.mem_iter_iff.mp hir)).2
      obtain ⟨invite, invitor, label⟩ := r'
      exact hinvitor ▸ hr
    · intro hr
      refine ⟨_, ⟨(x.invite, _), AssocMap.mem_iter_iff.mpr ((hopen x.invite _).mpr ⟨rfl, hr⟩), rfl⟩, ?_⟩
      rw [if_pos rfl]
      rfl
  refine ⟨_, by rw [Handlers.listOpsInvites, hsd], ?_, hmem, fun x hx => ?_⟩
  · refine (invites_sublist_keys fun e he => ?_).nodup (AssocMap.iter_keys_nodup m.journal.state.invites order)
    exact ((hopen e.1 e.2).mp (AssocMap.mem_iter_iff.mp he)).1
  · obtain ⟨row, hrow, hbody⟩ := ((hmem x).mp hx).exists_mem
    obtain ⟨hauth, honce⟩ := accepted_of_reachable h
    have hsent : row.update.body ∈ m.operatorBodies := by
      refine List.mem_filter.mpr ⟨List.mem_map_of_mem (List.mem_append_left _ (List.mem_map_of_mem hrow)), ?_⟩
      rw [hbody]
      rfl
    obtain ⟨a, ha, hab⟩ := List.mem_filterMap.mp (honce.subset hsent)
    rw [hbody] at hab
    obtain ⟨hsigned, hhandled⟩ := hauth a ha
    obtain ⟨s, draw, hok⟩ := hhandled _ hab
    obtain ⟨hreq, hkey⟩ := SignedRequest.handle_genInvite hok
    exact ⟨a, ha, hsigned, hreq, hkey.symm⟩

/-- Two invites are generated for an operator, and alice signs up with the first. -/
theorem invites_listed_second : ∃ (m : OperatorApi) (resp : List InviteResp),
    Handlers.listOpsInvites Sample.opCtx m.journal.state (Sample.signed 1) .stored = .ok resp ∧
      resp.map (·.invite) = [⟨Sample.uuid 2⟩] ∧
      ∀ x ∈ resp, m.journal.OpenInvite { invite := x.invite, invitor := "op", label := x.label } := by
  obtain ⟨m, hm, hq⟩ := Machine.exists_reachable (M := machine Sample.opCtx) (P := FreshIds)
    (Sample.invited 1 ++ Sample.invited 2 ++
      [.other { created := ⟨2⟩, body := .signup { username := Sample.alice, invite := ⟨Sample.uuid 1⟩, auth := .lightning } },
        .apply 0 Sample.oracle])
    (q := fun m : OperatorApi =>
      decide (((Handlers.listOpsInvites Sample.opCtx m.journal.state (Sample.signed 1) .stored).toOption.map fun resp =>
        resp.map (·.invite)) = some [⟨Sample.uuid 2⟩]))
    ⟨⟨0⟩, "genesis", rfl⟩ (by decide +kernel)
  obtain ⟨resp, hresp, -, hopen, -⟩ := invites_listed hm (Sample.signed 1) rfl .stored
  have hlist := of_decide_eq_true hq
  rw [hresp] at hlist
  exact ⟨m, resp, hresp, Option.some.inj hlist, fun x hx => (hopen x).mp hx⟩

end OperatorApi

end Hexstody
