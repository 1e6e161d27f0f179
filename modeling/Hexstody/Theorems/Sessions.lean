import Hexstody.Login

/-!
# Who gets a session

A challenge opens at most one session, and only while it is the last one issued to the user: the challenge that is kept is the
last one and was not redeemed (`Login.Kept`). But the signature of a redemption is checked under the key that comes with it,
which is never compared with the key that the State has for the user. In every run in which the two agree when a session is
opened, sessions are the account owner's (`sessions_authenticated`).
-/

namespace Hexstody

namespace Login

variable {ι : Type} {Λ : LoginCtx} {C : Client ι} {k : Clock} {l l' : Login} {a : LoginAction ι}

/-- The redemption is by the owner of the account: the signature verifies under the key that the State has for the user, and the
challenge is the last one issued to the user and was not redeemed. -/
structure Authenticated (Λ : LoginCtx) (l : Login) (r : Redemption) : Prop where
  signature : ∃ key, l.storedKey? r.resp.user = some key ∧
    Λ.verify key (joined [Λ.domain ++ redeemUri, Λ.responseJson r.resp, toString r.sd.nonce]) r.sd.signature = true
  latest : l.latest r.resp.user = some r.resp.challenge
  unredeemed : ∀ r' ∈ l.sessions, r'.resp.challenge ≠ r.resp.challenge

/-- The sessions that lead from one state to the next are by account owners, and no challenge has opened two. -/
def OpensAuthenticated (Λ : LoginCtx) (l l' : Login) : Prop :=
  (∃ rs, l'.sessions = l.sessions ++ rs ∧ ∀ r ∈ rs, Authenticated Λ l r) ∧
    ∀ c, (l'.sessions.filter (·.resp.challenge = c)).length ≤ 1

/-- A redemption that opens a session comes with the key that the State has for the user at that moment. -/
def KeyIsStored (l : Login) (a : LoginAction ι) : Prop :=
  match a with
  | .compare n => ∀ r ∈ l.checked[n]?, l.challenges.get? r.resp.user = some r.resp.challenge →
      l.storedKey? r.resp.user = some r.sd.publicKey
  | _ => True

instance (l : Login) (a : LoginAction ι) : Decidable (l.KeyIsStored a) := by
  unfold KeyIsStored
  cases a <;> exact inferInstance

/-! ## The challenges that are kept -/

/-- The signature of a redemption was checked under its own key. -/
def Signed (Λ : LoginCtx) (r : Redemption) : Prop :=
  Λ.verify r.sd.publicKey (joined [Λ.domain ++ redeemUri, Λ.responseJson r.resp, toString r.sd.nonce]) r.sd.signature = true

/-- The challenge kept for a user is the last one issued to the user and opened no session; a challenge that opened one was
issued, and opened no other. -/
structure Kept (Λ : LoginCtx) (l : Login) : Prop where
  signed : ∀ r ∈ l.checked, Signed Λ r
  kept : ∀ u c, l.challenges.get? u = some c → l.latest u = some c ∧ ∀ r ∈ l.sessions, r.resp.challenge ≠ c
  distinct : ∀ u u' c, l.challenges.get? u = some c → l.challenges.get? u' = some c → u = u'
  issued : ∀ u c, l.challenges.get? u = some c → (u, c) ∈ l.issued
  opened : ∀ r ∈ l.sessions, ∃ u, (u, r.resp.challenge) ∈ l.issued
  once : ∀ c, (l.sessions.filter (·.resp.challenge = c)).length ≤ 1

/-- A challenge that is kept was issued before any fresh one. -/
theorem Kept.ne_fresh (h : Kept Λ l) {c : String} (hfresh : ∀ p ∈ l.issued, p.2 ≠ c) :
    (∀ u c', l.challenges.get? u = some c' → c' ≠ c) ∧ ∀ r ∈ l.sessions, r.resp.challenge ≠ c := by
  constructor
  · intro u c' hu
    exact hfresh _ (h.issued u c' hu)
  · intro r hr
    obtain ⟨u, hu⟩ := h.opened r hr
    exact hfresh _ hu

/-- No session is opened when a challenge is issued. -/
theorem issue_sessions {n : Nat} {c : String} (hs : l.issue n c = some l') : l'.sessions = l.sessions := by
  unfold Login.issue at hs
  split at hs
  · cases hs
  · split at hs
    · obtain rfl := Option.some.inj hs
      rfl
    · cases hs

/-- (step) A challenge is issued. -/
theorem Kept.issue (h : Kept Λ l) {n : Nat} {c : String} (hs : l.issue n c = some l') : Kept Λ l' := by
  unfold Login.issue at hs
  cases hu : l.asking[n]? with
  | none => simp [hu] at hs
  | some user =>
    simp only [hu] at hs
    split at hs
    · rename_i hfresh
      obtain ⟨hkept, hopened⟩ := h.ne_fresh hfresh
      obtain rfl := Option.some.inj hs
      refine ⟨h.signed, ?_, ?_, ?_, ?_, h.once⟩
      · intro u c' hc
        rw [AssocMap.get?_insert] at hc
        by_cases hx : u = user
        · rw [if_pos hx] at hc
          obtain rfl := Option.some.inj hc
          exact ⟨by simp [latest, hx], hopened⟩
        · rw [if_neg hx] at hc
          obtain ⟨hlast, hnot⟩ := h.kept u c' hc
          refine ⟨?_, hnot⟩
          rw [latest, List.find?_cons_of_neg (by simpa using fun heq => hx heq.symm)]
          exact hlast
      · intro u u' c' hc hc'
        rw [AssocMap.get?_insert] at hc hc'
        by_cases hx : u = user
        · by_cases hx' : u' = user
          · exact hx.trans hx'.symm
          · rw [if_pos hx] at hc
            rw [if_neg hx'] at hc'
            exact absurd (Option.some.inj hc).symm (hkept u' c' hc')
        · rw [if_neg hx] at hc
          by_cases hx' : u' = user
          · rw [if_pos hx'] at hc'
            exact absurd (Option.some.inj hc').symm (hkept u c' hc)
          · rw [if_neg hx'] at hc'
            exact h.distinct u u' c' hc hc'
      · intro u c' hc
        rw [AssocMap.get?_insert] at hc
        by_cases hx : u = user
        · rw [if_pos hx] at hc
          obtain rfl := Option.some.inj hc
          exact hx ▸ List.mem_cons_self
        · rw [if_neg hx] at hc
          exact List.mem_cons_of_mem _ (h.issued u c' hc)
      · intro r hr
        obtain ⟨u, hu'⟩ := h.opened r hr
        exact ⟨u, List.mem_cons_of_mem _ hu'⟩
    · cases hs

/-- What each step does to the challenges and the sessions: nothing, except that a signed redemption may be checked; or a
challenge is issued; or the challenge of a redemption is the one that is kept, and its session is opened. -/
theorem step_cases (hs : (machine Λ C k).step l a = some l') :
    (l'.challenges = l.challenges ∧ l'.issued = l.issued ∧ l'.sessions = l.sessions ∧
        ∀ r ∈ l'.checked, r ∈ l.checked ∨ Signed Λ r) ∨
      (∃ n c, a = .issue n c ∧ l.issue n c = some l') ∨
      ∃ n r, a = .compare n ∧ l.checked[n]? = some r ∧ l.challenges.get? r.resp.user = some r.resp.challenge ∧
        l' = { l with
          checked := l.checked.eraseIdx n
          challenges := l.challenges.erase r.resp.user
          sessions := l.sessions ++ [r] } := by
  cases a with
  | wallet a =>
    obtain ⟨w, -, rfl⟩ := Option.map_eq_some_iff.mp hs
    exact Or.inl ⟨rfl, rfl, rfl, fun r hr => Or.inl hr⟩
  | getChallenge user =>
    change l.getChallenge user = some l' at hs
    unfold Login.getChallenge at hs
    split at hs
    · obtain rfl := Option.some.inj hs
      exact Or.inl ⟨rfl, rfl, rfl, fun r hr => Or.inl hr⟩
    · cases hs
  | issue n c => exact Or.inr (Or.inl ⟨n, c, rfl, hs⟩)
  | redeem r =>
    change l.redeem Λ r = some l' at hs
    unfold Login.redeem at hs
    split at hs
    · split at hs
      · rename_i hv
        obtain rfl := Option.some.inj hs
        refine Or.inl ⟨rfl, rfl, rfl, fun r' hr' => ?_⟩
        rcases List.mem_append.mp hr' with hr' | hr'
        · exact Or.inl hr'
        · rw [List.mem_singleton.mp hr']
          exact Or.inr (verifySignature_eq_ok_iff.mp hv).2
      · cases hs
    · cases hs
  | compare n =>
    change l.compare n = some l' at hs
    unfold Login.compare at hs
    cases hr : l.checked[n]? with
    | none => simp [hr] at hs
    | some r =>
      simp only [hr] at hs
      cases hc : l.challenges.get? r.resp.user with
      | none =>
        simp only [hc, Option.some.injEq] at hs
        subst hs
        exact Or.inl ⟨rfl, rfl, rfl, fun r' hr' => Or.inl (List.mem_of_mem_eraseIdx hr')⟩
      | some stored =>
        simp only [hc] at hs
        split at hs
        · rename_i heq
          exact Or.inr (Or.inr ⟨n, r, rfl, hr, by rw [hc, heq], (Option.some.inj hs).symm⟩)
        · obtain rfl := Option.some.inj hs
          exact Or.inl ⟨rfl, rfl, rfl, fun r' hr' => Or.inl (List.mem_of_mem_eraseIdx hr')⟩

/-- (step) A session is opened. -/
theorem Kept.open (h : Kept Λ l) {n : Nat} {r : Redemption} (hc : l.challenges.get? r.resp.user = some r.resp.challenge)
    (hl : l' = { l with
      checked := l.checked.eraseIdx n
      challenges := l.challenges.erase r.resp.user
      sessions := l.sessions ++ [r] }) : Kept Λ l' := by
  subst hl
  have hget : ∀ u c, (l.challenges.erase r.resp.user).get? u = some c → u ≠ r.resp.user ∧ l.challenges.get? u = some c := by
    intro u c hu
    rw [AssocMap.get?_erase] at hu
    by_cases hx : u = r.resp.user
    · rw [if_pos hx] at hu
      cases hu
    · rw [if_neg hx] at hu
      exact ⟨hx, hu⟩
  refine ⟨fun r' hr' => h.signed r' (List.mem_of_mem_eraseIdx hr'), ?_, ?_, ?_, ?_, ?_⟩
  · intro u c hu
    obtain ⟨hx, hu⟩ := hget u c hu
    obtain ⟨hlast, hnot⟩ := h.kept u c hu
    refine ⟨hlast, fun r' hr' => ?_⟩
    rcases List.mem_append.mp hr' with hr' | hr'
    · exact hnot r' hr'
    · rw [List.mem_singleton.mp hr']
      intro heq
      exact hx (h.distinct u _ c hu (heq ▸ hc))
  · intro u u' c hu hu'
    exact h.distinct u u' c (hget u c hu).2 (hget u' c hu').2
  · intro u c hu
    exact h.issued u c (hget u c hu).2
  · intro r' hr'
    rcases List.mem_append.mp hr' with hr' | hr'
    · exact h.opened r' hr'
    · rw [List.mem_singleton.mp hr']
      exact ⟨_, h.issued _ _ hc⟩
  · intro c
    rw [List.filter_append, List.length_append]
    by_cases hx : r.resp.challenge = c
    · -- the challenge opened no session before
      have hnone : l.sessions.filter (·.resp.challenge = c) = [] := by
        refine List.filter_eq_nil_iff.mpr (fun r' hr' => ?_)
        have hne := (h.kept _ _ hc).2 r' hr'
        rw [hx] at hne
        simpa using hne
      rw [hnone]
      simp [hx]
    · have hlen := h.once c
      simp [hx]
      exact hlen

/-- (step) -/
theorem Kept.step (h : Kept Λ l) (hs : (machine Λ C k).step l a = some l') : Kept Λ l' := by
  rcases step_cases hs with ⟨hchallenges, hissued, hsessions, hchecked⟩ | ⟨n, c, -, hs⟩ | ⟨n, r, -, -, hc, hl⟩
  · have hsigned : ∀ r ∈ l'.checked, Signed Λ r := by
      intro r hr
      rcases hchecked r hr with hr | hr
      · exact h.signed r hr
      · exact hr
    refine ⟨hsigned, ?_, ?_, ?_, ?_, ?_⟩
    · rw [hchallenges, hsessions]
      simp only [latest, hissued]
      exact h.kept
    · rw [hchallenges]
      exact h.distinct
    · rw [hchallenges, hissued]
      exact h.issued
    · rw [hsessions, hissued]
      exact h.opened
    · rw [hsessions]
      exact h.once
  · exact h.issue hs
  · exact h.open hc hl

theorem kept_of_reachable {P : Login → LoginAction ι → Prop} (h : (machine Λ C k).Reachable P l) : Kept Λ l := by
  refine h.invariant ?_ ?_
  · rintro _ ⟨w, -, rfl⟩
    exact ⟨fun r hr => (by cases hr), fun u c hu => (by cases hu), fun u u' c hu => (by cases hu),
      fun u c hu => (by cases hu), fun r hr => (by cases hr), fun c => Nat.zero_le 1⟩
  · intro l a l' _ hk _ hs
    exact hk.step hs

/-! ## Sessions -/

/-- Key login authenticates the account owner: in every run in which a redemption that opens a session comes with the key that
the State has for the user, the sessions that the next such step opens are by account owners; and a challenge opens at most
one. -/
theorem sessions_authenticated (h : (machine Λ C k).Reachable KeyIsStored l) (hkey : l.KeyIsStored a)
    (hs : (machine Λ C k).step l a = some l') : OpensAuthenticated Λ l l' := by
  have hk := kept_of_reachable h
  refine ⟨?_, (hk.step hs).once⟩
  have hnone : l'.sessions = l.sessions → ∃ rs, l'.sessions = l.sessions ++ rs ∧ ∀ r ∈ rs, Authenticated Λ l r := by
    intro heq
    exact ⟨[], by rw [heq, List.append_nil], fun r hr => by cases hr⟩
  rcases step_cases hs with ⟨-, -, hsessions, -⟩ | ⟨n, c, -, hs⟩ | ⟨n, r, rfl, hr, hc, rfl⟩
  · exact hnone hsessions
  · exact hnone (issue_sessions hs)
  · refine ⟨[r], rfl, fun r' hr' => ?_⟩
    obtain rfl := List.mem_singleton.mp hr'
    obtain ⟨hlast, hnot⟩ := hk.kept _ _ hc
    have hsigned := hk.signed r' (List.mem_of_getElem? hr)
    exact ⟨⟨_, hkey r' hr hc, hsigned⟩, hlast, hnot⟩

/-! ## Alice and mallory -/

/-- Signatures are the keys they are made with. -/
def toyCtx : LoginCtx where
  verify key _ sig := sig.bytes == key.bytes
  domain := "domain"
  responseJson _ := "json"

/-- Alice signs up, and sets her key; then someone asks for a challenge of hers, and redeems it with a key. -/
def redeemedWith (key : UInt8) : List (LoginAction HandlerCall) :=
  (Sample.opening 1000000 ++
      Sample.done 5 (.other (.setPublicKey { user := Sample.alice, publicKey := some (Sample.key 1) }))).map .wallet ++
    [.getChallenge Sample.alice, .issue 0 "challenge",
      .redeem { resp := { user := Sample.alice, challenge := "challenge" }, sd := Sample.signed key }]

def start : Login where
  world := Sample.world
  challenges := AssocMap.empty
  asking := []
  checked := []
  issued := []
  sessions := []

theorem start_initial : (machine toyCtx (hotWallet Sample.ctx) Sample.clock).init start :=
  ⟨_, Sample.world_init, rfl⟩

/-- Alice redeems the challenge with her key, and gets her session. -/
theorem sessions_authenticated_alice : ∃ l l' : Login, l'.sessions.length = 1 ∧ OpensAuthenticated toyCtx l l' := by
  obtain ⟨l, hl, hq⟩ := Machine.exists_reachable (P := KeyIsStored) (redeemedWith 1)
    (q := fun l => decide (l.KeyIsStored (.compare (ι := HandlerCall) 0)) &&
      (l.compare 0).any (fun l' => l'.sessions.length == 1)) start_initial (by decide +kernel)
  obtain ⟨hkey, hany⟩ := (Bool.and_eq_true _ _).mp hq
  obtain ⟨l', hs, hlen⟩ := (Option.any_eq_true _ _).mp hany
  exact ⟨l, l', by simpa using hlen, sessions_authenticated hl (a := .compare 0) (of_decide_eq_true hkey) hs⟩

/-- Mallory asks for a challenge of alice's, redeems it with a key of his own, and gets alice's session. -/
theorem session_of_another : ¬∀ (Λ : LoginCtx) (Γ : Ctx) (k : Clock) (l l' : Login) (a : LoginAction HandlerCall),
    (machine Λ (hotWallet Γ) k).Reachable Machine.anyStep l → (machine Λ (hotWallet Γ) k).step l a = some l' →
    OpensAuthenticated Λ l l' := by
  intro h
  obtain ⟨l, hl, hq⟩ := Machine.exists_reachable (P := Machine.anyStep) (redeemedWith 66)
    (q := fun (l : Login) => decide (l.storedKey? Sample.alice = some (Sample.key 1)) && decide (l.sessions = []) &&
      (l.compare 0).any (fun (l' : Login) => decide (l'.sessions =
        [{ resp := { user := Sample.alice, challenge := "challenge" }, sd := Sample.signed 66 }])))
    start_initial (by decide +kernel)
  obtain ⟨hbefore, hany⟩ := (Bool.and_eq_true _ _).mp hq
  obtain ⟨hstored, hnone⟩ := (Bool.and_eq_true _ _).mp hbefore
  obtain ⟨l', hs, hone⟩ := (Option.any_eq_true _ _).mp hany
  obtain ⟨⟨rs, hrs, hall⟩, -⟩ := h toyCtx Sample.ctx Sample.clock l l' (.compare 0) hl hs
  rw [of_decide_eq_true hnone, of_decide_eq_true hone, List.nil_append] at hrs
  obtain ⟨key, hkey, hv⟩ := (hall _ (hrs ▸ List.mem_singleton.mpr rfl)).signature
  rw [of_decide_eq_true hstored] at hkey
  obtain rfl := Option.some.inj hkey
  exact absurd hv (by decide)

end Login

end Hexstody
