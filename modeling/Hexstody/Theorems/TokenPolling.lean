import Hexstody.EthModule

/-!
# Polling and the tokens of the ETH module

The poller writes back the tokens that it read with the rows, seconds and many calls before. What was posted in between is undone.
The tokens that are stored stay those that were last posted as long as nobody posts other tokens to a user whose row the poller has
read and not yet written, and no such user is removed and created again without tokens (`KeepsSnapshot`). That is exact: after any
other post the steps of the poller alone undo it, unless the pass fails before (`EthModule.polling_keeps_tokens`).
-/

namespace Hexstody

namespace EthModule

variable {m m' : EthModule} {a : EthAction}

/-- The tokens that are stored are those that were last posted. -/
def Agrees (m : EthModule) : Prop := ∀ login, m.pgGetUserTokens login = m.posted.get? login

/-- The poller holds no row of the user with other tokens. -/
def HoldsOnly (m : EthModule) (login : String) (tokens : List Erc20Token) : Prop :=
  ∀ u ∈ m.poller.held, u.login = login → u.data.tokens = tokens

instance (m : EthModule) (login : String) (tokens : List Erc20Token) : Decidable (m.HoldsOnly login tokens) :=
  inferInstanceAs (Decidable (∀ u ∈ m.poller.held, _))

/-- The condition on a step: tokens that are posted are those of the row that the poller holds, if it holds one; and a user who is
created has none there. -/
def KeepsSnapshot (m : EthModule) : EthAction → Prop
  | .userCreate login _ => m.pgGetUserTokens login = none → m.HoldsOnly login []
  | .tokensPost login tokens => m.pgGetUserTokens login ≠ none → m.HoldsOnly login tokens
  | _ => True

instance (m : EthModule) (a : EthAction) : Decidable (m.KeepsSnapshot a) :=
  match a with
  | .userCreate login _ => inferInstanceAs (Decidable (m.pgGetUserTokens login = none → m.HoldsOnly login []))
  | .tokensPost login tokens => inferInstanceAs (Decidable (m.pgGetUserTokens login ≠ none → m.HoldsOnly login tokens))
  | .userRemove _ => isTrue trivial
  | .queryUsers _ => isTrue trivial
  | .queryEth _ _ => isTrue trivial
  | .queryToken _ _ => isTrue trivial
  | .updateUser => isTrue trivial
  | .finish => isTrue trivial
  | .abort => isTrue trivial

/-- The steps of the poller, but for a failure. -/
def PollerStep (_ : EthModule) : EthAction → Prop
  | .queryUsers _ => True
  | .queryEth _ _ => True
  | .queryToken _ _ => True
  | .updateUser => True
  | .finish => True
  | _ => False

/-! ## What a step does to the tokens -/

/-- The tokens of a user, after the data of one is changed. -/
theorem tokens_modify {rows : AssocMap String UserRow} {f : UserRow → UserRow} {login : String} {tokens : List Erc20Token}
    (hf : ∀ u, (f u).data.tokens = tokens) (login' : String) :
    ((rows.modify login f).get? login').map (·.data.tokens) =
      if login' = login then ((rows.get? login').map (·.data.tokens)).map (fun _ => tokens)
      else (rows.get? login').map (·.data.tokens) := by
  rw [AssocMap.get?_modify]
  by_cases h : login' = login
  · rw [if_pos h, if_pos h, Option.map_map, Option.map_map]
    exact congrArg (fun g => (rows.get? login').map g) (funext hf)
  · rw [if_neg h, if_neg h]

/-- A user is created once. -/
theorem userCreate_eq (m : EthModule) (login address : String) :
    (m.pgGetUserTokens login ≠ none ∧ m.userCreate login address = m) ∨
      (m.pgGetUserTokens login = none ∧ (m.userCreate login address).poller = m.poller ∧
        (∀ l, (m.userCreate login address).pgGetUserTokens l = if l = login then some [] else m.pgGetUserTokens l) ∧
          ∀ l, (m.userCreate login address).posted.get? l = if l = login then some [] else m.posted.get? l) := by
  unfold userCreate pgInsertUser pgGetUserTokens AssocMap.contains
  cases hrow : m.rows.get? login with
  | some row => exact Or.inl ⟨by simp, by simp⟩
  | none =>
    refine Or.inr ⟨rfl, rfl, fun l => ?_, fun l => AssocMap.get?_insert _ _ _ _⟩
    simp only [Option.isSome_none, Bool.false_eq_true, if_false]
    rw [AssocMap.get?_insert]
    by_cases hl : l = login
    · rw [if_pos hl, if_pos hl]
      rfl
    · rw [if_neg hl, if_neg hl]

/-- What the poller does: it reads the rows, or writes one that it holds, with the tokens that it read. -/
theorem updateStage_eq_some (h : m.updateStage a = some m') :
    m'.posted = m.posted ∧
      ((m'.rows = m.rows ∧
          ∀ u ∈ m'.poller.held, u ∈ m.poller.held ∨ m.pgGetUserTokens u.login = some u.data.tokens) ∨
        ∃ u, m.poller.held = u :: m'.poller.held ∧
          ∀ l, m'.pgGetUserTokens l =
            if l = u.login then (m.pgGetUserTokens l).map (fun _ => u.data.tokens) else m.pgGetUserTokens l) := by
  unfold updateStage at h
  cases a with
  | queryUsers order =>
    cases hp : m.poller with
    | idle =>
      simp only [hp] at h
      obtain rfl := Option.some.inj h
      refine ⟨rfl, Or.inl ⟨rfl, fun u hu => Or.inr ?_⟩⟩
      obtain ⟨e, he, rfl⟩ := List.mem_map.mp hu
      exact congrArg (Option.map (·.data.tokens)) (AssocMap.mem_iter_iff.mp he)
    | _ => simp [hp] at h
  | queryEth balance history =>
    cases hp : m.poller with
    | between users =>
      cases users with
      | nil => simp [hp] at h
      | cons u users =>
        simp only [hp] at h
        obtain rfl := Option.some.inj h
        exact ⟨rfl, Or.inl ⟨rfl, fun u hu => Or.inl hu⟩⟩
    | _ => simp [hp] at h
  | queryToken history balance =>
    cases hp : m.poller with
    | scanning u sbaleth sethhist stokens histTokens balTokens users =>
      cases stokens with
      | nil => simp [hp] at h
      | cons t stokens =>
        simp only [hp] at h
        obtain rfl := Option.some.inj h
        exact ⟨rfl, Or.inl ⟨rfl, fun u hu => Or.inl hu⟩⟩
    | _ => simp [hp] at h
  | updateUser =>
    cases hp : m.poller with
    | scanning u sbaleth sethhist stokens histTokens balTokens users =>
      cases stokens with
      | nil =>
        simp only [hp] at h
        obtain rfl := Option.some.inj h
        exact ⟨rfl, Or.inr ⟨u, rfl, tokens_modify fun _ => rfl⟩⟩
      | cons t stokens => simp [hp] at h
    | _ => simp [hp] at h
  | finish =>
    cases hp : m.poller with
    | between users =>
      cases users with
      | nil =>
        simp only [hp] at h
        obtain rfl := Option.some.inj h
        exact ⟨rfl, Or.inl ⟨rfl, fun u hu => Or.inl hu⟩⟩
      | cons u users => simp [hp] at h
    | _ => simp [hp] at h
  | abort =>
    obtain rfl := Option.some.inj h
    exact ⟨rfl, Or.inl ⟨rfl, fun u hu => by cases hu⟩⟩
  | _ => cases h

/-! ## The invariant -/

/-- What is stored, and what the poller will write, are the tokens that were last posted. -/
structure Kept (m : EthModule) : Prop where
  agrees : m.Agrees
  held : ∀ u ∈ m.poller.held, ∀ tokens, m.posted.get? u.login = some tokens → u.data.tokens = tokens

theorem kept_new : new.Kept where
  agrees _ := rfl
  held _ hu := by cases hu

/-- (step) A request that meets the condition keeps the invariant: the poller holds no other tokens of the user. -/
theorem Kept.request (hk : m.Kept) (hc : m.KeepsSnapshot a) (h : m.step a = some m') (hp : m.updateStage a = none) :
    m'.Kept := by
  cases a with
  | userCreate login address =>
    obtain rfl := Option.some.inj h
    rcases userCreate_eq m login address with ⟨-, heq⟩ | ⟨hfree, hpoller, htokens, hposted⟩
    · rwa [heq]
    · refine ⟨fun l => ?_, fun u hu tokens ht => ?_⟩
      · rw [htokens, hposted, hk.agrees]
      · rw [hpoller] at hu
        rw [hposted] at ht
        split at ht
        · rename_i hl
          rw [hc hfree u hu hl]
          exact Option.some.inj ht
        · exact hk.held u hu tokens ht
  | userRemove login =>
    obtain rfl := Option.some.inj h
    refine ⟨fun l => ?_, fun u hu tokens ht => ?_⟩
    · change ((m.rows.erase login).get? l).map _ = (m.posted.erase login).get? l
      rw [AssocMap.get?_erase, AssocMap.get?_erase]
      by_cases hl : l = login
      · rw [if_pos hl, if_pos hl]
        rfl
      · rw [if_neg hl, if_neg hl]
        exact hk.agrees l
    · have ht : (m.posted.erase login).get? u.login = some tokens := ht
      rw [AssocMap.get?_erase] at ht
      split at ht
      · cases ht
      · exact hk.held u hu tokens ht
  | tokensPost login tokens =>
    obtain rfl := Option.some.inj h
    refine ⟨fun l => ?_, fun u hu tokens' ht => ?_⟩
    · have hposted : (m.tokensPost login tokens).posted.get? l =
          if l = login then (m.posted.get? l).map (fun _ => tokens) else m.posted.get? l := AssocMap.get?_modify _ _ _ _
      rw [hposted, ← hk.agrees l]
      refine tokens_modify ?_ l
      exact fun _ => rfl
    · have ht : (m.posted.modify login fun _ => tokens).get? u.login = some tokens' := ht
      rw [AssocMap.get?_modify] at ht
      split at ht
      · rename_i hl
        obtain ⟨old, hold, rfl⟩ := Option.map_eq_some_iff.mp ht
        refine hc (fun hnone => ?_) u hu hl
        rw [← hk.agrees, hl, hnone] at hold
        cases hold
      · exact hk.held u hu tokens' ht
  | abort => cases hp
  | _ => exact absurd (hp.symm.trans h) (by simp)

/-- (step) The poller keeps the invariant. -/
theorem Kept.poll (hk : m.Kept) (h : m.updateStage a = some m') : m'.Kept := by
  obtain ⟨hposted, hread | ⟨u, hheld, htokens⟩⟩ := updateStage_eq_some h
  · obtain ⟨hrows, hheld⟩ := hread
    refine ⟨fun l => ?_, fun u hu tokens ht => ?_⟩
    · rw [hposted, ← hk.agrees]
      exact congrArg (fun rows => (AssocMap.get? rows l).map (·.data.tokens)) hrows
    · rw [hposted] at ht
      rcases hheld u hu with hu | hu
      · exact hk.held u hu tokens ht
      · rw [hk.agrees, ht] at hu
        exact (Option.some.inj hu).symm
  · refine ⟨fun l => ?_, fun v hv tokens ht => ?_⟩
    · rw [htokens, hposted, hk.agrees]
      by_cases hl : l = u.login
      · rw [if_pos hl]
        cases hp : m.posted.get? l with
        | none => rfl
        | some tokens => exact congrArg some (hk.held u (hheld ▸ List.mem_cons_self) tokens (hl ▸ hp))
      · rw [if_neg hl]
    · rw [hposted] at ht
      exact hk.held v (hheld ▸ List.mem_cons_of_mem _ hv) tokens ht

/-- (run) The tokens that are stored are those last posted, in every run whose steps meet the condition. -/
theorem kept_of_reachable (h : machine.Reachable KeepsSnapshot m) : m.Kept := by
  refine h.invariant ?_ ?_
  · rintro _ rfl
    exact kept_new
  · intro m a m' _ hk hc hs
    cases hp : m.updateStage a with
    | none => exact hk.request hc hs hp
    | some m₁ =>
      refine hk.poll (a := a) (hp.trans ?_)
      cases a with
      | userCreate login address => cases hp
      | userRemove login => cases hp
      | tokensPost login tokens => cases hp
      | _ => exact hp.symm.trans hs

/-! ## What the poller holds is written -/

/-- The poller alone reaches a state. -/
def PollsTo (m m' : EthModule) : Prop := (machine.startedAt m).Reachable PollerStep m'

theorem PollsTo.refl (m : EthModule) : m.PollsTo m := .init rfl

theorem PollsTo.trans {m'' : EthModule} (h : m.PollsTo m') (h' : m'.PollsTo m'') : m.PollsTo m'' :=
  Machine.Reachable.trans h h'

theorem PollsTo.single (hp : m.PollerStep a) (h : m.step a = some m') : m.PollsTo m' := .step (.init rfl) hp h

/-- What becomes of the tokens when a row that was read is written. -/
structure Writes (m m' : EthModule) (u : UserEth) (users : List UserEth) : Prop where
  polls : m.PollsTo m'
  poller : m'.poller = .between users
  posted : m'.posted = m.posted
  tokens : ∀ l, m'.pgGetUserTokens l =
    if l = u.login then (m.pgGetUserTokens l).map (fun _ => u.data.tokens) else m.pgGetUserTokens l

/-- A row whose tokens are scanned gets written. -/
theorem exists_writes_of_scanning {u : UserEth} {sbaleth : String} {sethhist : List Erc20HistUnitU}
    {stokens : List Erc20Token} {histTokens : List Erc20TokenHistory} {balTokens : List Erc20TokenBalance}
    {users : List UserEth} (h : m.poller = .scanning u sbaleth sethhist stokens histTokens balTokens users) :
    ∃ m', m.Writes m' u users := by
  induction stokens generalizing m histTokens balTokens with
  | nil =>
    let data : UserData :=
      { tokens := u.data.tokens, historyEth := sethhist, historyTokens := histTokens, balanceEth := sbaleth,
        balanceTokens := balTokens }
    have hs : m.step .updateUser = some { m.pgUpdateUserOld u.login data with poller := .between users } := by
      simp only [step, updateStage, h, data]
    exact ⟨_, .single (a := .updateUser) trivial hs, rfl, rfl, tokens_modify fun _ => rfl⟩
  | cons t stokens ih =>
    let history : Erc20TokenHistory := { token := t, history := [] }
    let balance : Erc20TokenBalance := { tokenName := t.ticker, tokenBalance := "0" }
    have hs : m.step (.queryToken history balance) = some { m with
        poller := .scanning u sbaleth sethhist stokens (histTokens ++ [history]) (balTokens ++ [balance]) users } := by
      simp only [step, updateStage, h]
    obtain ⟨m', hw⟩ := ih (m := { m with poller := _ }) rfl
    exact ⟨m', (PollsTo.single (a := .queryToken history balance) trivial hs).trans hw.polls, hw.poller, hw.posted, hw.tokens⟩

/-- The next row that was read gets written. -/
theorem exists_writes {u : UserEth} {users : List UserEth} (h : m.poller = .between (u :: users)) :
    ∃ m', m.Writes m' u users := by
  have hs : m.step (.queryEth "0" []) = some { m with poller := .scanning u "0" [] u.data.tokens [] [] users } := by
    simp only [step, updateStage, h]
  obtain ⟨m', hw⟩ := exists_writes_of_scanning (m := { m with poller := _ }) rfl
  exact ⟨m', (PollsTo.single (a := .queryEth "0" []) trivial hs).trans hw.polls, hw.poller, hw.posted, hw.tokens⟩

/-- Every row that was read gets written, with its tokens. -/
theorem exists_written {u : UserEth} (hu : u ∈ m.poller.held) :
    ∃ m', m.PollsTo m' ∧ m'.posted = m.posted ∧
      m'.pgGetUserTokens u.login = (m.pgGetUserTokens u.login).map (fun _ => u.data.tokens) := by
  have key : ∀ (users : List UserEth) (m : EthModule), m.poller = .between users → u ∈ users →
      ∃ m', m.PollsTo m' ∧ m'.posted = m.posted ∧
        m'.pgGetUserTokens u.login = (m.pgGetUserTokens u.login).map (fun _ => u.data.tokens) := by
    intro users
    induction users with
    | nil => exact fun m _ hu => by cases hu
    | cons v users ih =>
      intro m hp hu
      obtain ⟨m₁, hw⟩ := exists_writes hp
      rcases List.mem_cons.mp hu with rfl | hu
      · exact ⟨m₁, hw.polls, hw.posted, by rw [hw.tokens, if_pos rfl]⟩
      · obtain ⟨m₂, hpolls, hposted, htokens⟩ := ih m₁ hw.poller hu
        refine ⟨m₂, hw.polls.trans hpolls, hposted.trans hw.posted, ?_⟩
        rw [htokens, hw.tokens]
        split
        · rw [Option.map_map]
          rfl
        · rfl
  cases hp : m.poller with
  | idle => rw [hp] at hu; cases hu
  | between users => exact key users m hp (by rwa [hp] at hu)
  | scanning v sbaleth sethhist stokens histTokens balTokens users =>
    obtain ⟨m₁, hw⟩ := exists_writes_of_scanning hp
    rw [hp] at hu
    rcases List.mem_cons.mp hu with rfl | hu
    · exact ⟨m₁, hw.polls, hw.posted, by rw [hw.tokens, if_pos rfl]⟩
    · obtain ⟨m₂, hpolls, hposted, htokens⟩ := key users m₁ hw.poller hu
      refine ⟨m₂, hw.polls.trans hpolls, hposted.trans hw.posted, ?_⟩
      rw [htokens, hw.tokens]
      split
      · rw [Option.map_map]
        rfl
      · rfl

/-! ## The condition is exact -/

/-- A request that does not meet the condition is undone by the poller. -/
theorem exists_disagrees (hk : m.Kept) (h : m.step a = some m') (hc : ¬m.KeepsSnapshot a) :
    ∃ m'', m'.PollsTo m'' ∧ ¬m''.Agrees := by
  -- the tokens that the request stores, and the row that the poller holds instead
  have key : ∀ (login : String) (tokens : List Erc20Token), m'.poller = m.poller → ¬m.HoldsOnly login tokens →
      m'.posted.get? login = some tokens → ∃ m'', m'.PollsTo m'' ∧ ¬m''.Agrees := by
    intro login tokens hpoller hholds hposted
    unfold HoldsOnly at hholds
    push Not at hholds
    obtain ⟨u, hu, rfl, hne⟩ := hholds
    obtain ⟨m'', hpolls, hposted', htokens⟩ := exists_written (hpoller ▸ hu : u ∈ m'.poller.held)
    refine ⟨m'', hpolls, fun hag => hne ?_⟩
    have hval := hag u.login
    rw [htokens, hposted', hposted] at hval
    obtain ⟨-, -, heq⟩ := Option.map_eq_some_iff.mp hval
    exact heq
  cases a with
  | userCreate login address =>
    obtain rfl := Option.some.inj h
    rcases userCreate_eq m login address with ⟨htaken, -⟩ | ⟨hfree, hpoller, -, hposted⟩
    · exact absurd (fun hnone => absurd hnone htaken) hc
    · exact key login [] hpoller (fun hholds => hc fun _ => hholds) (by rw [hposted, if_pos rfl])
  | tokensPost login tokens =>
    obtain rfl := Option.some.inj h
    by_cases hnone : m.pgGetUserTokens login = none
    · exact absurd (fun hne => absurd hnone hne) hc
    · refine key login tokens rfl (fun hholds => hc fun _ => hholds) ?_
      obtain ⟨old, hold⟩ := Option.ne_none_iff_exists'.mp hnone
      rw [hk.agrees] at hold
      change (m.posted.modify login fun _ => tokens).get? login = some tokens
      rw [AssocMap.get?_modify_self, hold]
      rfl
  | _ => exact absurd trivial hc

/-- (run) The poller alone keeps the invariant. -/
theorem Kept.pollsTo (hk : m.Kept) (h : m.PollsTo m') : m'.Kept := by
  refine Machine.Reachable.invariant (I := Kept) h ?_ ?_
  · rintro _ rfl
    exact hk
  · intro m a m' _ hk hp hs
    refine hk.poll (a := a) ?_
    cases a with
    | userCreate login address => exact hp.elim
    | userRemove login => exact hp.elim
    | tokensPost login tokens => exact hp.elim
    | _ => exact hs

/-- In every run whose steps meet the condition the tokens that are stored are those last posted. A further step keeps that in every
state that the poller then reaches exactly when it meets the condition too. -/
theorem polling_keeps_tokens (m : EthModule) (h : machine.Reachable KeepsSnapshot m) :
    m.Agrees ∧ ∀ (a : EthAction) (m' : EthModule), m.step a = some m' →
      (m.KeepsSnapshot a ↔ ∀ m'', m'.PollsTo m'' → m''.Agrees) := by
  refine ⟨(kept_of_reachable h).agrees, fun a m' hs => ⟨fun hc m'' hp => ?_, fun hall => ?_⟩⟩
  · exact ((kept_of_reachable (.step h hc hs)).pollsTo hp).agrees
  · by_contra hc
    obtain ⟨m'', hp, hag⟩ := exists_disagrees (kept_of_reachable h) hs hc
    exact hag (hall m'' hp)

end EthModule

namespace Sample

def usdt : Erc20Token := { ticker := "USDT", name := "USDT", contract := "0xdAC1" }

def gtech : Erc20Token := { ticker := "GTECH", name := "GTECH", contract := "0x866A" }

/-- Alice has a token, and the poller has read her row. -/
def rowRead : List EthAction :=
  [.userCreate "alice" "0x9297", .tokensPost "alice" [usdt], .queryUsers .stored, .queryEth "0" []]

/-- The poller scans the token and writes the row. -/
def rowWritten : List EthAction :=
  [.queryToken { token := usdt, history := [] } { tokenName := "USDT", tokenBalance := "0" }, .updateUser]

end Sample

namespace EthModule

/-- A second token that is posted when the row is written stays. -/
theorem polling_keeps_tokens_after : ∃ m : EthModule, m.pgGetUserTokens "alice" = some [Sample.usdt, Sample.gtech] ∧ m.Agrees := by
  obtain ⟨m, hm, hq⟩ := Machine.exists_reachable (M := machine) (P := KeepsSnapshot)
    (Sample.rowRead ++ Sample.rowWritten ++ [.tokensPost "alice" [Sample.usdt, Sample.gtech], .finish, .queryUsers .stored])
    (q := fun m => decide (m.pgGetUserTokens "alice" = some [Sample.usdt, Sample.gtech])) rfl (by decide)
  exact ⟨m, of_decide_eq_true hq, (polling_keeps_tokens m hm).1⟩

/-- A second token that is posted while the poller scans the first is gone when the row is written. -/
theorem polling_undoes_post : ¬∀ m : EthModule, machine.Reachable Machine.anyStep m → m.Agrees := by
  intro h
  obtain ⟨m, hm, hq⟩ := Machine.exists_reachable (M := machine) (P := Machine.anyStep)
    (Sample.rowRead ++ [.tokensPost "alice" [Sample.usdt, Sample.gtech]] ++ Sample.rowWritten)
    (q := fun m => decide (m.pgGetUserTokens "alice" ≠ m.posted.get? "alice")) rfl (by decide)
  exact of_decide_eq_true hq (h m hm "alice")

end EthModule

end Hexstody
