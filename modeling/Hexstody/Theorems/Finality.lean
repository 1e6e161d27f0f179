import Hexstody.Lemmas.Following

/-!
# Whether a deposit becomes final

`listsinceblock` lists a transaction for the last time when its block is new, and each scan asks for what is new since the scan
before. So what the State has recorded of a confirmed deposit is the number of confirmations that it had at the first scan after
its block: with a scan for every block that is one, and it stays one, however deep the block is buried. In every run in which no
deposit of a user is told with one, two or three confirmations, each that has more than three is recorded so
(`deposits_become_final`), however many blocks pass between the scans.
-/

namespace Hexstody

open State Wallet

/-- The address is somebody's deposit address. -/
def State.hasOwner (s : State) (a : Address) : Bool := s.users.values.any (·.hasAddress (btcAddress a))

/-- The event tells no deposit of a user with one, two or three confirmations. -/
def State.ToldOutright (s : State) : BtcEvent → Prop
  | .update upd => upd.direction = .deposit → s.hasOwner upd.address = true → upd.confirmations = 0 ∨ 3 < upd.confirmations
  | .cancel _ => True

instance (s : State) (e : BtcEvent) : Decidable (s.ToldOutright e) := by
  unfold State.ToldOutright
  split <;> exact inferInstance

namespace Following

/-- Once the events of all scans are applied, each deposit of a user that had more than three confirmations at the last scan is
recorded as final. -/
def DepositsFinal (m : Following) : Prop :=
  m.scan.events = [] → ∀ e ∈ m.seen.entries, e.category = .receive → ∀ a, e.address = some a → ∀ u, m.state.Owns u a →
    3 < e.confirmations → ∃ r, .btc r ∈ m.state.deposits u ∧ e.IsOf r ∧ (Transaction.btc r).isFinalized = true

/-- The step tells no deposit of a user with one, two or three confirmations. -/
def TellsOutright {Γ : Blockchain} (m : Following) : FollowingAction Γ → Prop
  | .apply _ _ => ∀ e ∈ m.scan.events.head?, m.state.ToldOutright e
  | _ => True

instance {Γ : Blockchain} (m : Following) (a : FollowingAction Γ) : Decidable (m.TellsOutright a) :=
  match a with
  | .apply _ _ => inferInstanceAs (Decidable (∀ e ∈ m.scan.events.head?, m.state.ToldOutright e))
  | .node _ _ | .scan _ _ | .update _ _ => isTrue trivial

end Following

/-! ## The two invariants -/

theorem State.hasOwner_of_owns {s : State} {u : UserId} {a : Address} (h : s.Owns u a) : s.hasOwner a = true := by
  obtain ⟨i, hi, ha⟩ := h
  obtain ⟨user, huser, hc⟩ := Option.bind_eq_some_iff.mp hi
  refine List.any_eq_true.mpr ⟨user, (AssocMap.mem_values_iff _ _).mpr ⟨u, huser⟩, ?_⟩
  unfold UserInfo.hasAddress
  rw [show (btcAddress a).currency = .btc from rfl, hc]
  simpa [UserCurrencyInfo.hasAddress] using ha

namespace Wallet

variable {Γ : Blockchain} {n n' : Wallet} {es : List BtcEvent} {s s' : State} {told : List BtcEvent}
  {e : ListTransactionResult} {a : Address}

/-- The address was told, and whoever has it has a record of the deposit that is final. -/
structure FinalIn (e : ListTransactionResult) (a : Address) (s : State) (told : List BtcEvent) : Prop where
  told : ∃ x ∈ told, x.address = a
  recorded : ∀ u, s.Owns u a → ∃ r, .btc r ∈ s.deposits u ∧ e.IsOf r ∧ 3 < r.confirmations

/-- Every confirmed deposit is final in the State. -/
def AllFinal (n : Wallet) (s : State) (told : List BtcEvent) : Prop :=
  ∀ e ∈ n.entries, e.category = .receive → ∀ a, e.address = some a → 0 < e.confirmations → FinalIn e a s told

/-- While some events are left, every confirmed deposit is told by one of them, or is final in the State and is not cancelled. -/
def FinalMeanwhile (_ n' : Wallet) (es : List BtcEvent) (s : State) (told : List BtcEvent) : Prop :=
  ∀ e ∈ n'.entries, e.category = .receive → ∀ a, e.address = some a → 0 < e.confirmations →
    .update (e.deposit a) ∈ es ∨ (FinalIn e a s told ∧ ∀ c, .cancel c ∈ es → c.txid ≠ e.txid)

/-- A transaction in a block is beyond another block, or its block is that block or an ancestor of it. -/
theorem upTo_cases {b : BlockHash} {t : Txid} (h : Γ.upTo b t = true) (b' : BlockHash) :
    Γ.beyond b b' t = true ∨ ∃ k ∈ Γ.ancestry b, k ∈ Γ.ancestry b' ∧ t ∈ Γ.contents k := by
  obtain ⟨k, hk, ht⟩ := List.any_eq_true.mp h
  by_cases hb : k ∈ Γ.ancestry b'
  · exact Or.inr ⟨k, hk, hb, List.contains_iff_mem.mp ht⟩
  · refine Or.inl (List.any_eq_true.mpr ⟨k, hk, ?_⟩)
    rw [Bool.and_eq_true, Bool.not_eq_true']
    exact ⟨ht, by simpa using hb⟩

/-- (step) A scan begins to be applied. -/
theorem AllFinal.start (hscan : Scanned Γ n n' es) (h : n.AllFinal s told) : FinalMeanwhile n n' es s told := by
  intro e he hc a ha hpos
  rcases upTo_cases ((hscan.after.confirmed e he).mp hpos) n.best with hbeyond | ⟨k, hk, hk', ht⟩
  · refine Or.inl (hscan.update_mem he hc ha (Int32.le_of_lt hpos) ?_)
    unfold since
    rw [hbeyond, Bool.or_true]
  · -- the wallet had it confirmed at the scan before, in the same block
    obtain ⟨e₀, he₀, hc₀, htxid, hvout, ha₀⟩ := hscan.before.known k hk' _ ht _ (hscan.after.output e he hc a ha)
    have hup : Γ.upTo n.best e₀.txid = true := List.any_eq_true.mpr ⟨k, hk', by rw [htxid]; exact List.contains_iff_mem.mpr ht⟩
    have hfinal := h e₀ he₀ hc₀ a ha₀ ((hscan.before.confirmed e₀ he₀).mpr hup)
    refine Or.inr ⟨⟨hfinal.told, fun u hu => ?_⟩, fun c hin heq => ?_⟩
    · obtain ⟨r, hr, his, h3⟩ := hfinal.recorded u hu
      exact ⟨r, hr, ⟨hc, htxid.symm.trans his.2.1, hvout.symm.trans his.2.2.1, (ha.trans ha₀.symm).trans his.2.2.2⟩, h3⟩
    · obtain ⟨k', hk₂, hb⟩ := List.any_eq_true.mp (hscan.of_cancel hin)
      rw [Bool.and_eq_true, Bool.not_eq_true'] at hb
      have hsame : k = k' := Γ.contents_once n.best k k' e.txid hk' hk₂ ht (heq ▸ List.contains_iff_mem.mp hb.1)
      rw [← hsame, List.contains_iff_mem.mpr hk] at hb
      cases hb.2

/-- A deposit that is told outright, and is confirmed, is recorded as final. -/
theorem final_of_told {u : UserId} (ht : s.ToldOutright (.update (e.deposit a))) (hu : s.Owns u a) (hpos : 0 < e.confirmations) :
    3 < (BtcEvent.toBtcTransaction (e.deposit a)).confirmations := by
  rcases ht rfl (hasOwner_of_owns hu) with hz | h3
  · have hzero : e.confirmations = 0 := (confirmations_eq_zero (Int32.le_of_lt hpos)).mp hz
    rw [hzero] at hpos
    exact absurd hpos Int32.lt_irrefl
  · exact h3

/-- (step) A deposit is told. -/
theorem FinalMeanwhile.deposit {upd : TxUpdate} (hu : Underway Γ n n' (.update upd :: es)) (hs : s.Sound Γ)
    (ht : s.ToldOutright (.update upd)) (hdir : upd.direction = .deposit)
    (h : FinalMeanwhile n n' (.update upd :: es) s told) (hd : s.Deposited s' (BtcEvent.toBtcTransaction upd)) :
    FinalMeanwhile n n' es s' (told ++ [.update upd]) := by
  intro e he hc a ha hpos
  -- the record of the deposit, where it is the one that is told
  have hthis : upd = e.deposit a → ∀ u, s.Owns u a →
      ∃ r, .btc r ∈ s'.deposits u ∧ e.IsOf r ∧ 3 < r.confirmations := by
    rintro rfl u hown
    refine ⟨BtcEvent.toBtcTransaction (e.deposit a), ?_, ⟨hc, rfl, rfl, ha⟩, final_of_told ht hown hpos⟩
    rw [hd.owner u hown, mem_recorded (hs.keys u)]
    exact Or.inl rfl
  rcases h e he hc a ha hpos with hin | ⟨hfinal, hcancel⟩
  · rcases List.mem_cons.mp hin with heq | hin
    · obtain rfl := BtcEvent.update.inj heq
      refine Or.inr ⟨⟨⟨_, List.mem_append_right _ (List.mem_singleton_self _), rfl⟩, fun u hown => ?_⟩, fun c hin => ?_⟩
      · exact hthis rfl u ((hd.addresses.owns u a).mp hown)
      · exact absurd hin (hu.no_cancel c)
    · exact Or.inl hin
  · obtain ⟨x, hx, hxa⟩ := hfinal.told
    refine Or.inr ⟨⟨⟨x, List.mem_append_left _ hx, hxa⟩, fun u hown => ?_⟩, fun c hin => hcancel c (List.mem_cons_of_mem _ hin)⟩
    have hown := (hd.addresses.owns u a).mp hown
    obtain ⟨r, hr, his, h3⟩ := hfinal.recorded u hown
    by_cases hother : s.Owns u upd.address ∧ r.key = (BtcEvent.toBtcTransaction upd).key
    · -- the wallet lists an output once, so it is this deposit that is told again
      obtain ⟨e', he', hc', ha', -, heq⟩ := hu.of_update List.mem_cons_self hdir
      have hn' : n'.Documented Γ := by
        obtain ⟨pre, hscan⟩ := hu
        exact hscan.after
      have hkey : (e.txid, e.vout) = (e'.txid, e'.vout) := by
        rw [his.2.1, his.2.2.1]
        refine hother.2.trans ?_
        rw [heq]
        rfl
      obtain ⟨htxid, hvout⟩ := Prod.mk.inj hkey
      have haddr : a = upd.address := by
        refine Γ.output_unique e.txid e.vout a upd.address (hn'.output e he hc a ha) ?_
        rw [htxid, hvout]
        exact hn'.output e' he' hc' _ ha'
      have hsame : e = e' := hn'.once e he e' he' ⟨hc, hc', htxid.symm, hvout.symm, ha'.trans (haddr ▸ ha.symm)⟩
      exact hthis (by rw [heq, hsame, haddr]) u hown
    · refine ⟨r, ?_, his, h3⟩
      by_cases hown' : s.Owns u upd.address
      · rw [hd.owner u hown', mem_recorded (hs.keys u)]
        exact Or.inr ⟨hr, fun hk => hother ⟨hown', hk⟩⟩
      · rw [hd.other u hown']
        exact hr

/-- (step) A cancellation is told. -/
theorem FinalMeanwhile.cancel {c : BtcTxCancel} (hs : s.Sound Γ) (h : FinalMeanwhile n n' (.cancel c :: es) s told)
    (hd : s.Undeposited s' c) : FinalMeanwhile n n' es s' (told ++ [.cancel c]) := by
  intro e he hc a ha hpos
  rcases h e he hc a ha hpos with hin | ⟨hfinal, hcancel⟩
  · rcases List.mem_cons.mp hin with heq | hin
    · cases heq
    · exact Or.inl hin
  · obtain ⟨x, hx, hxa⟩ := hfinal.told
    refine Or.inr ⟨⟨⟨x, List.mem_append_left _ hx, hxa⟩, fun u hown => ?_⟩, fun c hin => hcancel c (List.mem_cons_of_mem _ hin)⟩
    obtain ⟨r, hr, his, h3⟩ := hfinal.recorded u ((hd.addresses.owns u a).mp hown)
    refine ⟨r, ?_, his, h3⟩
    by_cases hown' : s.Owns u c.address
    · rw [hd.owner u hown', mem_unrecorded (hs.keys u)]
      refine ⟨hr, fun hk => hcancel c List.mem_cons_self ?_⟩
      exact (congrArg Prod.fst hk).symm.trans his.2.1.symm
    · rw [hd.other u hown']
      exact hr

/-- What is final stays so when an address is given out that was not told before. -/
theorem FinalIn.onlyGivesOut {up : StateUpdate} (h : FinalIn e a s told) (hg : s.OnlyGivesOut s' up)
    (hnew : ∀ u a, up.body = .depositAddress { userId := u, address := btcAddress a } → ∀ x ∈ told, x.address ≠ a) :
    FinalIn e a s' told := by
  refine ⟨h.told, fun u hu => ?_⟩
  rcases hg.given u a hu with hu | hb
  · obtain ⟨r, hr, his, h3⟩ := h.recorded u hu
    exact ⟨r, by rwa [hg.deposits], his, h3⟩
  · obtain ⟨x, hx, hxa⟩ := h.told
    exact absurd hxa (hnew u a hb x hx)

/-- The invariants meet the rules. -/
theorem final_rules (Γ : Blockchain) : Rules Γ (fun _ _ => True) ToldOutright AllFinal FinalMeanwhile where
  init now genesis e he := by cases he
  start _ _ _ _ _ hscan _ _ h := h.start hscan
  finish n n' s told h e he hc a ha hpos := by
    rcases h e he hc a ha hpos with hin | ⟨hfinal, -⟩
    · cases hin
    · exact hfinal
  deposit _ _ _ _ _ _ _ hu hs ht hdir h hd := h.deposit hu hs ht hdir hd
  withdraw n n' upd es s told hdir h e he hc a ha hpos := by
    rcases h e he hc a ha hpos with hin | ⟨hfinal, hcancel⟩
    · rcases List.mem_cons.mp hin with heq | hin
      · obtain rfl := BtcEvent.update.inj heq
        cases hdir
      · exact Or.inl hin
    · obtain ⟨x, hx, hxa⟩ := hfinal.told
      exact Or.inr ⟨⟨⟨x, List.mem_append_left _ hx, hxa⟩, hfinal.recorded⟩, fun c hin => hcancel c (List.mem_cons_of_mem _ hin)⟩
  cancel _ _ _ _ _ _ _ _ hs h hd := h.cancel hs hd
  other n n' es s s' told up hg hnew h e he hc a ha hpos := by
    rcases h e he hc a ha hpos with hin | ⟨hfinal, hcancel⟩
    · exact Or.inl hin
    · exact Or.inr ⟨hfinal.onlyGivesOut hg hnew, hcancel⟩
  otherSettled n s s' told up hg hnew h e he hc a ha hpos := (h e he hc a ha hpos).onlyGivesOut hg hnew

end Wallet

namespace Following

variable {Γ : Blockchain} {m : Following}

/-- Deposits become final: in every run of the node, the scans and the updates in which no deposit of a user is told with one, two
or three confirmations, whenever all events are applied. -/
theorem deposits_become_final (h : (machine Γ).Reachable TellsOutright m) : m.DepositsFinal := by
  have hm := (final_rules Γ).follows h (fun _ _ _ _ => trivial) (fun m o t e es hP hes => hP e (by rw [hes]; rfl))
  intro hnil e he hc a ha u hu h3
  have hset := (final_rules Γ).settled_of_nil hm.sound hm.position hnil
  have hpos : 0 < e.confirmations := Int32.lt_trans (by decide) h3
  obtain ⟨r, hr, his, hr3⟩ := (hset e he hc a ha hpos).recorded u hu
  exact ⟨r, hr, his, decide_eq_true hr3⟩

/-- A deposit is seen unconfirmed, and then four blocks pass before the next scan: it is recorded as final. -/
theorem deposits_become_final_late : ∃ m : Following,
    m.seen.entries = [Sample.listed "in" 4 []] ∧ m.scan.events = [] ∧ m.DepositsFinal := by
  obtain ⟨m, hm, hq⟩ := Machine.exists_reachable (M := machine (Sample.chain "in")) (P := TellsOutright)
    (Sample.arrival ++
      .node (Sample.wallet "b0" [Sample.listed "in" 0 []]) (by decide +kernel) ::
      Sample.scanned "b0" [Sample.listed "in" 0 []] 1 ++
      .node (Sample.wallet "b4" [Sample.listed "in" 4 []]) (by decide +kernel) ::
      Sample.scanned "b4" [Sample.listed "in" 4 []] 1)
    (q := fun m : Following => m.seen.entries == [Sample.listed "in" 4 []] && m.scan.events.isEmpty)
    (Sample.following_init "in") (by decide +kernel)
  simp only [Bool.and_eq_true, beq_iff_eq, List.isEmpty_iff] at hq
  exact ⟨m, hq.1, hq.2, deposits_become_final hm⟩

/-- A deposit is seen in a block, and three blocks later it still has the one confirmation that it was recorded with. -/
theorem deposit_never_final : ¬∀ (Γ : Blockchain) (m : Following),
    (machine Γ).Reachable Machine.anyStep m → m.DepositsFinal := by
  intro h
  obtain ⟨m, hm, hq⟩ := Machine.exists_reachable (M := machine (Sample.chain "in")) (P := Machine.anyStep)
    (Sample.arrival ++
      .node (Sample.wallet "b1" [Sample.listed "in" 1 []]) (by decide +kernel) ::
      Sample.scanned "b1" [Sample.listed "in" 1 []] 1 ++
      .node (Sample.wallet "b4" [Sample.listed "in" 4 []]) (by decide +kernel) ::
      Sample.scanned "b4" [] 0)
    (q := fun m : Following => m.seen.entries == [Sample.listed "in" 4 []] && m.scan.events.isEmpty &&
      (m.state.currency? Sample.alice .btc).any (fun i => i.depositInfo.contains (btcAddress ⟨"addr"⟩)) &&
      m.state.deposits Sample.alice == [.btc (BtcEvent.toBtcTransaction ((Sample.listed "in" 1 []).deposit ⟨"addr"⟩))])
    (Sample.following_init "in") (by decide +kernel)
  simp only [Bool.and_eq_true, beq_iff_eq, List.isEmpty_iff] at hq
  obtain ⟨⟨⟨hseen, hnil⟩, howner⟩, hdep⟩ := hq
  obtain ⟨i, hi, ha⟩ := (Option.any_eq_true _ _).mp howner
  obtain ⟨r, hr, -, hfinal⟩ := h _ m hm hnil (Sample.listed "in" 4 []) (by rw [hseen]; exact List.mem_singleton_self _) rfl
    ⟨"addr"⟩ rfl Sample.alice ⟨i, hi, List.contains_iff_mem.mp ha⟩ (by decide)
  rw [hdep] at hr
  obtain rfl := Transaction.btc.inj (List.mem_singleton.mp hr)
  exact absurd hfinal (by decide +kernel)

end Following

end Hexstody
