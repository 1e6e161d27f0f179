import Hexstody.Lemmas.Following

/-!
# Whether two conflicting deposits are both counted

Of two transactions that conflict the wallet shows each as the other's conflict while both are unconfirmed, and once one of them is
confirmed, it shows the other with negative confirmations. A scan tells the first, and drops the second (`to_update_event`): what
the State has recorded of a transaction that is replaced stays as it was last seen. So where that was unconfirmed and without
conflicts, it is still counted. In every run in which no scan meets a transaction replaced that the scan before saw so, no two
conflicting records are both counted (`conflicting_not_both_counted`), also while the events of a scan are only partly applied.
-/

namespace Hexstody

open State Wallet

/-- The record is counted by the balance. -/
def BtcTransaction.IsCounted (r : BtcTransaction) : Prop := (Transaction.btc r).isConflicted = false

/-- The event changes the record, where the record is with the user who has its address. -/
def BtcEvent.Concerns (r : BtcTransaction) : BtcEvent → Prop
  | .update upd => upd.direction = .deposit ∧ (upd.txid, upd.vout) = r.key ∧ upd.address = r.address
  | .cancel c => c.key = r.key ∧ c.address = r.address

/-- A scan meets no transaction replaced that the scan before saw unconfirmed and without conflicts. -/
def Wallet.ShowsReplacements (n n' : Wallet) : Prop :=
  ∀ e ∈ n.entries, ∀ e' ∈ n'.entries, e.SameOutput e' → e'.confirmations < 0 → ¬(e.confirmations = 0 ∧ e.walletConflicts = [])

instance (n n' : Wallet) : Decidable (n.ShowsReplacements n') :=
  inferInstanceAs (Decidable (∀ e ∈ n.entries, ∀ e' ∈ n'.entries, _ → _ → ¬(_ ∧ _)))

namespace Following

/-- No two records of a user that conflict, as one of them or the node says, are both counted. -/
def NoDoubleCredit (m : Following) : Prop :=
  ∀ u r₁ r₂, .btc r₁ ∈ m.state.deposits u → .btc r₂ ∈ m.state.deposits u →
    (r₂.txid ∈ r₁.conflicts ∨ ∃ e ∈ m.node.entries, e.txid = r₁.txid ∧ r₂.txid ∈ e.walletConflicts) →
    ¬(r₁.IsCounted ∧ r₂.IsCounted)

/-- The step is no scan that meets such a replacement. -/
def SeesReplacements {Γ : Blockchain} (m : Following) : FollowingAction Γ → Prop
  | .scan (.ok _) _ => m.seen.ShowsReplacements m.node
  | _ => True

instance {Γ : Blockchain} (m : Following) (a : FollowingAction Γ) : Decidable (m.SeesReplacements a) := by
  unfold SeesReplacements
  split <;> exact inferInstance

end Following

/-! ## The two invariants -/

namespace Wallet

variable {Γ : Blockchain} {n n' : Wallet} {r r₁ r₂ : BtcTransaction}

/-- The wallet has the output of a record; and if the record is counted, the output is confirmed, or unconfirmed and without
conflicts. -/
def Backs (n : Wallet) (r : BtcTransaction) : Prop :=
  ∃ e ∈ n.entries, e.IsOf r ∧ (r.IsCounted → 0 ≤ e.confirmations ∧ (e.confirmations = 0 → e.walletConflicts = []))

/-- The wallet has backed all that is recorded. -/
def BacksAll (n : Wallet) (s : State) (_ : List BtcEvent) : Prop := ∀ u r, .btc r ∈ s.deposits u → n.Backs r

/-- While some events are left, each record is backed by the wallet as it is now, or one of the events concerns it; it is backed by
the wallet as it is or as it was, and as it was while there are cancellations left. -/
structure BacksMeanwhile (n n' : Wallet) (es : List BtcEvent) (s : State) (_ : List BtcEvent) : Prop where
  backed : ∀ u r, .btc r ∈ s.deposits u → n.Backs r ∨ n'.Backs r
  pending : ∀ u r, .btc r ∈ s.deposits u → n'.Backs r ∨ ∃ x ∈ es, x.Concerns r
  cancels : (∃ c, .cancel c ∈ es) → ∀ u r, .btc r ∈ s.deposits u → n.Backs r

/-- A counted record that the wallet backs conflicts with nothing that the wallet lists without negative confirmations. -/
theorem Backs.no_conflict {e : ListTransactionResult} (hn : n.Documented Γ) (h : n.Backs r₁) (hcount : r₁.IsCounted)
    (he : e ∈ n.entries) (hconf : Γ.conflict r₁.txid e.txid = true) : e.confirmations < 0 := by
  obtain ⟨e₁, he₁, his, hb⟩ := h
  obtain ⟨h0, hnone⟩ := hb hcount
  have hc : Γ.conflict e₁.txid e.txid = true := his.2.1 ▸ hconf
  have hin := hn.walletConflicts e₁ he₁ e he hc
  -- it has a conflict, so it is confirmed
  have hne : e₁.confirmations ≠ 0 := fun hz => by
    rw [hnone hz] at hin
    cases hin
  refine hn.conflicted e₁ he₁ e he hc ?_
  exact Std.lt_of_le_of_ne h0 (Ne.symm hne)

/-- Two counted records that one wallet backs do not conflict. -/
theorem Backs.apart (hn : n.Documented Γ) (h₁ : n.Backs r₁) (h₂ : n.Backs r₂) (hc₁ : r₁.IsCounted) (hc₂ : r₂.IsCounted) :
    Γ.conflict r₁.txid r₂.txid ≠ true := by
  intro hconf
  obtain ⟨e₂, he₂, his, hb⟩ := h₂
  have hneg := h₁.no_conflict hn hc₁ he₂ (his.2.1.symm ▸ hconf)
  exact absurd hneg (Int32.not_lt.mpr (hb hc₂).1)

theorem beyond_of_upTo {b b' : BlockHash} {t : Txid} (h : Γ.upTo b t = true) (h' : ¬Γ.upTo b' t = true) :
    Γ.beyond b b' t = true := by
  obtain ⟨k, hk, ht⟩ := List.any_eq_true.mp h
  refine List.any_eq_true.mpr ⟨k, hk, ?_⟩
  rw [Bool.and_eq_true, Bool.not_eq_true']
  refine ⟨ht, ?_⟩
  by_contra hb
  exact h' (List.any_eq_true.mpr ⟨k, by simpa using hb, ht⟩)

/-- (step) A scan begins to be applied. -/
theorem BacksAll.start {es : List BtcEvent} {s : State} {told : List BtcEvent} (hscan : Scanned Γ n n' es)
    (hC : n.ShowsReplacements n') (h : n.BacksAll s told) : BacksMeanwhile n n' es s told := by
  refine ⟨fun u r hr => Or.inl (h u r hr), fun u r hr => ?_, fun _ => h⟩
  obtain ⟨e, he, his, hb⟩ := h u r hr
  obtain ⟨e', he', hsame⟩ := hscan.keeps e he his.1
  have his' : e'.IsOf r :=
    ⟨hsame.2.1, hsame.2.2.1.trans his.2.1, hsame.2.2.2.1.trans his.2.2.1, hsame.2.2.2.2.trans his.2.2.2⟩
  have hkey : (e'.txid, e'.vout) = r.key := by rw [his'.2.1, his'.2.2.1]; rfl
  rcases Std.lt_trichotomy e'.confirmations 0 with hneg | hz | hpos
  · by_cases hcount : r.IsCounted
    · -- it was confirmed, so it is among what is cancelled
      obtain ⟨h0, hnone⟩ := hb hcount
      have hpos : 0 < e.confirmations := by
        refine Std.lt_of_le_of_ne h0 (fun hz => ?_)
        exact hC e he e' he' hsame hneg ⟨hz.symm, hnone hz.symm⟩
      have hup : Γ.upTo n.best e'.txid = true := by
        rw [hsame.2.2.1]
        exact (hscan.before.confirmed e he).mp hpos
      have hnot : ¬Γ.upTo n'.best e'.txid = true := fun hup' =>
        Int32.lt_irrefl (Int32.lt_trans hneg ((hscan.after.confirmed e' he').mpr hup'))
      exact Or.inr ⟨_, hscan.cancel_mem he' his'.1 his'.2.2.2 (beyond_of_upTo hup hnot), hkey, rfl⟩
    · exact Or.inl ⟨e', he', his', fun hc => absurd hc hcount⟩
  · have hsince : n'.since Γ n.best e' = true := by
      unfold since
      rw [hz]
      rfl
    refine Or.inr ⟨_, hscan.update_mem he' his'.1 his'.2.2.2 ?_ hsince, rfl, hkey, rfl⟩
    rw [hz]
    exact Int32.le_refl 0
  · refine Or.inl ⟨e', he', his', fun _ => ⟨Int32.le_of_lt hpos, fun hz => ?_⟩⟩
    rw [hz] at hpos
    exact absurd hpos (Int32.lt_irrefl)

variable {es : List BtcEvent} {s s' : State} {told : List BtcEvent}

/-- (step) A deposit is told. -/
theorem BacksMeanwhile.deposit {upd : TxUpdate} (hu : Underway Γ n n' (.update upd :: es)) (hs : s.Sound Γ)
    (hdir : upd.direction = .deposit) (h : BacksMeanwhile n n' (.update upd :: es) s told)
    (hd : s.Deposited s' (BtcEvent.toBtcTransaction upd)) : BacksMeanwhile n n' es s' (told ++ [.update upd]) := by
  -- a record afterwards is the new one, or one from before that the update does not concern
  have key : ∀ u r, .btc r ∈ s'.deposits u → r = BtcEvent.toBtcTransaction upd ∨
      (.btc r ∈ s.deposits u ∧ ¬(BtcEvent.update upd).Concerns r) := by
    intro u r hr
    by_cases hown : s.Owns u upd.address
    · rw [hd.owner u hown, mem_recorded (hs.keys u)] at hr
      rcases hr with rfl | ⟨hr, hne⟩
      · exact Or.inl rfl
      · exact Or.inr ⟨hr, fun hcon => hne hcon.2.1.symm⟩
    · rw [hd.other u hown] at hr
      exact Or.inr ⟨hr, fun hcon => hown (hcon.2.2 ▸ hs.owner u r hr)⟩
  -- the new one is backed
  have hnew : n'.Backs (BtcEvent.toBtcTransaction upd) := by
    obtain ⟨e, he, hc, ha, h0, heq⟩ := hu.of_update List.mem_cons_self hdir
    refine ⟨e, he, ⟨hc, ?_, ?_, ha⟩, fun hcount => ⟨h0, fun hz => ?_⟩⟩
    · rw [heq]
      rfl
    · rw [heq]
      rfl
    · unfold BtcTransaction.IsCounted Transaction.isConflicted at hcount
      rw [heq] at hcount
      have hzero : (e.deposit upd.address).confirmations = 0 := (confirmations_eq_zero h0).mpr hz
      simp only [BtcEvent.toBtcTransaction, hzero, beq_self_eq_true, Bool.true_and, Bool.not_eq_false', List.isEmpty_iff] at hcount
      exact hcount
  refine ⟨fun u r hr => ?_, fun u r hr => ?_, fun hcancel => hcancel.elim fun c hc => absurd hc (hu.no_cancel c)⟩
  · rcases key u r hr with rfl | ⟨hr, -⟩
    · exact Or.inr hnew
    · exact h.backed u r hr
  · rcases key u r hr with rfl | ⟨hr, hnot⟩
    · exact Or.inl hnew
    · rcases h.pending u r hr with hb | ⟨x, hx, hcon⟩
      · exact Or.inl hb
      · rcases List.mem_cons.mp hx with rfl | hx
        · exact absurd hcon hnot
        · exact Or.inr ⟨x, hx, hcon⟩

/-- (step) A cancellation is told. -/
theorem BacksMeanwhile.cancel {c : BtcTxCancel} (hs : s.Sound Γ) (h : BacksMeanwhile n n' (.cancel c :: es) s told)
    (hd : s.Undeposited s' c) : BacksMeanwhile n n' es s' (told ++ [.cancel c]) := by
  have key : ∀ u r, .btc r ∈ s'.deposits u → .btc r ∈ s.deposits u ∧ ¬(BtcEvent.cancel c).Concerns r := by
    intro u r hr
    by_cases hown : s.Owns u c.address
    · rw [hd.owner u hown, mem_unrecorded (hs.keys u)] at hr
      exact ⟨hr.1, fun hcon => hr.2 hcon.1.symm⟩
    · rw [hd.other u hown] at hr
      exact ⟨hr, fun hcon => hown (hcon.2 ▸ hs.owner u r hr)⟩
  refine ⟨fun u r hr => h.backed u r (key u r hr).1, fun u r hr => ?_, fun _ u r hr => ?_⟩
  · obtain ⟨hr, hnot⟩ := key u r hr
    rcases h.pending u r hr with hb | ⟨x, hx, hcon⟩
    · exact Or.inl hb
    · rcases List.mem_cons.mp hx with rfl | hx
      · exact absurd hcon hnot
      · exact Or.inr ⟨x, hx, hcon⟩
  · exact h.cancels ⟨c, List.mem_cons_self⟩ u r (key u r hr).1

/-- The invariants meet the rules. -/
theorem backs_rules (Γ : Blockchain) : Rules Γ ShowsReplacements (fun _ _ => True) BacksAll BacksMeanwhile where
  init now genesis u r hr := by cases hr
  start _ _ _ _ _ hscan hC _ h := h.start hscan hC
  finish n n' s told h u r hr := by
    rcases h.pending u r hr with hb | ⟨x, hx, -⟩
    · exact hb
    · cases hx
  deposit _ _ _ _ _ _ _ hu hs _ hdir h hd := h.deposit hu hs hdir hd
  withdraw n n' upd es s told hdir h := by
    refine ⟨h.backed, fun u r hr => ?_, fun ⟨c, hc⟩ => h.cancels ⟨c, List.mem_cons_of_mem _ hc⟩⟩
    rcases h.pending u r hr with hb | ⟨x, hx, hcon⟩
    · exact Or.inl hb
    · rcases List.mem_cons.mp hx with rfl | hx
      · rw [hcon.1] at hdir
        cases hdir
      · exact Or.inr ⟨x, hx, hcon⟩
  cancel _ _ _ _ _ _ _ _ hs h hd := h.cancel hs hd
  other n n' es s s' told up hg _ h := by
    refine ⟨fun u r hr => ?_, fun u r hr => ?_, fun hc u r hr => ?_⟩
    all_goals rw [hg.deposits] at hr
    · exact h.backed u r hr
    · exact h.pending u r hr
    · exact h.cancels hc u r hr
  otherSettled n s s' told up hg _ h u r hr := h u r (by rwa [hg.deposits] at hr)

theorem Batches.documented {C : Wallet → Wallet → Prop} {q : List BtcEvent} (h : Batches Γ C n q n') (hn' : n'.Documented Γ) :
    n.Documented Γ := by
  cases h with
  | nil => exact hn'
  | cons hscan _ _ => exact hscan.before

/-- While some events are left, no two counted records conflict. -/
theorem BacksMeanwhile.apart (hu : Underway Γ n n' es) (h : BacksMeanwhile n n' es s told) {u : UserId}
    (hr₁ : .btc r₁ ∈ s.deposits u) (hr₂ : .btc r₂ ∈ s.deposits u) (hc₁ : r₁.IsCounted) (hc₂ : r₂.IsCounted) :
    Γ.conflict r₁.txid r₂.txid ≠ true := by
  obtain ⟨pre, hscan⟩ := hu
  by_cases hcancel : ∃ c, .cancel c ∈ es
  · exact Backs.apart hscan.before (h.cancels hcancel u r₁ hr₁) (h.cancels hcancel u r₂ hr₂) hc₁ hc₂
  -- only updates are left, so what is not backed yet is listed without negative confirmations
  have hlisted : ∀ r, .btc r ∈ s.deposits u → r.IsCounted → ∃ e ∈ n'.entries, e.txid = r.txid ∧ 0 ≤ e.confirmations := by
    intro r hr hc
    rcases h.pending u r hr with ⟨e, he, his, hb⟩ | ⟨x, hx, hcon⟩
    · exact ⟨e, he, his.2.1, (hb hc).1⟩
    · cases x with
      | cancel c => exact absurd ⟨c, hx⟩ hcancel
      | update upd =>
        obtain ⟨e, he, -, -, h0, heq⟩ := hscan.of_update (List.mem_append_right _ hx) hcon.1
        refine ⟨e, he, ?_, h0⟩
        have htxid : upd.txid = r.txid := congrArg Prod.fst hcon.2.1
        rw [← htxid, heq]
        rfl
  have hone : ∀ r r', .btc r ∈ s.deposits u → .btc r' ∈ s.deposits u → r.IsCounted → r'.IsCounted → n'.Backs r →
      Γ.conflict r.txid r'.txid ≠ true := by
    intro r r' _ hr' hc hc' hb hconf
    obtain ⟨e, he, htxid, h0⟩ := hlisted r' hr' hc'
    exact absurd (hb.no_conflict hscan.after hc he (htxid.symm ▸ hconf)) (Int32.not_lt.mpr h0)
  rcases h.backed u r₁ hr₁ with hb₁ | hb₁
  · rcases h.backed u r₂ hr₂ with hb₂ | hb₂
    · exact Backs.apart hscan.before hb₁ hb₂ hc₁ hc₂
    · rw [Γ.conflict_symm]
      exact hone r₂ r₁ hr₂ hr₁ hc₂ hc₁ hb₂
  · exact hone r₁ r₂ hr₁ hr₂ hc₁ hc₂ hb₁

end Wallet

namespace Following

variable {Γ : Blockchain} {m : Following}

/-- Conflicting transactions are never both counted: in every run of the node, the scans and the updates in which no scan meets a
replacement of what the scan before saw unconfirmed and without conflicts, whatever the moments of the scans. -/
theorem conflicting_not_both_counted (h : (machine Γ).Reachable SeesReplacements m) : m.NoDoubleCredit := by
  have hm := (backs_rules Γ).follows h (fun _ _ _ hP => hP) (fun _ _ _ _ _ _ _ => trivial)
  rintro u r₁ r₂ hr₁ hr₂ hconf ⟨hc₁, hc₂⟩
  -- what is recorded or listed as a conflict is one
  have hconf : Γ.conflict r₁.txid r₂.txid = true := by
    rcases hconf with hin | ⟨e, he, htxid, hin⟩
    · exact hm.sound.conflict u r₁ hr₁ _ hin
    · exact htxid ▸ hm.node.conflict e he _ hin
  have hpos := hm.position
  generalize m.scan.events = q at hpos
  cases hpos with
  | settled hset hb => exact Backs.apart (hb.documented hm.seen) (hset u r₁ hr₁) (hset u r₂ hr₂) hc₁ hc₂ hconf
  | midway hu hmid hb => exact hmid.apart hu hr₁ hr₂ hc₁ hc₂ hconf

/-- The records that are counted. -/
def counted (m : Following) (u : UserId) : List Transaction := (m.state.deposits u).filter (fun t => !t.isConflicted)

/-- A deposit is seen together with its replacement, and then the replacement is confirmed: only that one is counted. -/
theorem conflicting_not_both_counted_seen : ∃ m : Following,
    (m.state.deposits Sample.alice).length = 2 ∧ (m.counted Sample.alice).length = 1 ∧ m.NoDoubleCredit := by
  obtain ⟨m, hm, hq⟩ := Machine.exists_reachable (M := machine (Sample.chain "rbf")) (P := SeesReplacements)
    (Sample.arrival ++
      .node (Sample.wallet "b0" [Sample.listed "in" 0 [⟨"rbf"⟩], Sample.listed "rbf" 0 [⟨"in"⟩]]) (by decide +kernel) ::
      Sample.scanned "b0" [Sample.listed "in" 0 [⟨"rbf"⟩], Sample.listed "rbf" 0 [⟨"in"⟩]] 2 ++
      .node (Sample.wallet "b1" [Sample.listed "in" (-1) [⟨"rbf"⟩], Sample.listed "rbf" 1 [⟨"in"⟩]]) (by decide +kernel) ::
      Sample.scanned "b1" [Sample.listed "in" (-1) [⟨"rbf"⟩], Sample.listed "rbf" 1 [⟨"in"⟩]] 1)
    (q := fun m : Following => (m.state.deposits Sample.alice).length == 2 && (m.counted Sample.alice).length == 1)
    (Sample.following_init "rbf") (by decide +kernel)
  simp only [Bool.and_eq_true, beq_iff_eq] at hq
  exact ⟨m, hq.1, hq.2, conflicting_not_both_counted hm⟩

/-- A deposit is seen alone, and then its replacement is confirmed before the next scan: both are counted. -/
theorem conflicting_both_counted : ¬∀ (Γ : Blockchain) (m : Following),
    (machine Γ).Reachable Machine.anyStep m → m.NoDoubleCredit := by
  intro h
  obtain ⟨m, hm, hq⟩ := Machine.exists_reachable (M := machine (Sample.chain "rbf")) (P := Machine.anyStep)
    (Sample.arrival ++
      .node (Sample.wallet "b0" [Sample.listed "in" 0 []]) (by decide +kernel) ::
      Sample.scanned "b0" [Sample.listed "in" 0 []] 1 ++
      .node (Sample.wallet "b1" [Sample.listed "in" (-1) [⟨"rbf"⟩], Sample.listed "rbf" 1 [⟨"in"⟩]]) (by decide +kernel) ::
      Sample.scanned "b1" [Sample.listed "in" (-1) [⟨"rbf"⟩], Sample.listed "rbf" 1 [⟨"in"⟩]] 1)
    (q := fun m : Following => m.state.deposits Sample.alice ==
      [.btc (BtcEvent.toBtcTransaction ((Sample.listed "in" 0 []).deposit ⟨"addr"⟩)),
        .btc (BtcEvent.toBtcTransaction ((Sample.listed "rbf" 1 [⟨"in"⟩]).deposit ⟨"addr"⟩))])
    (Sample.following_init "rbf") (by decide +kernel)
  have hdep := beq_iff_eq.mp hq
  refine h _ m hm Sample.alice _ _ (by rw [hdep]; exact List.mem_cons_of_mem _ (List.mem_singleton_self _))
    (by rw [hdep]; exact List.mem_cons_self) (Or.inl ?_) ⟨?_, ?_⟩
  · exact List.mem_singleton_self _
  · rfl
  · rfl

end Following

end Hexstody
