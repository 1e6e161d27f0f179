import Hexstody.Journal
import Hexstody.Scan

/-!
# The State follows the wallet

The wallet of the Bitcoin node changes as transactions and blocks arrive; at any moments `node_worker` scans it, and the State
applies the events in order, between other updates. Of the node only what is documented is used: what it says of a transaction of
the wallet (`Wallet.Documented`), that it keeps the transactions (`Wallet.Keeps`), and what `listsinceblock` lists
(`Wallet.Answers`). `Blockchain` is what these speak of: the blocks, and the transactions as they are known by their identifiers.
-/

namespace Hexstody

/-- The blocks and the transactions. -/
structure Blockchain where
  /-- A block and its ancestors. -/
  ancestry : BlockHash → List BlockHash
  contents : BlockHash → List Txid
  /-- The outputs of a transaction that the wallet receives, with their addresses. -/
  outputs : Txid → List (UInt32 × Address)
  /-- Two transactions spend one output. -/
  conflict : Txid → Txid → Bool
  conflict_symm : ∀ t t', conflict t t' = conflict t' t
  output_unique : ∀ t v a a', (v, a) ∈ outputs t → (v, a') ∈ outputs t → a = a'
  contents_once : ∀ b h h' t, h ∈ ancestry b → h' ∈ ancestry b → t ∈ contents h → t ∈ contents h' → h = h'

namespace Blockchain

/-- The transaction is in a block or in one of its ancestors. -/
def upTo (Γ : Blockchain) (b : BlockHash) (t : Txid) : Bool := (Γ.ancestry b).any (fun h => (Γ.contents h).contains t)

/-- The transaction is in a block or in one of its ancestors, and that one is neither another block nor an ancestor of it. -/
def beyond (Γ : Blockchain) (b b' : BlockHash) (t : Txid) : Bool :=
  (Γ.ancestry b).any (fun h => (Γ.contents h).contains t && !(Γ.ancestry b').contains h)

end Blockchain

/-! ## The wallet of the node -/

/-- The wallet: the best block that the node knows, and what it has to list. -/
structure Wallet where
  best : BlockHash
  entries : List ListTransactionResult

/-- Two entries are of one output that the wallet receives. -/
def ListTransactionResult.SameOutput (e e' : ListTransactionResult) : Prop :=
  e.category = .receive ∧ e'.category = .receive ∧ e'.txid = e.txid ∧ e'.vout = e.vout ∧ e'.address = e.address

instance (e e' : ListTransactionResult) : Decidable (e.SameOutput e') := inferInstanceAs (Decidable (_ ∧ _ ∧ _ ∧ _ ∧ _))

namespace Wallet

/-- What is documented of the entries of a wallet. -/
structure Documented (Γ : Blockchain) (n : Wallet) : Prop where
  /-- A received output that has an address is one of the transaction. -/
  output : ∀ e ∈ n.entries, e.category = .receive → ∀ a ∈ e.address, (e.vout, a) ∈ Γ.outputs e.txid
  /-- An output is listed once. -/
  once : ∀ e ∈ n.entries, ∀ e' ∈ n.entries, e.SameOutput e' → e = e'
  /-- What is received is not negative. -/
  amount : ∀ e ∈ n.entries, e.category = .receive → 0 ≤ e.amount
  /-- A transaction in a block that the node follows is known to the wallet. -/
  known : ∀ h ∈ Γ.ancestry n.best, ∀ t ∈ Γ.contents h, ∀ out ∈ Γ.outputs t,
    ∃ e ∈ n.entries, e.category = .receive ∧ e.txid = t ∧ e.vout = out.1 ∧ e.address = some out.2
  /-- Confirmations are positive for the transactions in the blocks that the node follows. -/
  confirmed : ∀ e ∈ n.entries, 0 < e.confirmations ↔ Γ.upTo n.best e.txid = true
  /-- What is listed as a conflict is one. -/
  conflict : ∀ e ∈ n.entries, ∀ t ∈ e.walletConflicts, Γ.conflict e.txid t = true
  /-- Every conflict with a transaction of the wallet is listed. -/
  walletConflicts : ∀ e ∈ n.entries, ∀ e' ∈ n.entries, Γ.conflict e.txid e'.txid = true → e'.txid ∈ e.walletConflicts
  /-- Confirmations are negative for what conflicts with a confirmed transaction. -/
  conflicted : ∀ e ∈ n.entries, ∀ e' ∈ n.entries, Γ.conflict e.txid e'.txid = true → 0 < e.confirmations → e'.confirmations < 0

theorem documented_iff (Γ : Blockchain) (n : Wallet) : n.Documented Γ ↔
    (∀ e ∈ n.entries, e.category = .receive → ∀ a ∈ e.address, (e.vout, a) ∈ Γ.outputs e.txid) ∧
    (∀ e ∈ n.entries, ∀ e' ∈ n.entries, e.SameOutput e' → e = e') ∧
    (∀ e ∈ n.entries, e.category = .receive → 0 ≤ e.amount) ∧
    (∀ h ∈ Γ.ancestry n.best, ∀ t ∈ Γ.contents h, ∀ out ∈ Γ.outputs t,
      ∃ e ∈ n.entries, e.category = .receive ∧ e.txid = t ∧ e.vout = out.1 ∧ e.address = some out.2) ∧
    (∀ e ∈ n.entries, 0 < e.confirmations ↔ Γ.upTo n.best e.txid = true) ∧
    (∀ e ∈ n.entries, ∀ t ∈ e.walletConflicts, Γ.conflict e.txid t = true) ∧
    (∀ e ∈ n.entries, ∀ e' ∈ n.entries, Γ.conflict e.txid e'.txid = true → e'.txid ∈ e.walletConflicts) ∧
    (∀ e ∈ n.entries, ∀ e' ∈ n.entries, Γ.conflict e.txid e'.txid = true → 0 < e.confirmations → e'.confirmations < 0) :=
  ⟨fun h => ⟨h.output, h.once, h.amount, h.known, h.confirmed, h.conflict, h.walletConflicts, h.conflicted⟩,
    fun ⟨h1, h2, h3, h4, h5, h6, h7, h8⟩ => ⟨h1, h2, h3, h4, h5, h6, h7, h8⟩⟩

instance (Γ : Blockchain) (n : Wallet) : Decidable (n.Documented Γ) := decidable_of_iff _ (documented_iff Γ n).symm

/-- The wallet keeps what it receives. -/
def Keeps (n n' : Wallet) : Prop := ∀ e ∈ n.entries, e.category = .receive → ∃ e' ∈ n'.entries, e.SameOutput e'

instance (n n' : Wallet) : Decidable (n.Keeps n') := inferInstanceAs (Decidable (∀ e ∈ n.entries, _ → _))

/-- The transaction is listed since a block: it is unconfirmed, or its block is neither that block nor an ancestor of it. -/
def since (Γ : Blockchain) (n : Wallet) (b : BlockHash) (e : ListTransactionResult) : Bool :=
  e.confirmations == 0 || Γ.beyond n.best b e.txid

/-- What `listsinceblock` may answer. Of what conflicts with a confirmed transaction it may list anything. -/
structure Answers (Γ : Blockchain) (n : Wallet) (b : BlockHash) (r : ListSinceBlockResult) : Prop where
  lastblock : r.lastblock = n.best
  listed : ∀ e ∈ r.transactions, e ∈ n.entries ∧ (0 ≤ e.confirmations → n.since Γ b e = true)
  all : ∀ e ∈ n.entries, 0 ≤ e.confirmations → n.since Γ b e = true → e ∈ r.transactions
  /-- The transactions of the blocks that the node does not follow any more. -/
  gone : ∀ e ∈ r.removed, e ∈ n.entries ∧ Γ.beyond b n.best e.txid = true
  allGone : ∀ e ∈ n.entries, Γ.beyond b n.best e.txid = true → e ∈ r.removed

theorem answers_iff (Γ : Blockchain) (n : Wallet) (b : BlockHash) (r : ListSinceBlockResult) :
    n.Answers Γ b r ↔ r.lastblock = n.best ∧
      (∀ e ∈ r.transactions, e ∈ n.entries ∧ (0 ≤ e.confirmations → n.since Γ b e = true)) ∧
      (∀ e ∈ n.entries, 0 ≤ e.confirmations → n.since Γ b e = true → e ∈ r.transactions) ∧
      (∀ e ∈ r.removed, e ∈ n.entries ∧ Γ.beyond b n.best e.txid = true) ∧
      (∀ e ∈ n.entries, Γ.beyond b n.best e.txid = true → e ∈ r.removed) :=
  ⟨fun h => ⟨h.lastblock, h.listed, h.all, h.gone, h.allGone⟩, fun ⟨h1, h2, h3, h4, h5⟩ => ⟨h1, h2, h3, h4, h5⟩⟩

instance (Γ : Blockchain) (n : Wallet) (b : BlockHash) (r : ListSinceBlockResult) : Decidable (n.Answers Γ b r) :=
  decidable_of_iff _ (answers_iff Γ n b r).symm

end Wallet

/-! ## The State -/

/-- The address that an update gives out. -/
def UpdateBody.given? : UpdateBody → Option CurrencyAddress
  | .depositAddress dep => some dep.address
  | .exchangeAddress a => some a
  | _ => none

/-- The address that an event is about. -/
def BtcEvent.address : BtcEvent → Address
  | .update upd => upd.address
  | .cancel cnl => cnl.address

namespace State

/-- The address belongs to nobody. -/
def isNewAddress (s : State) (a : CurrencyAddress) : Bool :=
  s.users.values.all (fun user => !user.hasAddress a) && !s.isExchangeAddress a

/-- The State after an update, or as it was when the update is refused. -/
def accept (s : State) (o : Oracle) (up : StateUpdate) : State :=
  match s.applyUpdate o up with
  | (s', .ok _) => s'
  | (_, .error _) => s

/-- The State after the update for an event, if there is one. -/
def acceptEvent (s : State) (o : Oracle) (created : NaiveDateTime) (e : BtcEvent) : State :=
  match e.toUpdate with
  | some b => s.accept o { created := created, body := b }
  | none => s

end State

/-! ## The machine -/

structure Following where
  node : Wallet
  /-- The wallet at the last scan. -/
  seen : Wallet
  /-- What was scanned; its events are those that the State has still to apply. -/
  scan : ScanState
  state : State
  /-- The events that were applied. -/
  applied : List BtcEvent

inductive FollowingAction (Γ : Blockchain) where
  /-- Transactions and blocks arrive at the node. -/
  | node (n : Wallet) (documented : n.Documented Γ)
  /-- One round of `node_worker`. -/
  | scan (answer : Except String ListSinceBlockResult) (count : Except String UInt64)
  /-- The next event is applied. -/
  | apply (o : Oracle) (created : NaiveDateTime)
  /-- Another update is applied. -/
  | update (o : Oracle) (up : StateUpdate)

namespace Following

/-- An update that may come in between: it is made of no event and is no snapshot, and an address that it gives out is new. -/
def Admits (m : Following) (up : StateUpdate) : Prop :=
  ¬up.body.IsSnapshot ∧ up.body.OfBtcEvent = false ∧
    ∀ a ∈ up.body.given?, m.state.isNewAddress a = true ∧ ∀ e ∈ m.applied, State.btcAddress e.address ≠ a

instance (m : Following) (up : StateUpdate) : Decidable (m.Admits up) := inferInstanceAs (Decidable (_ ∧ _ ∧ _))

def step {Γ : Blockchain} (m : Following) : FollowingAction Γ → Option Following
  | .node n _ => if m.node.Keeps n then some { m with node := n } else none
  | .scan (.ok r) count =>
    if m.node.Answers Γ m.scan.lastBlock r then
      some { m with scan := m.scan.nodeWorker (.ok r) count, seen := m.node }
    else none
  | .scan (.error e) count => some { m with scan := m.scan.nodeWorker (.error e) count }
  | .apply o created =>
    match m.scan.events with
    | [] => none
    | e :: es =>
      some { m with
        scan := { m.scan with events := es }
        state := m.state.acceptEvent o created e
        applied := m.applied ++ [e] }
  | .update o up => if m.Admits up then some { m with state := m.state.accept o up } else none

/-- What a step can do. -/
inductive Step {Γ : Blockchain} (m : Following) : FollowingAction Γ → Following → Prop where
  | node (n : Wallet) (hn : n.Documented Γ) (hkeeps : m.node.Keeps n) : Step m (.node n hn) { m with node := n }
  | scan (r : ListSinceBlockResult) (count : Except String UInt64) (hr : m.node.Answers Γ m.scan.lastBlock r) :
      Step m (.scan (.ok r) count) { m with scan := m.scan.nodeWorker (.ok r) count, seen := m.node }
  | scanFailed (e : String) (count : Except String UInt64) :
      Step m (.scan (.error e) count) { m with scan := m.scan.nodeWorker (.error e) count }
  | apply (o : Oracle) (created : NaiveDateTime) (e : BtcEvent) (es : List BtcEvent) (hes : m.scan.events = e :: es) :
      Step m (.apply o created)
        { m with
          scan := { m.scan with events := es }
          state := m.state.acceptEvent o created e
          applied := m.applied ++ [e] }
  | update (o : Oracle) (up : StateUpdate) (hup : m.Admits up) : Step m (.update o up) { m with state := m.state.accept o up }

theorem step_eq_some {Γ : Blockchain} {m m' : Following} {a : FollowingAction Γ} (h : m.step a = some m') : Step m a m' := by
  cases a with
  | node n hn =>
    simp only [step, Option.ite_none_right_eq_some] at h
    obtain ⟨hkeeps, hm⟩ := h
    obtain rfl := Option.some.inj hm
    exact .node n hn hkeeps
  | scan answer count =>
    cases answer with
    | error e =>
      obtain rfl := Option.some.inj h
      exact .scanFailed e count
    | ok r =>
      simp only [step, Option.ite_none_right_eq_some] at h
      obtain ⟨hr, hm⟩ := h
      obtain rfl := Option.some.inj hm
      exact .scan r count hr
  | apply o created =>
    simp only [step] at h
    split at h
    · cases h
    · obtain rfl := Option.some.inj h
      exact .apply o created _ _ ‹_›
  | update o up =>
    simp only [step, Option.ite_none_right_eq_some] at h
    obtain ⟨hup, hm⟩ := h
    obtain rfl := Option.some.inj hm
    exact .update o up hup

/-- Before the first scan, with nothing known of the wallet but a genesis block. -/
def new (now : NaiveDateTime) (genesis : BlockHash) (n : Wallet) : Following where
  node := n
  seen := { best := genesis, entries := [] }
  scan := ScanState.new genesis
  state := State.new now genesis.hex
  applied := []

/-- The State, following the wallet of a node. The genesis block has nothing for the wallet. -/
def machine (Γ : Blockchain) : Machine Following (FollowingAction Γ) where
  init m := ∃ now genesis n, m = new now genesis n ∧ n.Documented Γ ∧ ∀ t, Γ.upTo genesis t = true → Γ.outputs t = []
  step := step

end Following

/-! ## A small chain, for the runs that are executed -/

namespace Sample

/-- Five blocks, one after the other. -/
def ancestry (b : BlockHash) : List BlockHash := (["b4", "b3", "b2", "b1", "b0"].dropWhile (· != b.hex)).map BlockHash.mk

theorem ancestry_first : ancestry ⟨"b0"⟩ = [⟨"b0"⟩] := by decide +kernel

/-- The five blocks, of which the one after the first has one transaction; the transactions `in` and `rbf` conflict. -/
def chain (mined : String) : Blockchain where
  ancestry := ancestry
  contents b := if b = ⟨"b1"⟩ then [⟨mined⟩] else []
  outputs _ := [(0, ⟨"addr"⟩)]
  conflict t t' := (t == ⟨"in"⟩ && t' == ⟨"rbf"⟩) || (t == ⟨"rbf"⟩ && t' == ⟨"in"⟩)
  conflict_symm t t' := by rw [Bool.or_comm, Bool.and_comm, Bool.and_comm (t == ⟨"in"⟩)]
  output_unique t v a a' h h' := by
    obtain ⟨-, rfl⟩ := Prod.mk.inj (List.mem_singleton.mp h)
    exact (Prod.mk.inj (List.mem_singleton.mp h')).2.symm
  contents_once b h h' t _ _ ht ht' := by
    have key : ∀ h : BlockHash, t ∈ (if h = ⟨"b1"⟩ then [(⟨mined⟩ : Txid)] else []) → h = ⟨"b1"⟩ := by
      intro h ht
      by_cases hb : h = ⟨"b1"⟩
      · exact hb
      · rw [if_neg hb] at ht
        cases ht
    exact (key h ht).trans (key h' ht').symm

def wallet (best : String) (entries : List ListTransactionResult) : Wallet := { best := ⟨best⟩, entries := entries }

/-- The State and an empty wallet, before the first scan. -/
def following : Following := Following.new ⟨0⟩ ⟨"b0"⟩ (wallet "b0" [])

theorem following_init (mined : String) : (Following.machine (chain mined)).init following := by
  refine ⟨⟨0⟩, ⟨"b0"⟩, wallet "b0" [], rfl, ?_, fun t ht => ?_⟩
  · refine ⟨fun e he => (by cases he), fun e he => (by cases he), fun e he => (by cases he), ?_, fun e he => (by cases he),
      fun e he => (by cases he), fun e he => (by cases he), fun e he => (by cases he)⟩
    intro h hh t ht
    have hh : h ∈ ancestry ⟨"b0"⟩ := hh
    rw [ancestry_first] at hh
    rw [List.mem_singleton.mp hh] at ht
    cases ht
  · have hup : (chain mined).upTo ⟨"b0"⟩ t = false := by
      change (ancestry ⟨"b0"⟩).any _ = false
      rw [ancestry_first]
      rfl
    rw [hup] at ht
    cases ht

/-- Alice signs up and gets a deposit address. -/
def arrival {Γ : Blockchain} : List (FollowingAction Γ) :=
  (signup ++ [upd 3 (.depositAddress { userId := alice, address := .btc { addr := "addr" } })]).map fun a => .update a.1 a.2

/-- A scan that lists some transactions and has nothing removed, and then so many events are applied. -/
def scanned {Γ : Blockchain} (best : String) (transactions : List ListTransactionResult) (events : Nat) :
    List (FollowingAction Γ) :=
  .scan (.ok { transactions := transactions, removed := [], lastblock := ⟨best⟩ }) (.ok 0) ::
    List.replicate events (.apply oracle ⟨4⟩)

end Sample

end Hexstody
