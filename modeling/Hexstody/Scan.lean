import Hexstody.BtcModule
import Hexstody.State

/-!
# The BTC module: the events of the wallet

What the BTC module reports to the hot wallet (`hexstody-btc`, `worker.rs`, `state.rs`): `node_worker` asks the Bitcoin node what
happened in its wallet since the last block that it saw, makes events of the answer (`scan_from`), and keeps them in the `ScanState`
until `poll_events` hands them out; the hot wallet makes updates of them (`process_btc_events`). The answers of the node are
parameters.
-/

namespace Hexstody

/-- The hash of a block, by the hex digits it is printed as. -/
structure BlockHash where
  hex : String
  deriving DecidableEq, Repr

/-! ## The events -/

structure TxUpdate where
  /-- Direction of tx (in or out). -/
  direction : TxDirection
  txid : Txid
  /-- Which output of the transaction. -/
  vout : UInt32
  /-- Address that tx tops up. -/
  address : Address
  /-- Sats amount. -/
  amount : UInt64
  /-- 0 means unconfirmed. -/
  confirmations : UInt64
  timestamp : UInt64
  conflicts : List Txid
  /-- Fee paid in sats. -/
  fee : Option UInt64
  deriving DecidableEq, Repr

inductive BtcEvent where
  | update (upd : TxUpdate)
  | cancel (cnl : BtcTxCancel)
  deriving DecidableEq, Repr

structure BtcEvents where
  /-- New block height. -/
  height : UInt64
  /-- Hash of block. -/
  hash : BlockHash
  /-- New updates on transactions in that block. -/
  events : List BtcEvent
  deriving DecidableEq, Repr

/-! ## Scanning the wallet -/

/-- What happens to one address in a transaction of the wallet, as the node lists it. -/
structure ListTransactionResult where
  txid : Txid
  vout : UInt32
  category : DetailCategory
  address : Option Address
  /-- In sats, negative for what is sent. -/
  amount : Int64
  fee : Option Int64
  /-- Negative when a conflicting transaction is confirmed. -/
  confirmations : Int32
  timereceived : UInt64
  walletConflicts : List Txid
  deriving DecidableEq, Repr

/-- The answer to `list_since_block`. -/
structure ListSinceBlockResult where
  transactions : List ListTransactionResult
  removed : List ListTransactionResult
  lastblock : BlockHash
  deriving DecidableEq, Repr

/-- The absolute value, as an unsigned number. -/
def absSat (amount : Int64) : UInt64 := amount.abs.toUInt64

def txDirection (tx : ListTransactionResult) : Option TxDirection :=
  match tx.category with
  | .receive => some .deposit
  | .send => some .withdraw
  | _ => none

def toUpdateEvent (tx : ListTransactionResult) : Option BtcEvent :=
  match txDirection tx with
  | none => none
  | some direction =>
    match tx.address with
    | none => none
    | some address =>
      if tx.confirmations < 0 then none
      else
        some (.update
          { direction := direction, txid := tx.txid, vout := tx.vout, address := address, amount := absSat tx.amount,
            confirmations := tx.confirmations.toInt64.toUInt64, timestamp := tx.timereceived, conflicts := tx.walletConflicts,
            fee := tx.fee.map absSat })

def toRemoveEvent (tx : ListTransactionResult) : Option BtcEvent :=
  match txDirection tx with
  | none => none
  | some direction =>
    match tx.address with
    | none => none
    | some address =>
      if tx.amount < 0 then none
      else
        some (.cancel
          { direction := direction, txid := tx.txid, vout := tx.vout, address := address, amount := absSat tx.amount,
            timestamp := tx.timereceived, conflicts := tx.walletConflicts })

/-- The events of a scan, and the block up to which it scanned: first what was removed, then what is there. -/
def scanFrom (result : ListSinceBlockResult) : List BtcEvent × BlockHash :=
  (result.removed.filterMap toRemoveEvent ++ result.transactions.filterMap toUpdateEvent, result.lastblock)

/-! ## The state of the module -/

structure ScanState where
  lastBlock : BlockHash
  lastHeight : UInt64
  events : List BtcEvent
  deriving DecidableEq, Repr

namespace ScanState

/-- `ScanState::new`, on a network with a given genesis block. -/
def new (genesis : BlockHash) : ScanState where
  lastBlock := genesis
  lastHeight := 0
  events := []

/-- One round of `node_worker`, with what the node answers to `list_since_block` and to `get_block_count`. -/
def nodeWorker (st : ScanState) (answer : Except String ListSinceBlockResult) (count : Except String UInt64) : ScanState :=
  match answer with
  | .error _ => st
  | .ok result =>
    let (events, nextHash) := scanFrom result
    if !events.isEmpty || st.lastBlock != nextHash then
      { lastBlock := nextHash
        lastHeight := match count with
          | .ok height => height
          | .error _ => st.lastHeight
        events := st.events ++ events }
    else st

/-- (`POST /events`) The events are handed out, and are not kept. -/
def pollEvents (st : ScanState) : BtcEvents × ScanState :=
  ({ hash := st.lastBlock, height := st.lastHeight, events := st.events }, { st with events := [] })

/-- What a round appends to the events. -/
def scanned (answer : Except String ListSinceBlockResult) : List BtcEvent :=
  match answer with
  | .error _ => []
  | .ok result => (scanFrom result).1

theorem nodeWorker_events (st : ScanState) (answer : Except String ListSinceBlockResult) (count : Except String UInt64) :
    (st.nodeWorker answer count).events = st.events ++ scanned answer := by
  unfold nodeWorker scanned
  cases answer with
  | error e => exact (List.append_nil _).symm
  | ok result =>
    by_cases h : (!(scanFrom result).1.isEmpty || st.lastBlock != (scanFrom result).2) = true
    · simp only [h, if_true]
    · simp only [h]
      simp only [Bool.or_eq_true, not_or, Bool.not_eq_true, Bool.not_eq_false', List.isEmpty_iff] at h
      rw [h.1, List.append_nil]
      rfl

/-- A round ends at the block up to which it scanned. -/
theorem nodeWorker_lastBlock (st : ScanState) (result : ListSinceBlockResult) (count : Except String UInt64) :
    (st.nodeWorker (.ok result) count).lastBlock = result.lastblock := by
  unfold nodeWorker
  by_cases h : (!(scanFrom result).1.isEmpty || st.lastBlock != (scanFrom result).2) = true
  · simp only [h, if_true]
    rfl
  · simp only [h]
    simp only [Bool.or_eq_true, not_or, bne_iff_ne, ne_eq, Decidable.not_not] at h
    exact h.2

end ScanState

/-! ## The updates -/

namespace BtcEvent

/-- `BtcTransaction::from(TxUpdate)`. -/
def toBtcTransaction (upd : TxUpdate) : BtcTransaction where
  txid := upd.txid
  vout := upd.vout
  address := upd.address
  confirmations := upd.confirmations
  amount := match upd.direction with
    | .deposit => upd.amount.toInt64
    | .withdraw => -upd.amount.toInt64
  timestamp := ⟨upd.timestamp.toInt64.toInt * 1000000000⟩
  conflicts := upd.conflicts
  fee := upd.fee

/-- The update that the hot wallet makes of an event: of what it sent itself it makes none. -/
def toUpdate : BtcEvent → Option UpdateBody
  | .update upd => if upd.direction = .deposit then some (.updateBtcTx (toBtcTransaction upd)) else none
  | .cancel cnl => some (.cancelBtcTx cnl)

end BtcEvent

/-- The update is made of an event. -/
def UpdateBody.OfBtcEvent : UpdateBody → Bool
  | .updateBtcTx _ => true
  | .cancelBtcTx _ => true
  | _ => false

/-- The update on the best block, where the State has another one. -/
def bestBtcBlock (known : String) (events : BtcEvents) : Option UpdateBody :=
  if known ≠ events.hash.hex then some (.bestBtcBlock { height := events.height, blockHash := events.hash.hex }) else none

/-- The updates that are sent for a response, in order, with the best block that the State has. -/
def processBtcEvents (known : String) (events : BtcEvents) : List UpdateBody :=
  (bestBtcBlock known events).toList ++ events.events.filterMap BtcEvent.toUpdate

namespace Sample

/-- A payment of 1000 satoshi to an address of the wallet, as the node lists it. -/
def listed (txid : String) (confirmations : Int32) (conflicts : List Txid) : ListTransactionResult where
  txid := ⟨txid⟩
  vout := 0
  category := .receive
  address := some ⟨"addr"⟩
  amount := 1000
  fee := none
  confirmations := confirmations
  timereceived := 0
  walletConflicts := conflicts

end Sample

end Hexstody
