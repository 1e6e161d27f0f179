import Hexstody.Domain

/-!
# Transactions: the deposits of an account

The chain transactions an account keeps (`state/transaction.rs`) and the two things that happen to a list of them: an update
replaces the record of the same transaction output or is a new record, and a cancellation removes it. Users and the exchange
account keep such lists.
-/

namespace Hexstody

/-- Bitcoin transaction metainformation: one output of a transaction that belongs to us. -/
structure BtcTransaction where
  txid : Txid
  vout : UInt32
  /-- Top up address. -/
  address : Address
  /-- 0 means unconfirmed. -/
  confirmations : UInt64
  /-- Negative for withdrawal, positive for deposit. -/
  amount : Int64
  timestamp : NaiveDateTime
  conflicts : List Txid
  fee : Option UInt64
  deriving DecidableEq, Repr

/-- Ethereum transaction metainformation. -/
structure EthTransaction where
  blockNumber : String
  /-- The tx first seen. -/
  timeStamp : String
  hash : String
  fromAddress : String
  toAddress : String
  /-- Amount of money. -/
  value : Int64
  tokenName : String
  gas : String
  gasPrice : String
  /-- Address of token's contract. -/
  contractAddress : String
  confirmations : Int64
  /-- Account's address. -/
  addr : String
  deriving DecidableEq, Repr

inductive Transaction where
  | btc (tx : BtcTransaction)
  | eth (tx : EthTransaction)
  deriving DecidableEq, Repr

namespace Transaction

def amount : Transaction → Int64
  | .btc tx => tx.amount
  | .eth tx => tx.value

def isFinalized : Transaction → Bool
  | .btc tx => decide (tx.confirmations > 3)
  | .eth tx => decide (tx.confirmations > 3)

def isConflicted : Transaction → Bool
  | .btc tx => tx.confirmations == 0 && !tx.conflicts.isEmpty
  | .eth tx => decide (tx.confirmations < 0)

end Transaction

/-- The tx describes the same record in the blockchain (`SameBtcTx<BtcTransaction>`). -/
def BtcTransaction.isSameBtcTx (tx other : BtcTransaction) : Bool := tx.txid == other.txid && tx.vout == other.vout

/-- The cancellation is of this record (`SameBtcTx<BtcTxCancel>`). -/
def BtcTransaction.isSameBtcTxCancel (tx : BtcTransaction) (other : BtcTxCancel) : Bool :=
  tx.txid == other.txid && tx.vout == other.vout

/-- The first record of a list that satisfies `p`, replaced by `tx`; none when there is no such record. -/
def replaceBtcTx (p : BtcTransaction → Bool) (tx : BtcTransaction) : List Transaction → Option (List Transaction)
  | [] => none
  | .eth t :: ts => (replaceBtcTx p tx ts).map (.eth t :: ·)
  | .btc t :: ts => if p t then some (.btc tx :: ts) else (replaceBtcTx p tx ts).map (.btc t :: ·)

/-- The list without its first record that satisfies `p`; none when there is no such record. -/
def removeBtcTx (p : BtcTransaction → Bool) : List Transaction → Option (List Transaction)
  | [] => none
  | .eth t :: ts => (removeBtcTx p ts).map (.eth t :: ·)
  | .btc t :: ts => if p t then some ts else (removeBtcTx p ts).map (.btc t :: ·)

/-- The first record of a list that satisfies `p`. -/
def firstBtcTx? (p : BtcTransaction → Bool) : List Transaction → Option BtcTransaction
  | [] => none
  | .eth _ :: ts => firstBtcTx? p ts
  | .btc t :: ts => if p t then some t else firstBtcTx? p ts

/-- A list in which a record is replaced is the list with that record, at its place, another one. -/
theorem replaceBtcTx_eq_some {p : BtcTransaction → Bool} {tx : BtcTransaction} {l l' : List Transaction}
    (h : replaceBtcTx p tx l = some l') :
    ∃ pre t post, l = pre ++ .btc t :: post ∧ p t = true ∧ l' = pre ++ .btc tx :: post := by
  induction l generalizing l' with
  | nil => cases h
  | cons x ts ih =>
    cases x with
    | eth t =>
      obtain ⟨ts', hts, rfl⟩ := Option.map_eq_some_iff.mp h
      obtain ⟨pre, t', post, rfl, hp, rfl⟩ := ih hts
      exact ⟨.eth t :: pre, t', post, rfl, hp, rfl⟩
    | btc t =>
      rw [replaceBtcTx] at h
      by_cases hp : p t = true
      · rw [if_pos hp] at h
        obtain rfl := Option.some.inj h
        exact ⟨[], t, ts, rfl, hp, rfl⟩
      · rw [if_neg hp] at h
        obtain ⟨ts', hts, rfl⟩ := Option.map_eq_some_iff.mp h
        obtain ⟨pre, t', post, rfl, hp', rfl⟩ := ih hts
        exact ⟨.btc t :: pre, t', post, rfl, hp', rfl⟩

/-- A list from which a record is removed is the list without that record at its place. -/
theorem removeBtcTx_eq_some {p : BtcTransaction → Bool} {l l' : List Transaction} (h : removeBtcTx p l = some l') :
    ∃ pre t post, l = pre ++ .btc t :: post ∧ p t = true ∧ l' = pre ++ post := by
  induction l generalizing l' with
  | nil => cases h
  | cons x ts ih =>
    cases x with
    | eth t =>
      obtain ⟨ts', hts, rfl⟩ := Option.map_eq_some_iff.mp h
      obtain ⟨pre, t', post, rfl, hp, rfl⟩ := ih hts
      exact ⟨.eth t :: pre, t', post, rfl, hp, rfl⟩
    | btc t =>
      rw [removeBtcTx] at h
      by_cases hp : p t = true
      · rw [if_pos hp] at h
        obtain rfl := Option.some.inj h
        exact ⟨[], t, ts, rfl, hp, rfl⟩
      · rw [if_neg hp] at h
        obtain ⟨ts', hts, rfl⟩ := Option.map_eq_some_iff.mp h
        obtain ⟨pre, t', post, rfl, hp', rfl⟩ := ih hts
        exact ⟨.btc t :: pre, t', post, rfl, hp', rfl⟩

/-- Where there is a first record, it is the one that is replaced, and the one that is removed. -/
theorem firstBtcTx?_eq_some {p : BtcTransaction → Bool} {l : List Transaction} {t : BtcTransaction}
    (h : firstBtcTx? p l = some t) :
    ∃ pre post, l = pre ++ .btc t :: post ∧ p t = true ∧
      (∀ tx, replaceBtcTx p tx l = some (pre ++ .btc tx :: post)) ∧ removeBtcTx p l = some (pre ++ post) := by
  induction l with
  | nil => cases h
  | cons x ts ih =>
    cases x with
    | eth x =>
      obtain ⟨pre, post, rfl, hp, hr, hd⟩ := ih h
      exact ⟨.eth x :: pre, post, rfl, hp, fun tx => by rw [replaceBtcTx, hr tx]; rfl, by rw [removeBtcTx, hd]; rfl⟩
    | btc x =>
      rw [firstBtcTx?] at h
      by_cases hp : p x = true
      · rw [if_pos hp] at h
        obtain rfl := Option.some.inj h
        exact ⟨[], ts, rfl, hp, fun tx => by rw [replaceBtcTx, if_pos hp]; rfl, by rw [removeBtcTx, if_pos hp]; rfl⟩
      · rw [if_neg hp] at h
        obtain ⟨pre, post, rfl, hp', hr, hd⟩ := ih h
        exact ⟨.btc x :: pre, post, rfl, hp', fun tx => by rw [replaceBtcTx, if_neg hp, hr tx]; rfl,
          by rw [removeBtcTx, if_neg hp, hd]; rfl⟩

/-- Where there is no record, none is replaced, and none is removed. -/
theorem firstBtcTx?_eq_none {p : BtcTransaction → Bool} {l : List Transaction} (h : firstBtcTx? p l = none) :
    (∀ tx, replaceBtcTx p tx l = none) ∧ removeBtcTx p l = none := by
  induction l with
  | nil => exact ⟨fun _ => rfl, rfl⟩
  | cons x ts ih =>
    cases x with
    | eth x =>
      obtain ⟨hr, hd⟩ := ih h
      exact ⟨fun tx => by rw [replaceBtcTx, hr tx]; rfl, by rw [removeBtcTx, hd]; rfl⟩
    | btc x =>
      rw [firstBtcTx?] at h
      by_cases hp : p x = true
      · rw [if_pos hp] at h
        cases h
      · rw [if_neg hp] at h
        obtain ⟨hr, hd⟩ := ih h
        exact ⟨fun tx => by rw [replaceBtcTx, if_neg hp, hr tx]; rfl, by rw [removeBtcTx, if_neg hp, hd]; rfl⟩

end Hexstody
