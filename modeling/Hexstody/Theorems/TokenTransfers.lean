import Hexstody.Library.Decimal
import Hexstody.EthSending

/-!
# What is signed for a transfer of tokens

The data of a transaction that transfers tokens is to be the call of `transfer` with the recipient and the amount, in 68 bytes. The
handler writes the call as a hexadecimal text, and signs the bytes of the text itself, 138 of them. And the call that the text
stands for has the amount times 10^18, up to 2^64 - 1 (`asU64_mulF64`). `token_transfer_misencoded` says that the data is never
the call; and that the text would stand for it only if the amount is nothing or 2^64 - 1.
-/

namespace Hexstody

namespace EthModule

/-- The call of `transfer`: the selector, the recipient in 32 bytes, and the amount in 32 bytes. -/
def transferCall (recipient : H160) (amount : Nat) : List UInt8 :=
  [0xa9, 0x05, 0x9c, 0xbb] ++ List.replicate 12 0 ++ recipient.bytes ++ bigEndian 32 amount

/-- The text is an address: `0x` and 40 hexadecimal digits. -/
def IsAddressText (s : String) (a : H160) : Prop :=
  ∃ ds, s.toList = '0' :: 'x' :: ds ∧ ds.length = 40 ∧ decodeHex ds = some a.bytes

/-- The bytes that a text of `0x` and hexadecimal digits stands for. -/
def decodeText (s : String) : Option (List UInt8) :=
  match s.toList with
  | '0' :: 'x' :: ds => decodeHex ds
  | _ => none

/-! ## The amount -/

/-- The decimal text of a number is read back. -/
theorem parseDecimal_toString (n : Nat) : parseDecimal (toString n) = some n := isDecimal_toString n

/-- The last place of a small product with 10^18 divides it. -/
theorem roundTo_small {n : Nat} (h : n ≤ 18) : roundTo F64_DIGITS (1000000000000000000 * n) = 1000000000000000000 * n := by
  refine roundTo_of_dvd ?_
  have hdvd : 2 ^ 11 ∣ 1000000000000000000 * n := Nat.dvd_mul_right_of_dvd (by decide) n
  have hlog : (1000000000000000000 * n).log2 < 64 := by
    by_cases hn : 1000000000000000000 * n = 0
    · rw [hn]
      decide
    · exact (Nat.log2_lt hn).mpr (by omega)
  have hplace : (1000000000000000000 * n).log2 + 1 - F64_DIGITS ≤ 11 := by
    have hdigits : F64_DIGITS = 53 := rfl
    omega
  exact Nat.dvd_trans (Nat.pow_dvd_pow 2 hplace) hdvd

/-- Every amount but a few makes the product too large for 64 bits. -/
theorem le_mulF64 {n : Nat} (h : 19 ≤ n) : 2 ^ 64 ≤ mulF64 1000000000000000000 (roundTo F64_DIGITS n) := by
  have hround : 19 ≤ roundTo F64_DIGITS n := by
    by_cases hlt : n < 2 ^ F64_DIGITS
    · rw [roundTo_of_lt hlt]
      exact h
    · have hpow := two_pow_le_roundTo (p := F64_DIGITS) (by decide) (Nat.le_of_not_lt hlt)
      exact le_trans (by decide) hpow
  refine two_pow_le_roundTo (by decide) ?_
  omega

/-- The amount that is written: the amount times 10^18, up to 2^64 - 1. -/
theorem asU64_mulF64 (n : Nat) :
    asU64 (mulF64 1000000000000000000 (roundTo F64_DIGITS n)) = min (n * 1000000000000000000) 18446744073709551615 := by
  unfold asU64
  by_cases h : n ≤ 18
  · have hkept : roundTo F64_DIGITS n = n := roundTo_of_lt (lt_of_le_of_lt h (by decide))
    rw [hkept, mulF64, roundTo_small h, Nat.mul_comm]
  · have hlarge := le_mulF64 (n := n) (by omega)
    omega

/-- The amount that is written is the one that was asked for only at the ends. -/
theorem scaled_eq_iff {n : Nat} :
    min (n * 1000000000000000000) 18446744073709551615 = n ↔ n = 0 ∨ n = 18446744073709551615 := by
  omega

theorem toHexStrClean_toString (U : U256Texts) (n : Nat) :
    toHexStrClean U (toString n) = some (U.lowerHex (min (n * 1000000000000000000) 18446744073709551615)) := by
  have hlt : min (n * 1000000000000000000) 18446744073709551615 < 2 ^ 256 := by omega
  unfold toHexStrClean parseF64
  simp only [parseDecimal_toString, Option.map_some, asU64_mulF64, U.fromDecStr_toString _ hlt, bind, Option.bind_some, pure]

/-! ## The text -/

variable {U : U256Texts} {recipient : String} {a : H160}

/-- The digits before the recipient: the selector, and the zeros before 20 bytes. -/
def callDigits : List Char := "a9059cbb000000000000000000000000".toList

theorem decodeHex_callDigits : decodeHex callDigits = some ([0xa9, 0x05, 0x9c, 0xbb] ++ List.replicate 12 0) := by decide

theorem take_zeros (m k : Nat) : (List.replicate m '0').take (m - k) = List.replicate (m - k) '0' := by
  rw [List.take_replicate, Nat.min_eq_left (Nat.sub_le _ _)]

/-- The digits of the text: those of the call, the recipient, and the amount with leading zeros. -/
theorem toList_txData {ds : List Char} (hds : recipient.toList = '0' :: 'x' :: ds) {n : Nat} (hn : n < 2 ^ 256) :
    (txData recipient (U.lowerHex n)).toList = '0' :: 'x' :: (callDigits ++ (ds ++
      (List.replicate (64 - (Nat.toDigits 16 n).length) '0' ++ Nat.toDigits 16 n))) := by
  have hstart : "0xa9059cbb000000000000000000000000".toList = '0' :: 'x' :: callDigits := by decide
  have hzeros : rawHexVolumeCommand.toList = List.replicate 64 '0' := String.toList_ofList
  have hdigits : (U.lowerHex n).toList = Nat.toDigits 16 n := U.toList_lowerHex n hn
  have hrecipient : (String.ofList (recipient.toList.drop 2)).toList = ds := by
    rw [String.toList_ofList, hds]
    rfl
  have hpad : (String.ofList (rawHexVolumeCommand.toList.take
      (rawHexVolumeCommand.toList.length - (U.lowerHex n).toList.length))).toList =
        List.replicate (64 - (Nat.toDigits 16 n).length) '0' := by
    rw [String.toList_ofList, hdigits, hzeros, List.length_replicate, take_zeros]
  unfold txData
  simp only [String.toList_append, hstart, hrecipient, hpad, List.append_assoc, List.cons_append]
  rw [hdigits]

/-- The text stands for a call of `transfer` with the amount in it. -/
theorem decodeText_txData (ha : IsAddressText recipient a) {n : Nat} (hn : n < 2 ^ 256) :
    decodeText (txData recipient (U.lowerHex n)) = some (transferCall a n) := by
  obtain ⟨ds, hds, -, hbytes⟩ := ha
  have hamount : decodeHex (List.replicate (64 - (Nat.toDigits 16 n).length) '0' ++ Nat.toDigits 16 n) =
      some (bigEndian 32 n) := decodeHex_padded (k := 32) (by decide) (lt_of_lt_of_eq hn (by decide))
  have hdigits : decodeText (txData recipient (U.lowerHex n)) = decodeHex (callDigits ++ (ds ++
      (List.replicate (64 - (Nat.toDigits 16 n).length) '0' ++ Nat.toDigits 16 n))) := by
    rw [decodeText, toList_txData hds hn]
    rfl
  rw [hdigits, decodeHex_append decodeHex_callDigits, decodeHex_append hbytes, hamount]
  simp only [Option.map_some, transferCall, List.append_assoc]

/-- Every character of a text is at least one byte. -/
theorem length_le_intoBytes (s : String) : s.toList.length ≤ (intoBytes s).length := by
  unfold intoBytes
  induction s.toList with
  | nil => exact Nat.le_refl _
  | cons c cs ih =>
    have hc : 1 ≤ (String.utf8EncodeChar c).length := by
      rw [String.length_utf8EncodeChar]
      exact c.utf8Size_pos
    rw [List.flatMap_cons, List.length_append, List.length_cons]
    omega

theorem length_transferCall (a : H160) (n : Nat) : (transferCall a n).length = 68 := by
  rw [transferCall, List.length_append, List.length_append, List.length_append, a.length_eq, length_bigEndian]
  rfl

/-- The bytes of the text are not a call of `transfer`: they are too many. -/
theorem intoBytes_ne_transferCall (ha : IsAddressText recipient a) {m : Nat} (hm : m < 2 ^ 256) (n : Nat) :
    intoBytes (txData recipient (U.lowerHex m)) ≠ transferCall a n := by
  obtain ⟨ds, hds, hlen, -⟩ := ha
  intro h
  have hbytes := length_le_intoBytes (txData recipient (U.lowerHex m))
  have hcall := congrArg List.length h
  rw [length_transferCall] at hcall
  rw [toList_txData hds hm, hcall] at hbytes
  simp only [List.length_cons, List.length_append, hlen, List.length_replicate] at hbytes
  have hselector : callDigits.length = 32 := by decide
  omega

theorem transferCall_inj {m n : Nat} (hm : m < 2 ^ 256) (hn : n < 2 ^ 256) (h : transferCall a m = transferCall a n) : m = n :=
  bigEndian_inj (lt_of_lt_of_eq hm (by decide)) (lt_of_lt_of_eq hn (by decide)) (List.append_cancel_left h)

/-! ## The transaction -/

/-- What is signed for an amount, where the addresses are understood. -/
theorem signsendErc20_toString (U : U256Texts) {fromStr : String → Option H160} {userAddress tokenAddress : String} {from' to' token : H160}
    (hfrom : fromStr userAddress = some from') (hto : fromStr recipient = some to') (htoken : fromStr tokenAddress = some token)
    (v : UInt64) (count : Nat) :
    ∃ tx, signsendErc20 U fromStr userAddress recipient tokenAddress (toString v.toNat) count = some tx ∧
      tx.data = intoBytes (txData recipient (U.lowerHex (min (v.toNat * 1000000000000000000) 18446744073709551615))) := by
  have hv := v.toNat_lt
  have hdec : U.fromDecStr (toString v.toNat) = some v.toNat := U.fromDecStr_toString _ (by omega)
  generalize htext : txData recipient (U.lowerHex (min (v.toNat * 1000000000000000000) 18446744073709551615)) = text
  unfold signsendErc20
  simp only [hfrom, hto, htoken, toHexStrClean_toString, hdec, htext, bind, Option.bind_some, pure]
  exact ⟨_, rfl, rfl⟩

/-- For every recipient and every amount, the data that is signed is not the call of `transfer` with them; and the text, whose bytes
are signed, stands for that call just when the amount is nothing or 2^64 - 1. -/
theorem token_transfer_misencoded (U : U256Texts) (fromStr : String → Option H160) (userAddress recipient tokenAddress : String)
    (from' to' token : H160) (hfrom : fromStr userAddress = some from') (hto : fromStr recipient = some to')
    (htoken : fromStr tokenAddress = some token) (hrecipient : IsAddressText recipient to') (v : UInt64) (count : Nat) :
    ∃ tx text, signsendErc20 U fromStr userAddress recipient tokenAddress (toString v.toNat) count = some tx ∧
      tx.data = intoBytes text ∧ tx.data ≠ transferCall to' v.toNat ∧
        (decodeText text = some (transferCall to' v.toNat) ↔ v = 0 ∨ v = 18446744073709551615) := by
  have hv := v.toNat_lt
  obtain ⟨tx, htx, hdata⟩ := signsendErc20_toString U hfrom hto htoken v count
  refine ⟨tx, _, htx, hdata, ?_, ?_⟩
  · rw [hdata]
    exact intoBytes_ne_transferCall hrecipient (by omega) _
  · have hends : v = 0 ∨ v = 18446744073709551615 ↔ v.toNat = 0 ∨ v.toNat = 18446744073709551615 := by
      rw [← UInt64.toNat_inj, ← UInt64.toNat_inj]
      rfl
    rw [decodeText_txData hrecipient (by omega), hends, ← scaled_eq_iff, Option.some.injEq]
    constructor
    · exact transferCall_inj (by omega) (by omega)
    · intro h
      rw [h]

end EthModule

namespace Sample

/-- The numbers of 256 bits; no digits at all are read as zero. -/
def u256 : U256Texts where
  fromDecStr s := if s = "" then some 0 else (EthModule.parseDecimal s).filter (· < 2 ^ 256)
  lowerHex n := String.ofList (Nat.toDigits 16 n)
  fromDecStr_toString n hn := by
    have hread := EthModule.parseDecimal_toString n
    have hne : toString n ≠ "" := by
      intro hempty
      rw [hempty] at hread
      cases hread
    rw [if_neg hne, hread, Option.filter_some, if_pos (decide_eq_true hn)]
  toList_lowerHex n _ := String.toList_ofList

/-- A parser of addresses, which takes 40 hexadecimal digits, with or without `0x`. -/
def parseH160 (s : String) : Option H160 :=
  let ds := match s.toList with
    | '0' :: 'x' :: ds => ds
    | ds => ds
  (decodeHex ds).bind fun bytes => if h : bytes.length = 20 then some ⟨bytes, h⟩ else none

/-- An address, as text. -/
def recipientText : String := "0x52908400098527886E0F7030069857D2E4169EE7"

/-- The same, as bytes. -/
def recipientH160 : H160 where
  bytes := [0x52, 0x90, 0x84, 0x00, 0x09, 0x85, 0x27, 0x88, 0x6e, 0x0f, 0x70, 0x30, 0x06, 0x98, 0x57, 0xd2, 0xe4, 0x16, 0x9e, 0xe7]
  length_eq := rfl

theorem recipientText_isAddress : EthModule.IsAddressText recipientText recipientH160 :=
  ⟨recipientText.toList.drop 2, by decide, by decide, by decide⟩

/-- What is asked of the parser in the runs. -/
theorem parseH160_recipient : parseH160 recipientText = some recipientH160 := by
  have hdigits : decodeHex (recipientText.toList.drop 2) = some recipientH160.bytes := by decide
  have htext : recipientText.toList = '0' :: 'x' :: recipientText.toList.drop 2 := by decide
  unfold parseH160
  rw [htext]
  change (decodeHex (recipientText.toList.drop 2)).bind _ = _
  rw [hdigits]
  rfl

end Sample

namespace EthModule

open Sample

/-- One unit of a token, sent to an address. -/
theorem token_transfer_of_one :
    ∃ tx text, signsendErc20 u256 parseH160 recipientText recipientText recipientText "1" 7 = some tx ∧ tx.data = intoBytes text ∧
      tx.data ≠ transferCall recipientH160 1 ∧ decodeText text ≠ some (transferCall recipientH160 1) := by
  obtain ⟨tx, text, htx, hdata, hne, hiff⟩ := token_transfer_misencoded u256 parseH160 recipientText recipientText recipientText
    recipientH160 recipientH160 recipientH160 parseH160_recipient parseH160_recipient parseH160_recipient
    recipientText_isAddress 1 7
  refine ⟨tx, text, htx, hdata, hne, fun h => ?_⟩
  have hends := hiff.mp h
  revert hends
  decide

/-- The data that is signed for one unit of a token is not the call of `transfer`. -/
theorem token_transfer_wrong : ¬∀ (U : U256Texts) (fromStr : String → Option H160) (userAddress recipient tokenAddress : String)
    (from' to' token : H160), fromStr userAddress = some from' → fromStr recipient = some to' →
      fromStr tokenAddress = some token → IsAddressText recipient to' → ∀ (v : UInt64) (count : Nat),
        ∃ tx, signsendErc20 U fromStr userAddress recipient tokenAddress (toString v.toNat) count = some tx ∧
          tx.data = transferCall to' v.toNat := by
  intro h
  obtain ⟨tx, htx, hcall⟩ := h u256 parseH160 recipientText recipientText recipientText recipientH160 recipientH160 recipientH160
    parseH160_recipient parseH160_recipient parseH160_recipient recipientText_isAddress 1 7
  obtain ⟨tx', htx', hdata⟩ := signsendErc20_toString u256 parseH160_recipient parseH160_recipient
    parseH160_recipient 1 7
  obtain rfl := Option.some.inj (htx.symm.trans htx')
  exact intoBytes_ne_transferCall recipientText_isAddress (by decide) _ (hdata.symm.trans hcall)

end EthModule

end Hexstody
