import Hexstody.Library.Hex
import Hexstody.Library.Rounding

/-!
# The ETH module: transfers of tokens

What `signsend_erc20` of `hexstody-eth` asks the node to sign when the hot wallet pays a withdrawal of a token
(`handlers/sending.rs`), with the conversion of the amount (`utils.rs`). The parser of addresses and the numbers of 256 bits are not part
of the repository, and are parameters. A call of `unwrap` that fails ends the handler, and nothing is signed.
-/

namespace Hexstody

/-- An address of 20 bytes. -/
structure H160 where
  bytes : List UInt8
  length_eq : bytes.length = 20

/-- The numbers of 256 bits, as far as they are used: one is read from its decimal digits, and written in hexadecimal without leading
zeros. -/
structure U256Texts where
  /-- `U256::from_dec_str` -/
  fromDecStr : String → Option Nat
  /-- What the format `:x` prints. -/
  lowerHex : Nat → String
  fromDecStr_toString : ∀ n, n < 2 ^ 256 → fromDecStr (toString n) = some n
  toList_lowerHex : ∀ n, n < 2 ^ 256 → (lowerHex n).toList = Nat.toDigits 16 n

namespace EthModule

/-! ## Texts -/

/-- The number that a text of decimal digits stands for. -/
def parseDecimal (s : String) : Option Nat :=
  if s.toList ≠ [] ∧ s.toList.all Char.isDigit = true then some (Nat.ofDigitChars 10 s.toList 0) else none

/-- The bytes of a text, in UTF-8. -/
def intoBytes (s : String) : List UInt8 := s.toList.flatMap String.utf8EncodeChar

/-! ## Floating-point numbers -/

/-- The significant binary digits of an `f64`. -/
def F64_DIGITS : Nat := 53

/-- `parse::<f64>`, of a text of decimal digits. A number beyond the largest `f64` would be infinite, and is cast as that is. -/
def parseF64 (s : String) : Option Nat := (parseDecimal s).map (roundTo F64_DIGITS)

/-- The product of two numbers as `f64`. -/
def mulF64 (a b : Nat) : Nat := roundTo F64_DIGITS (a * b)

/-- The cast of an `f64` to `u64`, which saturates. -/
def asU64 (a : Nat) : Nat := min a 18446744073709551615

/-- `to_hex_str_clean`: the amount, times 10^18, in hexadecimal. -/
def toHexStrClean (U : U256Texts) (volume : String) : Option String := do
  let vol ← parseF64 volume
  let vals := toString (asU64 (mulF64 1000000000000000000 vol))
  let valU ← U.fromDecStr vals
  return U.lowerHex valU

/-! ## The transaction -/

/-- Of a `TransactionRequest`, the fields that are set. -/
structure TransactionRequest where
  from' : H160
  to' : H160
  value : Nat
  gas : Nat
  gasPrice : Nat
  data : List UInt8
  nonce : Nat

def rawHexVolumeCommand : String := String.ofList (List.replicate 64 '0')

/-- The text of the call of `transfer`. -/
def txData (recipient hexVolume : String) : String :=
  "0xa9059cbb000000000000000000000000" ++ String.ofList (recipient.toList.drop 2) ++
    String.ofList (rawHexVolumeCommand.toList.take (rawHexVolumeCommand.toList.length - hexVolume.toList.length)) ++ hexVolume

/-- (`GET /signingsend/erc20/login/..`) What the node is asked to sign, for the address of the user and the transactions that it has
sent. -/
def signsendErc20 (U : U256Texts) (fromStr : String → Option H160) (userAddress recipient tokenAddress volume : String) (count : Nat) :
    Option TransactionRequest := do
  let h160addr ← fromStr userAddress
  let _h160recipient ← fromStr recipient
  let _h160tokenAddress ← fromStr tokenAddress
  let hexVolume ← toHexStrClean U volume
  let to' ← fromStr tokenAddress
  let _valU ← U.fromDecStr volume
  return {
    from' := h160addr
    to' := to'
    value := 0
    gas := 520000
    gasPrice := 1800000000
    data := intoBytes (txData recipient hexVolume)
    nonce := count }

end EthModule

end Hexstody
