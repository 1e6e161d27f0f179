import Hexstody.Library.Radix

/-!
# The mnemonic of a private key

How the browser writes a private key as 24 words and reads it back (`static/scripts/crypto.js`). The list of words is any list of
2048 different words, and the first byte of SHA-256 any function of the key. The texts of bits are the code's own, as lists of
characters. A word is looked up as a property of an object, so that also what the object inherits is found: the inherited properties
are a parameter, each with the text that `toString(2)` gives.
-/

namespace Hexstody

/-- The private key of a pair, 32 bytes. -/
structure PrivateKey where
  bytes : List UInt8
  length_eq : bytes.length = 32

/-- A list of words. -/
structure Wordlist where
  words : List String
  length_eq : words.length = 2048
  nodup : words.Nodup

namespace Mnemonic

/-- What is found under a name in `wordlist`: a number, or something inherited. -/
inductive Property where
  | number (n : Nat)
  | inherited (text : List Char)

namespace Property

def truthy : Property → Bool
  | number n => n != 0
  | inherited _ => true

/-- `toString(2)` -/
def toString2 : Property → List Char
  | number n => Nat.toDigits 2 n
  | inherited text => text

end Property

/-! ## Texts of bits -/

/-- Fill to size with leading zeroes. -/
def dec2binFillN (str : List Char) (n : Nat) : List Char :=
  if str.length < n then List.replicate (n - str.length) '0' ++ str else str

def isLineTerminator (c : Char) : Bool := c == '\n' || c == '\r' || c == '\u2028' || c == '\u2029'

/-- The groups of `n` characters that `match` finds after some characters of the next group; a group ends with its line. -/
def matchFrom (n : Nat) : List Char → List Char → List (List Char)
  | [], [] => []
  | g, [] => [g]
  | g, c :: cs =>
    if isLineTerminator c then (if g = [] then [] else [g]) ++ matchFrom n [] cs
    else if g.length + 1 = n then (g ++ [c]) :: matchFrom n [] cs
    else matchFrom n (g ++ [c]) cs

/-- The groups of `n` characters that `match` finds in a text, the last one of what is left. -/
def matchGroups (n : Nat) (s : List Char) : List (List Char) := matchFrom n [] s

def isBit (c : Char) : Bool := c == '0' || c == '1'

/-- The number that starts a text; none is `NaN`. -/
def leadingBits (ds : List Char) : Option Int :=
  if ds.takeWhile isBit = [] then none else some (Nat.ofDigitChars 2 (ds.takeWhile isBit) 0)

/-- `parseInt(b, 2)` -/
def parseInt2 (b : List Char) : Option Int :=
  match b.dropWhile Char.isWhitespace with
  | '-' :: ds => (leadingBits ds).map (- ·)
  | '+' :: ds => leadingBits ds
  | ds => leadingBits ds

/-- What a number is as an element of a `Uint8Array`. -/
def toUint8 (x : Option Int) : UInt8 := UInt8.ofNat ((x.getD 0) % 256).toNat

def toUint11Array (input : List UInt8) : List (Option Int) :=
  (matchGroups 11 (input.flatMap fun b => dec2binFillN (Nat.toDigits 2 b.toNat) 8)).map parseInt2

def fromUint11Array (input : List Property) : List UInt8 :=
  (matchGroups 8 (input.flatMap fun p => dec2binFillN p.toString2 11)).map fun b => toUint8 (parseInt2 b)

/-! ## The mnemonic -/

section

variable (W : Wordlist) (inherited : String → Option (List Char)) (sha256 : PrivateKey → UInt8)

/-- `wordlistArray[i]` -/
def wordAt : Option Int → Option String
  | some (.ofNat i) => W.words[i]?
  | _ => none

/-- `wordlist[w]` -/
def lookup (w : String) : Option Property :=
  match W.words.idxOf? w with
  | some i => some (.number i)
  | none => (inherited w).map .inherited

/-- The words of a key and of the first byte of its hash. None would be an undefined word. -/
def privateKeyToMnemonic (key : PrivateKey) : Option (List String) :=
  (toUint11Array (key.bytes ++ [sha256 key])).mapM (wordAt W)

/-- The loop that looks up the words. -/
def readWords : List String → Except String (List Property)
  | [] => .ok []
  | w :: ws =>
    match lookup W inherited w with
    | none => .error (w ++ " is not a valid mnemonic word")
    | some p =>
      if p.truthy then (readWords ws).map (p :: ·)
      else .error (w ++ " is not a valid mnemonic word")

/-- The key in some bytes, if the byte after it is its checksum. -/
def checkSummed (bytes : List UInt8) : Except String PrivateKey :=
  if h : 32 < bytes.length then
    let key : PrivateKey := { bytes := bytes.take 32, length_eq := by rw [List.length_take, Nat.min_eq_left (Nat.le_of_lt h)] }
    if sha256 key = bytes[32] then .ok key else .error "Checksum failure"
  else .error "Checksum failure"

def mnemonicToPrivateKey (mnemonic : List String) : Except String PrivateKey :=
  if mnemonic.length ≠ 24 then .error "Not enough words!"
  else
    match readWords W inherited mnemonic with
    | .error e => .error e
    | .ok mnemBytes => checkSummed sha256 (fromUint11Array mnemBytes)

end

end Mnemonic

end Hexstody
