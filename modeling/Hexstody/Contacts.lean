import Hexstody.Library.Pattern
import Hexstody.Domain

/-!
# Contacts

The checks of an e-mail address and of a phone number (`hexstody-api`, `domain/mod.rs`), which are regular expressions. The pattern of
an address is anchored where it begins and not where it ends, so it is enough that the text begins with a match; that of a phone number
is anchored on both sides. Which characters `\d` and `\s` stand for is the `regex` crate's (`CharClasses`): in ASCII the digits, and in
Unicode other decimal digits and white space as well.
-/

namespace Hexstody

/-- The characters of `\d` and `\s`. -/
structure CharClasses where
  decimal : Char → Bool
  space : Char → Bool
  /-- `0` to `9` are decimal digits. -/
  decimal_of_isDigit : ∀ c, c.isDigit = true → decimal c = true
  /-- No other character of ASCII is. -/
  isDigit_of_decimal : ∀ c, c.toNat < 128 → decimal c = true → c.isDigit = true
  /-- White space is no digit. -/
  not_decimal_of_space : ∀ c, space c = true → decimal c = false

/-- No more than the characters of ASCII. -/
def CharClasses.ascii : CharClasses where
  decimal := Char.isDigit
  space c := c == ' ' || (9 ≤ c.toNat && c.toNat ≤ 13)
  decimal_of_isDigit _ h := h
  isDigit_of_decimal _ _ h := h
  not_decimal_of_space c h := by
    simp only [Bool.or_eq_true, beq_iff_eq, Bool.and_eq_true, decide_eq_true_eq] at h
    rw [Bool.eq_false_iff]
    intro hd
    have hlo : 48 ≤ c.toNat := (Char.isDigit_iff_toNat.mp hd).1
    rcases h with rfl | h
    · exact absurd hd (by decide)
    · omega

/-! ## E-mail addresses -/

/-- `[a-z0-9]` -/
def isLabelChar (c : Char) : Bool := c.isLower || c.isDigit

/-- `[a-z0-9_+]` -/
def isLocalChar (c : Char) : Bool := isLabelChar c || c == '_' || c == '+'

/-- `[a-z0-9_+.]` -/
def isDottedLocalChar (c : Char) : Bool := isLocalChar c || c == '.'

/-- `[\-\.]` -/
def isLabelSeparator (c : Char) : Bool := c == '-' || c == '.'

namespace Email

/-- `[a-z0-9_+]([a-z0-9_+.]*[a-z0-9_+])?` -/
def localPattern : Pattern Char :=
  .follow (.one isLocalChar) (.opt (.follow (.many (.one isDottedLocalChar)) (.one isLocalChar)))

/-- `[a-z0-9]+([\-\.]{1}[a-z0-9]+)*` -/
def hostPattern : Pattern Char :=
  .follow (.plus (.one isLabelChar)) (.many (.follow (.times (.one isLabelSeparator) 1) (.plus (.one isLabelChar))))

/-- `^([a-z0-9_+]([a-z0-9_+.]*[a-z0-9_+])?)@([a-z0-9]+([\-\.]{1}[a-z0-9]+)*\.[a-z]{2,6})` -/
def pattern : Pattern Char :=
  .sequence [localPattern, .symbol '@', hostPattern, .symbol '.', .between (.one Char.isLower) 2 6]

def validate (value : String) : Bool := pattern.acceptsPrefix value.toList

def fromStr (value : String) : Option Email := if validate value then some { email := value } else none

end Email

/-! ## Phone numbers -/

namespace PhoneNumber

variable (K : CharClasses)

/-- `\d` -/
def digit : Pattern Char := .one K.decimal

/-- `\s` -/
def space : Pattern Char := .one K.space

/-- `[\s.-]?` -/
def separator : Pattern Char := .opt (.one fun c => K.space c || c == '.' || c == '-')

/-- `(\+\d{1,2}\s?)?1?\-?\.?\s?\(?\d{3}\)?[\s.-]?\d{3}[\s.-]?`, which both alternatives begin with. -/
def beginning : List (Pattern Char) :=
  [.opt (.sequence [.symbol '+', .between (digit K) 1 2, .opt (space K)]), .opt (.symbol '1'), .opt (.symbol '-'), .opt (.symbol '.'),
    .opt (space K), .opt (.symbol '('), .times (digit K) 3, .opt (.symbol ')'), separator K, .times (digit K) 3, separator K]

/-- `^(\+\d{1,2}\s?)?1?\-?\.?\s?\(?\d{3}\)?[\s.-]?\d{3}[\s.-]?\d{4}$`, or the same that ends in `\d{2}[\s.-]?\d{2}$`. -/
def pattern : Pattern Char :=
  .either (.sequence (beginning K ++ [.times (digit K) 4]))
    (.sequence (beginning K ++ [.times (digit K) 2, separator K, .times (digit K) 2]))

def validate (value : String) : Bool := (pattern K).accepts value.toList

def fromStr (value : String) : Option PhoneNumber := if validate K value then some { number := value } else none

end PhoneNumber

end Hexstody
