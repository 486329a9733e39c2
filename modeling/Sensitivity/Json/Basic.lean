import Sensitivity.Numeral

/-! Structured documents: values, and the tokens that they are written with. -/
namespace Sensitivity

/-- The text of a string literal. A literal with half of a surrogate pair has none; it is
only tolerated where the value does not matter. -/
abbrev Literal := Option String

/-- A value. Numbers keep the characters that they are written with, and an object keeps
all its members in order, also those with the same key. -/
inductive Json where
  | null
  | bool (value : Bool)
  | number (lexeme : List Char)
  | string (text : Literal)
  | array (items : List Json)
  | object (members : List (Literal × Json))

namespace Json

def ofString (s : String) : Json := .string (some s)

def ofNat (n : Nat) : Json := .number (Nat.toDigits 10 n)

def ofInt (n : Int) : Json :=
  .number (if n < 0 then '-' :: Nat.toDigits 10 n.natAbs else Nat.toDigits 10 n.natAbs)

def ofFields (fields : List (String × Json)) : Json :=
  .object (fields.map fun (k,v) => (some k,v))

inductive Token where
  | openArray
  | closeArray
  | openObject
  | closeObject
  | comma
  | colon
  | null
  | bool (value : Bool)
  | number (lexeme : List Char)
  | string (text : Literal)
deriving DecidableEq

def isBlank (c : Char) : Bool := c = ' ' ∨ c = '\t' ∨ c = '\n' ∨ c = '\r'

end Json
end Sensitivity
