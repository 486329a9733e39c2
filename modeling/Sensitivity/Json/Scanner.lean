import Sensitivity.Json.Basic

/-! From characters to tokens. -/
namespace Sensitivity.Json

/-- A character of a string literal, or a number from an escape with four hexadecimal digits. -/
inductive Piece where
  | char (c : Char)
  | unit (n : Nat)
deriving DecidableEq

def hexValue? (c : Char) : Option Nat :=
  if c.isDigit then some (c.toNat - '0'.toNat)
  else if 'a' ≤ c ∧ c ≤ 'f' then some (c.toNat - 'a'.toNat + 10)
  else if 'A' ≤ c ∧ c ≤ 'F' then some (c.toNat - 'A'.toNat + 10)
  else none

def unitValue? (a b c d : Char) : Option Nat := do
  return (((← hexValue? a) * 16 + (← hexValue? b)) * 16 + (← hexValue? c)) * 16 + (← hexValue? d)

def escaped? : Char → Option Char
  | '"' => some '"'
  | '\\' => some '\\'
  | '/' => some '/'
  | 'b' => some '\x08'
  | 'f' => some '\x0c'
  | 'n' => some '\n'
  | 'r' => some '\r'
  | 't' => some '\t'
  | _ => none

/-- The pieces of a string literal up to its closing quote, and what follows it.
Controls have to be escaped. -/
def scanPieces : List Char → Option (List Piece × List Char)
  | [] => none
  | '"' :: rest => some ([],rest)
  | '\\' :: 'u' :: a :: b :: c :: d :: rest => do
    let n ← unitValue? a b c d
    let (pieces,rest) ← scanPieces rest
    return (.unit n :: pieces,rest)
  | '\\' :: e :: rest => do
    let c ← escaped? e
    let (pieces,rest) ← scanPieces rest
    return (.char c :: pieces,rest)
  | c :: rest =>
    if c.toNat < 0x20 ∨ c = '\\' then none
    else do
      let (pieces,rest) ← scanPieces rest
      return (.char c :: pieces,rest)

def isHighSurrogate (n : Nat) : Bool := 0xD800 ≤ n && n < 0xDC00

def isLowSurrogate (n : Nat) : Bool := 0xDC00 ≤ n && n < 0xE000

/-- The characters of the pieces: a high and a low surrogate join to one character, and
neither stands alone. -/
def joinPieces : List Piece → Option (List Char)
  | [] => some []
  | .char c :: rest => (joinPieces rest).map (c :: ·)
  | .unit h :: .unit l :: rest =>
    if isHighSurrogate h then
      if isLowSurrogate l then
        (joinPieces rest).map
          (Char.ofNat (0x10000 + (h - 0xD800) * 0x400 + (l - 0xDC00)) :: ·)
      else none
    else if isLowSurrogate h then none
    else (joinPieces (.unit l :: rest)).map (Char.ofNat h :: ·)
  | .unit n :: rest =>
    if isHighSurrogate n || isLowSurrogate n then none
    else (joinPieces rest).map (Char.ofNat n :: ·)

def scanDigits (cs : List Char) : Option (List Char × List Char) :=
  if cs.takeWhile Char.isDigit = [] then none
  else some (cs.takeWhile Char.isDigit,cs.dropWhile Char.isDigit)

/-- The whole part of a number, without leading zeros. -/
def scanWhole (cs : List Char) : Option (List Char × List Char) := do
  let (digits,rest) ← scanDigits cs
  if digits.head? = some '0' ∧ digits ≠ ['0'] then none
  else return (digits,rest)

def scanFraction : List Char → Option (List Char × List Char)
  | '.' :: cs => do
    let (digits,rest) ← scanDigits cs
    return ('.' :: digits,rest)
  | cs => some ([],cs)

def scanSign : List Char → List Char × List Char
  | '-' :: cs => (['-'],cs)
  | '+' :: cs => (['+'],cs)
  | cs => ([],cs)

def scanExponent : List Char → Option (List Char × List Char)
  | c :: cs =>
    if c = 'e' ∨ c = 'E' then do
      let (sign,cs) := scanSign cs
      let (digits,rest) ← scanDigits cs
      return (c :: sign ++ digits,rest)
    else some ([],c :: cs)
  | [] => some ([],[])

def scanUnsigned (cs : List Char) : Option (List Char × List Char) := do
  let (whole,cs) ← scanWhole cs
  let (fraction,cs) ← scanFraction cs
  let (exponent,cs) ← scanExponent cs
  return (whole ++ fraction ++ exponent,cs)

def scanNumber : List Char → Option (List Char × List Char)
  | '-' :: cs => (scanUnsigned cs).map fun (lexeme,rest) => ('-' :: lexeme,rest)
  | cs => scanUnsigned cs

def scanToken : List Char → Option (Token × List Char)
  | '[' :: rest => some (.openArray,rest)
  | ']' :: rest => some (.closeArray,rest)
  | '\x7b' :: rest => some (.openObject,rest)
  | '\x7d' :: rest => some (.closeObject,rest)
  | ',' :: rest => some (.comma,rest)
  | ':' :: rest => some (.colon,rest)
  | 'n' :: 'u' :: 'l' :: 'l' :: rest => some (.null,rest)
  | 't' :: 'r' :: 'u' :: 'e' :: rest => some (.bool true,rest)
  | 'f' :: 'a' :: 'l' :: 's' :: 'e' :: rest => some (.bool false,rest)
  | '"' :: rest => do
    let (pieces,rest) ← scanPieces rest
    return (.string ((joinPieces pieces).map String.ofList),rest)
  | cs => (scanNumber cs).map fun (lexeme,rest) => (.number lexeme,rest)

/-- All tokens of a text; a token takes a character at least, so that as much fuel as
there are characters is enough. -/
def scanAll : Nat → List Char → Option (List Token)
  | 0, cs => if cs.all isBlank then some [] else none
  | fuel + 1, cs =>
    match cs.dropWhile isBlank with
    | [] => some []
    | c :: rest => do
      let (token,rest) ← scanToken (c :: rest)
      return token :: (← scanAll fuel rest)

def scan (cs : List Char) : Option (List Token) := scanAll cs.length cs

end Sensitivity.Json
