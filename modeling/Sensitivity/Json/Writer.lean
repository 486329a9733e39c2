import Sensitivity.Json.Basic

/-! From values to texts, on one line or indented. -/
namespace Sensitivity.Json

def hexDigit (n : Nat) : Char := (Nat.toDigits 16 n).headD '0'

/-- A character inside a string literal: quotes, backslashes and controls are escaped. -/
def writeChar (c : Char) : List Char :=
  if c = '"' then ['\\','"']
  else if c = '\\' then ['\\','\\']
  else if c = '\x08' then ['\\','b']
  else if c = '\x0c' then ['\\','f']
  else if c = '\n' then ['\\','n']
  else if c = '\r' then ['\\','r']
  else if c = '\t' then ['\\','t']
  else if c.toNat < 0x20 then
    ['\\','u','0','0',hexDigit (c.toNat / 16),hexDigit (c.toNat % 16)]
  else [c]

/-- A string literal; one without a text is written as the escape that it lacks a partner for. -/
def writeLiteral : Literal → List Char
  | some s => '"' :: (s.toList.flatMap writeChar ++ ['"'])
  | none => ['"','\\','u','d','8','0','0','"']

/-- How a document is laid out: what stands before each item of a container at some depth,
and what stands after the colon of a member. -/
structure Layout where
  lineBreak : Nat → List Char
  afterColon : List Char

def Layout.compact : Layout := ⟨fun _ => [],[]⟩

def Layout.pretty : Layout := ⟨fun depth => '\n' :: List.replicate (2 * depth) ' ',[' ']⟩

mutual

/-- A value inside as many containers as `depth` says. -/
def write (layout : Layout) (depth : Nat) : Json → List Char
  | .null => ['n','u','l','l']
  | .bool true => ['t','r','u','e']
  | .bool false => ['f','a','l','s','e']
  | .number lexeme => lexeme
  | .string text => writeLiteral text
  | .array [] => ['[',']']
  | .array (item :: items) =>
    '[' :: (layout.lineBreak (depth + 1) ++ write layout (depth + 1) item ++
      writeItems layout (depth + 1) items ++ layout.lineBreak depth ++ [']'])
  | .object [] => ['\x7b','\x7d']
  | .object ((key,value) :: members) =>
    '\x7b' :: (layout.lineBreak (depth + 1) ++ writeLiteral key ++ ':' :: layout.afterColon ++
      write layout (depth + 1) value ++ writeMembers layout (depth + 1) members ++
      layout.lineBreak depth ++ ['\x7d'])

def writeItems (layout : Layout) (depth : Nat) : List Json → List Char
  | [] => []
  | item :: items =>
    ',' :: (layout.lineBreak depth ++ write layout depth item ++ writeItems layout depth items)

def writeMembers (layout : Layout) (depth : Nat) : List (Literal × Json) → List Char
  | [] => []
  | (key,value) :: members =>
    ',' :: (layout.lineBreak depth ++ writeLiteral key ++ ':' :: layout.afterColon ++
      write layout depth value ++ writeMembers layout depth members)

end

def compact (value : Json) : String := String.ofList (value.write .compact 0)

def pretty (value : Json) : String := String.ofList (value.write .pretty 0)

end Sensitivity.Json
