import Sensitivity.Json.Scanner

/-! From tokens to values. -/
namespace Sensitivity.Json

mutual

def parseValue : Nat → List Token → Option (Json × List Token)
  | 0, _ => none
  | _ + 1, .null :: rest => some (.null,rest)
  | _ + 1, .bool b :: rest => some (.bool b,rest)
  | _ + 1, .number lexeme :: rest => some (.number lexeme,rest)
  | _ + 1, .string text :: rest => some (.string text,rest)
  | _ + 1, .openArray :: .closeArray :: rest => some (.array [],rest)
  | fuel + 1, .openArray :: rest => do
    let (items,rest) ← parseItems fuel rest
    return (.array items,rest)
  | _ + 1, .openObject :: .closeObject :: rest => some (.object [],rest)
  | fuel + 1, .openObject :: rest => do
    let (members,rest) ← parseMembers fuel rest
    return (.object members,rest)
  | _ + 1, _ => none

def parseItems : Nat → List Token → Option (List Json × List Token)
  | 0, _ => none
  | fuel + 1, tokens => do
    let (item,rest) ← parseValue fuel tokens
    match rest with
    | .comma :: rest =>
      let (items,rest) ← parseItems fuel rest
      return (item :: items,rest)
    | .closeArray :: rest => return ([item],rest)
    | _ => none

def parseMembers : Nat → List Token → Option (List (Literal × Json) × List Token)
  | 0, _ => none
  | fuel + 1, .string key :: .colon :: tokens => do
    let (value,rest) ← parseValue fuel tokens
    match rest with
    | .comma :: rest =>
      let (members,rest) ← parseMembers fuel rest
      return ((key,value) :: members,rest)
    | .closeObject :: rest => return ([(key,value)],rest)
    | _ => none
  | _ + 1, _ => none

end

def ofTokens? (tokens : List Token) : Option Json :=
  match parseValue (2 * tokens.length) tokens with
  | some (value,[]) => some value
  | _ => none

def ofText? (text : String) : Option Json := (scan text.toList).bind ofTokens?

end Sensitivity.Json
