import Sensitivity.Json.Number

/-! Reading records and lists out of values. Only so many containers may be open inside one
another: `room` is how many more. -/
namespace Sensitivity.Json

/-- How many containers may be open at once. -/
def nestingLimit : Nat := 127

def toText? : Json → Option String
  | .string text => text
  | _ => none

def toBool? : Json → Option Bool
  | .bool b => some b
  | _ => none

def toValue? : Json → Option Value
  | .number lexeme => numberValue? lexeme
  | _ => none

def toNat? (j : Json) : Option Nat := j.toValue?.bind Value.toNat?

def toSingle? (j : Json) : Option Single := j.toValue?.map Value.toSingle

def toList? {β : Type} (f : Nat → Json → Option β) : Nat → Json → Option (List β)
  | room + 1, .array items => items.mapM (f room)
  | _, _ => none

/-- The member with a key, which may not stand twice. -/
def member? (members : List (Literal × Json)) (key : String) : Option (Option Json) :=
  match members.filter fun m => m.1 = some key with
  | [] => some none
  | [m] => some (some m.2)
  | _ => none

/-- The fields of a record, in the order of their names. A record is an object, whose
unknown members are ignored, or an array of the first few fields. -/
def record? (names : List String) : Nat → Json → Option (Nat × List (Option Json))
  | room + 1, .object members =>
    if members.all fun m => m.1.isSome then
      (names.mapM (member? members)).map fun fields => (room,fields)
    else none
  | room + 1, .array items =>
    if items.length ≤ names.length then
      some (room,(items.map some) ++ List.replicate (names.length - items.length) none)
    else none
  | _, _ => none

def optional? {β : Type} (f : Json → Option β) (fallback : β) : Option Json → Option β
  | none => some fallback
  | some j => f j

end Sensitivity.Json
