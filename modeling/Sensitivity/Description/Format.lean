import Sensitivity.Description.Basic
import Sensitivity.Json.Decode
import Sensitivity.Json.Parser
import Sensitivity.Json.Writer

/-! The text format of descriptions. -/
namespace Sensitivity

open Json

namespace Attribute

/-- An attribute value: the first of a whole number, a number, a text, a list of whole
numbers and a list of numbers that it can be read as. -/
def ofJson? : Nat → Json → Option (Attribute Single)
  | _, .number lexeme => do
    let v ← numberValue? lexeme
    return match v.toInt? with
      | some n => .int n
      | none => .float v.toSingle
  | _, .string literal => literal.map .text
  | _ + 1, .array items => do
    let values ← items.mapM Json.toValue?
    return match values.mapM Value.toInt? with
      | some whole => .ints whole
      | none => .floats (values.map Value.toSingle)
  | _, _ => none

def toJson : Attribute Single → Json
  | .int v => .ofInt v
  | .float v => .ofSingle v
  | .text v => .ofString v
  | .ints vs => .array (vs.map Json.ofInt)
  | .floats vs => .array (vs.map Json.ofSingle)

end Attribute

namespace TensorData

def ofJson? (room : Nat) (j : Json) : Option TensorData := do
  match ← record? ["shape","data"] room j with
  | (room,[some shape,some data]) =>
    return ⟨← toList? (fun _ => Json.toNat?) room shape,
      ← toList? (fun _ => Json.toSingle?) room data⟩
  | _ => none

def ofNullable? (room : Nat) : Json → Option (Option TensorData)
  | .null => some none
  | j => (ofJson? room j).map some

def toJson (d : TensorData) : Json :=
  .ofFields [("shape",.array (d.shape.map Json.ofNat)),("data",.array (d.data.map Json.ofSingle))]

end TensorData

def attributesOf? : Nat → Json → Option (List (String × Attribute Single))
  | room + 1, .object members => members.mapM fun (key,value) => do
    return (← key,← Attribute.ofJson? room value)
  | _, _ => none

def LayerSpecs.ofList : List (LayerFields × BranchSpecs) → LayerSpecs
  | [] => .nil
  | (fields,branches) :: rest => .cons fields branches (ofList rest)

def BranchSpecs.ofList : List (String × LayerSpecs) → BranchSpecs
  | [] => .nil
  | (name,layers) :: rest => .cons name layers (ofList rest)

mutual

def layersOf? : Nat → Json → Option LayerSpecs
  | room + 1, .array items => (items.mapM (layerOf? room)).map LayerSpecs.ofList
  | _, _ => none

/-- One layer: its name and kind are required. -/
def layerOf? : Nat → Json → Option (LayerFields × BranchSpecs)
  | room + 1, j => do
    match ← record? ["name","kind","attributes","weights","bias","branches"] (room + 1) j with
    | (_,[some name,some kind,attributes,weights,bias,branches]) =>
      let fields : LayerFields :=
        ⟨← name.toText?,← kind.toText?,← optional? (attributesOf? room) [] attributes,
          ← optional? (TensorData.ofNullable? room) none weights,
          ← optional? (TensorData.ofNullable? room) none bias⟩
      return (fields,← optional? (branchesOf? room) .nil branches)
    | _ => none
  | 0, _ => none

def branchesOf? : Nat → Json → Option BranchSpecs
  | room + 1, .array items => (items.mapM (branchOf? room)).map BranchSpecs.ofList
  | _, _ => none

def branchOf? : Nat → Json → Option (String × LayerSpecs)
  | room + 1, j => do
    match ← record? ["name","layers"] (room + 1) j with
    | (_,[some name,layers]) =>
      return (← name.toText?,← optional? (layersOf? room) .nil layers)
    | _ => none
  | 0, _ => none

end

namespace LayerFields

/-- The fields that are written: empty and absent ones are left out. -/
def toFields (f : LayerFields) : List (String × Json) :=
  [("name",.ofString f.name),("kind",.ofString f.kind)] ++
  (if f.attributes.isEmpty then []
    else [("attributes",.ofFields (f.attributes.map fun (key,v) => (key,v.toJson)))]) ++
  (f.weights.toList.map fun d => ("weights",d.toJson)) ++
  (f.bias.toList.map fun d => ("bias",d.toJson))

end LayerFields

mutual

def LayerSpecs.toJson : LayerSpecs → List Json
  | .nil => []
  | .cons fields .nil rest => .ofFields fields.toFields :: rest.toJson
  | .cons fields branches rest =>
    .ofFields (fields.toFields ++ [("branches",.array branches.toJson)]) :: rest.toJson

def BranchSpecs.toJson : BranchSpecs → List Json
  | .nil => []
  | .cons name layers rest =>
    .ofFields [("name",.ofString name),("layers",.array layers.toJson)] :: rest.toJson

end

namespace Description

def ofJson? (j : Json) : Option Description := do
  match ← record? ["name","input_shape","layers"] nestingLimit j with
  | (room,[some name,some shape,some layers]) =>
    return ⟨← name.toText?,← toList? (fun _ => Json.toNat?) room shape,← layersOf? room layers⟩
  | _ => none

def toJson (d : Description) : Json :=
  .ofFields [("name",.ofString d.name),("input_shape",.array (d.inputShape.map Json.ofNat)),
    ("layers",.array d.layers.toJson)]

end Description

namespace Network

def ofText (text : String) : Except (Error Single) (Network Single) :=
  match (Json.ofText? text).bind Description.ofJson? with
  | none => .error (.malformed .unreadable)
  | some d => d.toNetwork

def toText (net : Network Single) : String := (Description.ofNetwork net).toJson.pretty

end Network
end Sensitivity
