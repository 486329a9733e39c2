import Sensitivity.Config.Basic
import Sensitivity.Json.Decode
import Sensitivity.Json.Parser
import Sensitivity.Json.Writer

/-! The text format of settings. Missing ones keep their defaults. -/
namespace Sensitivity

open Json

namespace Score

/-- A score by its canonical name, which may also be the key of a null. -/
def ofJson? : Nat → Json → Option Score
  | _, .string (some name) => canonical? name
  | _ + 1, .object [(some name,.null)] => canonical? name
  | _, _ => none
where
  canonical? (name : String) : Option Score :=
    [maxAbs,upper,width].find? fun s => s.name = name

end Score

namespace Parallelism

def ofJson? (room : Nat) (j : Json) : Option Parallelism := do
  let defaults : Parallelism := {}
  match ← record? ["parallel","min_parallel_items"] room j with
  | (_,[enabled,minItems]) =>
    return ⟨← optional? Json.toBool? defaults.enabled enabled,
      ← optional? Json.toNat? defaults.minItems minItems⟩
  | _ => none

def toJson (p : Parallelism) : Json :=
  .ofFields [("parallel",.bool p.enabled),("min_parallel_items",.ofNat p.minItems)]

end Parallelism

namespace Config

def ofJson? (j : Json) : Option Config := do
  let defaults : Config := {}
  match ← record? ["input_min","input_max","fraction","score","propagation"]
      nestingLimit j with
  | (room,[inputMin,inputMax,fraction,score,parallelism]) =>
    return ⟨← optional? Json.toSingle? defaults.inputMin inputMin,
      ← optional? Json.toSingle? defaults.inputMax inputMax,
      ← optional? Json.toSingle? defaults.fraction fraction,
      ← optional? (Score.ofJson? room) defaults.score score,
      ← optional? (Parallelism.ofJson? room) defaults.parallelism parallelism⟩
  | _ => none

def toJson (c : Config) : Json :=
  .ofFields [
    ("input_min",.ofSingle c.inputMin),
    ("input_max",.ofSingle c.inputMax),
    ("fraction",.ofSingle c.fraction),
    ("score",.ofString c.score.name),
    ("propagation",c.parallelism.toJson)]

def ofText? (text : String) : Option Config := (Json.ofText? text).bind ofJson?

end Config
end Sensitivity
