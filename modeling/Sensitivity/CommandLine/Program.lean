import Sensitivity.CommandLine.Arguments
import Sensitivity.Config.Format
import Sensitivity.Description.Format
import Sensitivity.Report.Bounds
import Sensitivity.Report.Weights

/-! What a call of the command does, as a tree of file accesses that ends in an exit. -/
namespace Sensitivity.CommandLine

inductive Exit where
  | success (output : String)
  | failure (message : String)
  | usage

/-- A call that reads and writes files before it ends. -/
inductive Program where
  | exit (result : Exit)
  | read (path : String) (next : Option String → Program)
  /-- Goes on with whether the file could be written. -/
  | write (path text : String) (next : Bool → Program)

namespace Program

def fail (message : String) : Program := .exit (.failure message)

/-- Goes on with a result, or fails with the wording of its error. -/
def orFail {β : Type} (r : Except (Error Single) β) (next : β → Program) : Program :=
  match r with
  | .ok v => next v
  | .error e => fail e.message

end Program

open Program

/-- The settings of a file, or the defaults where none is named. -/
def withConfig (path : Option String) (next : Config → Program) : Program :=
  match path with
  | none => next {}
  | some path => .read path fun
    | none => fail ("Failed to read config " ++ path)
    | some text =>
      match Config.ofText? text with
      | none => fail ("Failed to parse config " ++ path)
      | some config => next config

/-- Arguments override the settings of the file. -/
def Request.override (r : Request) (c : Config) : Config :=
  { inputMin := r.inputMin.getD c.inputMin
    inputMax := r.inputMax.getD c.inputMax
    fraction := r.fraction.getD c.fraction
    score := r.score.getD c.score
    parallelism := if r.sequential then { c.parallelism with enabled := false }
      else c.parallelism }

def withNetwork (path : String) (next : Network Single → Program) : Program :=
  .read path fun
    | none => fail ("Failed to load network " ++ path)
    | some text =>
      match Network.ofText text with
      | .error _ => fail ("Failed to load network " ++ path)
      | .ok net => next net

def printed (asJson : Bool) (json : Json) (summary : String) : Program :=
  .exit (.success (if asJson then json.pretty else summary))

def inspect (r : Request) (c : Config) (net : Network Single) : Program :=
  let report := do
    let e ← Engine.compile net
    return BoundsReport.ofRun e (← e.propagateRange ⟨c.inputMin,c.inputMax⟩)
  orFail report fun report => printed r.json report.toJson report.summary

def indicators (r : Request) (c : Config) (net : Network Single) : Program :=
  orFail (net.indicators ⟨c.inputMin,c.inputMax⟩ c.score.apply) fun ind =>
    printed r.json ind.toJson ind.summary

def prune (r : Request) (c : Config) (net : Network Single) : Program :=
  let (pruned,report) := c.prune net
  orFail report fun report =>
    let output := r.output.getD ""
    .write output pruned.toText fun written =>
      if written then printed r.json report.toJson report.summary
      else fail ("Failed to write " ++ output)

/-- The settings come first, then the network, then the work. -/
def Request.program (r : Request) : Program :=
  withConfig r.config fun c =>
    let c := r.override c
    match c.check with
    | .error _ => fail "Invalid configuration"
    | .ok () =>
      withNetwork r.network fun net =>
        match r.command with
        | .inspect => inspect r c net
        | .indicators => indicators r c net
        | .prune => prune r c net

def version : String := "derest 0.1.0"

def program (args : List String) : Program :=
  match Request.ofArguments args with
  | .ok r => r.program
  | .error .usage => .exit .usage
  | .error (.help topic) => .exit (.success topic.text)
  | .error .version => .exit (.success version)

end Sensitivity.CommandLine
