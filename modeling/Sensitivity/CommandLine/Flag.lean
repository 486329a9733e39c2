import Sensitivity.Score
import Sensitivity.Numeric.Reader

/-! The commands, the flags that each of them knows, and which texts a flag takes for its
value. -/
namespace Sensitivity.CommandLine

inductive Flag where
  | config
  | verbose
  | sequential
  | inputMin
  | inputMax
  | json
  | score
  | fraction
  | output
  | help
  | version
deriving DecidableEq

def path? (text : String) : Option String := if text = "" then none else some text

def score? (text : String) : Option Score := (Score.ofName (α := Single) text).toOption

namespace Flag

def name : Flag → String
  | .config => "config"
  | .verbose => "verbose"
  | .sequential => "sequential"
  | .inputMin => "input-min"
  | .inputMax => "input-max"
  | .json => "json"
  | .score => "score"
  | .fraction => "fraction"
  | .output => "output"
  | .help => "help"
  | .version => "version"

def letter? : Flag → Option Char
  | .verbose => some 'v'
  | .fraction => some 'f'
  | .output => some 'o'
  | .help => some 'h'
  | .version => some 'V'
  | _ => none

def takesValue : Flag → Bool
  | .config | .inputMin | .inputMax | .score | .fraction | .output => true
  | _ => false

/-- Whether a value may be a negative number that stands by itself. -/
def allowsNegative : Flag → Bool
  | .inputMin | .inputMax => true
  | _ => false

def repeats (f : Flag) : Bool := f = .verbose

def accepts (f : Flag) (text : String) : Bool :=
  match f with
  | .config | .output => (path? text).isSome
  | .inputMin | .inputMax | .fraction => (Numeric.single? text).isSome
  | .score => (score? text).isSome
  | _ => true

end Flag

inductive Command where
  | inspect
  | indicators
  | prune
deriving DecidableEq

namespace Command

def all : List Command := [.inspect,.indicators,.prune]

def name : Command → String
  | .inspect => "inspect"
  | .indicators => "indicators"
  | .prune => "prune"

def ofName? (s : String) : Option Command := all.find? fun c => c.name = s

theorem ofName?_name (c : Command) : ofName? c.name = some c := by cases c <;> rfl

theorem ofName?_eq_some_iff (s : String) (c : Command) : ofName? s = some c ↔ s = c.name := by
  constructor
  · intro h
    unfold ofName? at h
    have hn := List.find?_some h
    simpa using Eq.symm (of_decide_eq_true hn)
  · rintro rfl
    exact ofName?_name c

/-- The flags that a command knows, as its help lists them. -/
def flags : Command → List Flag
  | .inspect => [.config,.inputMin,.inputMax,.verbose,.json,.sequential,.help]
  | .indicators =>
    [.config,.inputMin,.inputMax,.verbose,.score,.sequential,.json,.help]
  | .prune =>
    [.config,.inputMin,.inputMax,.verbose,.fraction,.sequential,.score,.output,.json,
      .help]

end Command

/-- The flags that may stand in front of a command. -/
def frontFlags : List Flag := [.config,.verbose,.sequential,.help,.version]

end Sensitivity.CommandLine
