import Sensitivity.CommandLine.Flag
import Sensitivity.Text.Column

/-! The help texts: what a call looks like, and tables of its commands, arguments and flags. -/
namespace Sensitivity.CommandLine

inductive Topic where
  | program
  | command (c : Command)
  | help
deriving DecidableEq

namespace Flag

/-- What stands for the value of a flag. -/
def valueName : Flag → String
  | .config => "CONFIG"
  | .inputMin => "INPUT_MIN"
  | .inputMax => "INPUT_MAX"
  | .score => "SCORE"
  | .fraction => "FRACTION"
  | .output => "OUTPUT"
  | _ => ""

/-- How a flag is written; long names stand below each other. -/
def spelling (f : Flag) : String :=
  let short := match f.letter? with
    | some c => String.ofList ['-',c,',',' ']
    | none => "    "
  let value := if f.takesValue then " <" ++ f.valueName ++ ">" else ""
  short ++ "--" ++ f.name ++ value ++ (if f.repeats then "..." else "")

end Flag

namespace Command

def about : Command → String
  | .inspect => "Propagate the input box and report per-layer bound widths"
  | .indicators => "Compute per-weight importance indicators"
  | .prune => "Zero the globally least important fraction of weights"

/-- What a call of the command needs besides flags of choice. -/
def needs : Command → String
  | .prune => "--output <OUTPUT> <NETWORK>"
  | _ => "<NETWORK>"

end Command

namespace Topic

def aboutFlag (t : Topic) : Flag → String
  | .config => "JSON run configuration; command-line flags take precedence"
  | .verbose => "Increase log verbosity (-v debug, -vv trace). RUST_LOG wins if set"
  | .sequential => "Disable rayon parallelism"
  | .inputMin => "Smallest value of any input element"
  | .inputMax => "Largest value of any input element"
  | .json =>
    match t with
    | .command .indicators => "Print every indicator value as JSON"
    | .command .prune => "Print the pruning report as JSON"
    | _ => "Print the report as JSON"
  | .score => "Score reduction: max-abs, upper or width"
  | .fraction => "Fraction of all weights to zero, in [0, 1]"
  | .output => "Where to write the pruned network"
  | .help => "Print help"
  | .version => "Print version"

def aboutHelp : String := "Print this message or the help of the given subcommand(s)"

def about : Topic → String
  | .program => "Derivative-range sensitivity bounds and global weight pruning"
  | .command c => c.about
  | .help => aboutHelp

def call : Topic → String
  | .program => "derest [OPTIONS] <COMMAND>"
  | .command c => "derest " ++ c.name ++ " [OPTIONS] " ++ c.needs
  | .help => "derest help [COMMAND]..."

/-- A headed table of two columns; a table without rows is left out. -/
def table (heading : String) (rows : List (String × String)) : List String :=
  let width := (rows.map fun r => r.1.length).foldl max 0
  if rows.isEmpty then []
  else "" :: heading :: rows.map fun r => "  " ++ Text.left width r.1 ++ "  " ++ r.2

def commands : Topic → List (String × String)
  | .program => (Command.all.map fun c => (c.name,c.about)) ++ [("help",aboutHelp)]
  | _ => []

def arguments : Topic → List (String × String)
  | .program => []
  | .command _ => [("<NETWORK>","Network description (JSON)")]
  | .help => [("[COMMAND]...","Print help for the subcommand(s)")]

def flags : Topic → List Flag
  | .program => frontFlags
  | .command c => c.flags
  | .help => []

def text (t : Topic) : String :=
  Text.lines ([t.about,"","Usage: " ++ t.call] ++
    table "Commands:" t.commands ++
    table "Arguments:" t.arguments ++
    table "Options:" (t.flags.map fun f => (f.spelling,t.aboutFlag f)))

end Topic

end Sensitivity.CommandLine
