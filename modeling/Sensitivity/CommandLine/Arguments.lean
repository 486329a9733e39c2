import Sensitivity.CommandLine.Help

/-! Command-line arguments: flags and options that hold before or after the command, and
those of one command. Whatever does not fit is a usage error. -/
namespace Sensitivity.CommandLine

/-- Flags as they were given, each with its value, the value without a flag, and a flag with
a value that is not looked at before the command behind it has been read. -/
structure Given where
  flags : List (Flag × String) := []
  network : Option String := none
  waiting : Option (Flag × String) := none

namespace Given

def value? (g : Given) (f : Flag) : Option String := (g.flags.find? fun p => p.1 = f).map (·.2)

def has (g : Given) (f : Flag) : Bool := (g.value? f).isSome

end Given

inductive Stop where
  | usage
  | help (topic : Topic)
  | version
deriving DecidableEq

/-- A negative number, as far as arguments go: digits with at most one point and one `e` or `E`
behind it, neither of them in front and the letter not at the end. -/
def isNegativeNumber (cs : List Char) : Bool :=
  match cs with
  | '-' :: body => go body false false true
  | _ => false
where
  go : List Char → Bool → Bool → Bool → Bool
    | [], _, _, _ => true
    | c :: rest, point, exponent, first =>
      if c.isDigit then go rest point exponent false
      else if c = '.' then !point && !exponent && !first && go rest true exponent false
      else if c = 'e' ∨ c = 'E' then !exponent && !first && !rest.isEmpty && go rest point true false
      else false

def isFlag (arg : String) : Bool :=
  match arg.toList with
  | '-' :: _ :: _ => true
  | _ => false

def standsAsValue (f : Flag) (arg : String) : Bool :=
  !isFlag arg || (f.allowsNegative && isNegativeNumber arg.toList)

def splitEquals (cs : List Char) : String × Option String :=
  match cs.dropWhile (· ≠ '=') with
  | '=' :: value => (String.ofList (cs.takeWhile (· ≠ '=')),some (String.ofList value))
  | _ => (String.ofList cs,none)

/-- Where an argument stands: in front of the command, or behind it. -/
inductive Place where
  | front
  | behind (c : Command)

namespace Place

def topic : Place → Topic
  | .front => .program
  | .behind c => .command c

/-- Notes a flag; most flags may be given once only. -/
def note (p : Place) (g : Given) (f : Flag) (value : String) : Except Stop Given :=
  if f = .help then .error (.help p.topic)
  else if f = .version then .error .version
  else if (g.has f && !f.repeats) || !f.accepts value then .error .usage
  else .ok { g with flags := (f,value) :: g.flags }

/-- Letters behind one dash: flags without value, up to one that takes the rest for its
value. A flag that still lacks its value comes back with the flags noted so far. -/
def letters (p : Place) : Given → List Char → Except Stop (Given × Option Flag)
  | g, [] => .ok (g,none)
  | g, c :: rest =>
    match p.topic.flags.find? fun f => f.letter? = some c with
    | none => .error .usage
    | some f =>
      if f.takesValue then
        match rest with
        | [] => .ok (g,some f)
        | '=' :: value => (p.note g f (String.ofList value)).map (·,none)
        | value => (p.note g f (String.ofList value)).map (·,none)
      else
        match p.note g f "" with
        | .error s => .error s
        | .ok g => letters p g rest

def long (p : Place) (g : Given) (cs : List Char) : Except Stop (Given × Option Flag) :=
  let (name,value) := splitEquals cs
  match p.topic.flags.find? fun f => f.name = name, value with
  | none, _ => .error .usage
  | some f, some v => if f.takesValue then (p.note g f v).map (·,none) else .error .usage
  | some f, none => if f.takesValue then .ok (g,some f) else (p.note g f "").map (·,none)

def noteNetwork (g : Given) (arg : String) : Except Stop Given :=
  if g.network.isSome || (path? arg).isNone then .error .usage
  else .ok { g with network := some arg }

def settle (p : Place) (g : Given) : Except Stop Given :=
  match g.waiting with
  | none => .ok g
  | some (f,value) => p.note { g with waiting := none } f value

def commandFollows (p : Place) (rest : List String) : Bool :=
  match p, rest with
  | .front, arg :: _ => !isFlag arg
  | _, _ => false

/-- Reads arguments in front of a command, or of a command, and gives back what it leaves. In
front of a command, the first value without a flag ends the reading. A flag that lacks its
value takes the next argument, and two dashes make values of all that follow. -/
def read (p : Place) : Given → Option Flag → Bool → List String →
    Except Stop (Given × List String)
  | g, none, _, [] => .ok (g,[])
  | _, some _, _, [] => .error .usage
  | g, some f, escaped, arg :: rest =>
    if !standsAsValue f arg then .error .usage
    else if p.commandFollows rest then .ok ({ g with waiting := some (f,arg) },rest)
    else do read p (← p.note g f arg) none escaped rest
  | g, none, true, arg :: rest =>
    match p with
    | .front => .error .usage
    | .behind _ => do read p (← noteNetwork g arg) none true rest
  | g, none, false, arg :: rest =>
    match arg.toList with
    | ['-','-'] => read p g none true rest
    | '-' :: '-' :: cs => do
      let (g,pending) ← p.long g cs
      read p g pending false rest
    | '-' :: c :: cs => do
      let (g,pending) ← p.letters g (c :: cs)
      read p g pending false rest
    | _ =>
      match p with
      | .front => .ok (g,arg :: rest)
      | .behind _ => do read p (← noteNetwork g arg) none false rest

end Place

structure Request where
  command : Command
  network : String
  config : Option String
  sequential : Bool
  inputMin : Option Single
  inputMax : Option Single
  fraction : Option Single
  score : Option Score
  output : Option String
  json : Bool

def Topic.ofNames? : List String → Option Topic
  | [] => some .program
  | ["help"] => some .help
  | [name] => (Command.ofName? name).map .command
  | _ => none

/-- Reads the arguments of a whole call. A shared flag behind the command counts before the
same one in front of it. -/
def Request.ofArguments (args : List String) : Except Stop Request := do
  let (front,rest) ← Place.front.read {} none false args
  match rest with
  | [] => .error .usage
  | "help" :: names =>
    match Topic.ofNames? names with
    | some topic => .error (.help topic)
    | none => .error .usage
  | name :: rest =>
    let some command := Command.ofName? name | .error .usage
    let (given,_) ← (Place.behind command).read {} none false rest
    let front ← Place.front.settle front
    let some network := given.network | .error .usage
    let output := given.value? .output
    if command = .prune ∧ output = none then .error .usage
    else
      return { command, network, output
               config := (given.value? .config).or (front.value? .config)
               sequential := front.has .sequential || given.has .sequential
               inputMin := (given.value? .inputMin).bind Numeric.single?
               inputMax := (given.value? .inputMax).bind Numeric.single?
               fraction := (given.value? .fraction).bind Numeric.single?
               score := (given.value? .score).bind score?
               json := given.has .json }

end Sensitivity.CommandLine
