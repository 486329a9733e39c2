import Sensitivity.CommandLine.Program

/-! The command: runs a program against the files of the machine. -/
namespace Sensitivity.CommandLine

def execute : Program → IO UInt32
  | .exit (.success output) => do
    IO.println output
    return 0
  | .exit (.failure message) => do
    IO.eprintln ("Error: " ++ message)
    return 1
  | .exit .usage => do
    IO.eprintln "error: invalid arguments"
    return 2
  | .read path next => do
    let text ← try some <$> IO.FS.readFile path catch _ => pure none
    execute (next text)
  | .write path text next => do
    let written ← try IO.FS.writeFile path text; pure true catch _ => pure false
    execute (next written)

end Sensitivity.CommandLine

def main (args : List String) : IO UInt32 :=
  Sensitivity.CommandLine.execute (Sensitivity.CommandLine.program args)
