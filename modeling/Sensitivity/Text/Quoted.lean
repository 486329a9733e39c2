import Sensitivity.Text.Unprintable
import Sensitivity.Text.Combining

/-! Quoted text: what cannot be seen by itself is written by its code point. -/
namespace Sensitivity.Text

def inRanges (table : Array (Nat × Nat)) (c : Char) : Bool :=
  table.any fun r => r.1 ≤ c.toNat && c.toNat ≤ r.2

/-- A character has to be named by its code point when it has no glyph, or joins the one
before it. Printable ASCII is never looked up. -/
def needsCodePoint (c : Char) : Bool :=
  if 0x20 ≤ c.toNat ∧ c.toNat < 0x7F then false
  else inRanges combiningRanges c || inRanges unprintableRanges c

def quotedChar (c : Char) : List Char :=
  if c = '\x00' then ['\\','0']
  else if c = '\t' then ['\\','t']
  else if c = '\n' then ['\\','n']
  else if c = '\r' then ['\\','r']
  else if c = '"' ∨ c = '\\' then ['\\',c]
  else if needsCodePoint c then
    ['\\','u','\x7b'] ++ Nat.toDigits 16 c.toNat ++ ['\x7d']
  else [c]

def quoted (s : String) : String :=
  String.ofList ('"' :: (s.toList.flatMap quotedChar ++ ['"']))

end Sensitivity.Text
