import Sensitivity.Numeral

/-! Columns of text tables. Widths count characters. -/
namespace Sensitivity.Text

def left (width : Nat) (s : String) : String :=
  String.ofList (s.toList ++ List.replicate (width - s.length) ' ')

def right (width : Nat) (s : String) : String :=
  String.ofList (List.replicate (width - s.length) ' ' ++ s.toList)

def rule (width : Nat) (c : Char) : String := String.ofList (List.replicate width c)

/-- The last characters of a name that is too long, behind three points if there is room. -/
def truncateName (name : String) (width : Nat) : String :=
  let cs := name.toList
  if cs.length ≤ width then name
  else if width < 3 then String.ofList (cs.drop (cs.length - width))
  else "..." ++ String.ofList (cs.drop (cs.length + 3 - width))

def nameWidth : Nat := 40

def nameColumn (name : String) : String := left nameWidth (truncateName name nameWidth)

def row (columns : List String) : String := " | ".intercalate columns

def rowRule (widths : List Nat) : String :=
  "-+-".intercalate (widths.map (rule · '-'))

def lines (items : List String) : String := "\n".intercalate items

end Sensitivity.Text
