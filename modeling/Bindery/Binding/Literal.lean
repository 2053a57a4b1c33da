import Bindery.Text.Blank
import Bindery.Value

/-!
# Documents as wrapped literals

A document is set out as a literal of at most `lineWidth` columns where that is possible: what fits
stands in one line, and else each member or item has a line of its own, one column deeper than its
bracket. A long text becomes several adjacent literals, cut after line ends and after words.

A layout is told the column at which it starts and the columns that it has to leave free at its end
for closing brackets and a comma.
-/

namespace Bindery.Literal

def lineWidth : Nat := 88

def oneLine (j : Json) : List Char := (Value.ofJson j).literal

def fits (column reserve : Nat) (cs : List Char) : Bool := cs.length + column + reserve ≤ lineWidth

/-- Joins words into pieces as long as the quoted piece fits; `reserve` is left free behind the last
word. -/
def pack (column reserve : Nat) (piece : List CodePoint) :
    List (List CodePoint) → List (List CodePoint)
  | [] => if piece.isEmpty then [] else [piece]
  | word :: rest =>
    let free := if rest.isEmpty then reserve else 0
    if fits column free (Text.quotePoints (piece ++ word)) then
      pack column reserve (piece ++ word) rest
    else if piece.isEmpty then pack column reserve word rest
    else piece :: pack column reserve word rest

def pieces (column reserve : Nat) : List (List CodePoint) → List (List CodePoint)
  | [] => []
  | line :: rest =>
    let free := if rest.isEmpty then reserve else 0
    let cut :=
      if fits column free (Text.quotePoints line) then [line]
      else pack column free [] (Text.words line)
    cut ++ pieces column reserve rest

def newline (column : Nat) : List Char := '\n' :: List.replicate column ' '

def joinPieces (column : Nat) : List (List CodePoint) → List Char
  | [] => []
  | [piece] => Text.quotePoints piece
  | piece :: rest => Text.quotePoints piece ++ newline column ++ joinPieces column rest

def wrapText (column reserve : Nat) (t : Text) : List Char :=
  if t.isEmpty then Text.quotePoints []
  else joinPieces column (pieces column reserve (Text.lines t.points))

mutual

def layout (column reserve : Nat) : Json → List Char
  | .str t =>
    if fits column reserve (oneLine (.str t)) then oneLine (.str t) else wrapText column reserve t
  | .arr items =>
    if fits column reserve (oneLine (.arr items)) then oneLine (.arr items)
    else '[' :: layoutItems (column + 1) (reserve + 1) items ++ [']']
  | .obj members =>
    if fits column reserve (oneLine (.obj members)) then oneLine (.obj members)
    else '\x7b' :: layoutMembers (column + 1) (reserve + 1) members ++ ['\x7d']
  | j => oneLine j

def layoutItems (column reserve : Nat) : List Json → List Char
  | [] => []
  | [x] => layout column reserve x
  | x :: rest => layout column 1 x ++ ',' :: newline column ++ layoutItems column reserve rest

def layoutMembers (column reserve : Nat) : List (Text × Json) → List Char
  | [] => []
  | [(name, x)] =>
    let label := Text.quotePoints name.points ++ [':', ' ']
    label ++ layout (column + label.length) reserve x
  | (name, x) :: rest =>
    let label := Text.quotePoints name.points ++ [':', ' ']
    label ++ layout (column + label.length) 1 x ++ ',' :: newline column
      ++ layoutMembers column reserve rest

end

def render (j : Json) : String := String.ofList (layout 0 0 j)

end Bindery.Literal
