import Bindery.Json.Basic
import Bindery.Binary64.Decimal
import Bindery.Hex

/-!
# Writing JSON

Documents are written in ASCII, other code points as `\u` escapes of their UTF-16 units. The
separators are those of one line, or of one member or item per line under an indentation step.
-/

namespace Bindery.Json

def escapeUnit (n : Nat) : List Char := '\\' :: 'u' :: Hex.digits 4 n

def escapeChar (c : Char) : List Char :=
  match c with
  | '"' => ['\\', '"']
  | '\\' => ['\\', '\\']
  | '\n' => ['\\', 'n']
  | '\r' => ['\\', 'r']
  | '\t' => ['\\', 't']
  | '\x08' => ['\\', 'b']
  | '\x0c' => ['\\', 'f']
  | c =>
    let n := c.toNat
    if 0x20 ≤ n && n < 0x7f then [c]
    else if n < 0x10000 then escapeUnit n
    else escapeUnit (0xd800 + (n - 0x10000) / 0x400) ++ escapeUnit (0xdc00 + (n - 0x10000) % 0x400)

def escapePoint : CodePoint → List Char
  | .char c => escapeChar c
  | .surrogate n => escapeUnit (0xd800 + n)

def quote (t : Text) : List Char := '"' :: t.points.flatMap escapePoint ++ ['"']

def writeFloat (x : Binary64) : List Char :=
  match x.shape with
  | .notANumber => "NaN".toList
  | .infinite negative => (if negative then "-Infinity" else "Infinity").toList
  | .finite .. => x.render.toList

/-- One line with blanks after the separators, or lines indented by a step per level. -/
inductive Style
  | line
  | compact
  | lines (step : Nat)
  deriving DecidableEq, Repr

/-- What stands after an opening and before a closing bracket, at the level of the items. -/
def Style.edge (style : Style) (level : Nat) : List Char :=
  match style with
  | .lines step => '\n' :: List.replicate (step * level) ' '
  | _ => []

def Style.separator (style : Style) (level : Nat) : List Char :=
  match style with
  | .line => [',', ' ']
  | .compact => [',']
  | .lines _ => ',' :: style.edge level

def Style.colon (style : Style) : List Char :=
  match style with
  | .compact => [':']
  | _ => [':', ' ']

mutual

def write (style : Style) (level : Nat) : Json → List Char
  | .null => "null".toList
  | .bool b => (if b then "true" else "false").toList
  | .int n => (toString n).toList
  | .float x => writeFloat x
  | .str t => quote t
  | .arr [] => ['[', ']']
  | .arr (x :: rest) =>
    '[' :: style.edge (level + 1) ++ write style (level + 1) x ++ writeItems style (level + 1) rest
      ++ style.edge level ++ [']']
  | .obj [] => ['{', '}']
  | .obj ((name, x) :: rest) =>
    '{' :: style.edge (level + 1) ++ quote name ++ style.colon ++ write style (level + 1) x
      ++ writeMembers style (level + 1) rest ++ style.edge level ++ ['}']

/-- The items after the first, each behind a separator. -/
def writeItems (style : Style) (level : Nat) : List Json → List Char
  | [] => []
  | x :: rest => style.separator level ++ write style level x ++ writeItems style level rest

def writeMembers (style : Style) (level : Nat) : List (Text × Json) → List Char
  | [] => []
  | (name, x) :: rest =>
    style.separator level ++ quote name ++ style.colon ++ write style level x
      ++ writeMembers style level rest

end

def render (style : Style) (v : Json) : String := String.ofList (write style 0 v)

end Bindery.Json
