import Bindery.Text.Split

/-!
# Paths

A path is a run of names behind an optional root. Empty names and single dots are dropped when a
text is read. Two dots stay, because what they mean depends on the files.
-/

namespace Bindery

structure Path where
  /-- The slashes of an absolute path: two if its text starts with exactly two, else one. -/
  root : String
  names : List String
  deriving DecidableEq, Repr

namespace Path

def split (cs : List Char) : List (List Char) := Text.split (· = '/') cs

def rootOf (cs : List Char) : String :=
  match (cs.takeWhile (· = '/')).length with
  | 0 => ""
  | 2 => "//"
  | _ => "/"

def ofText (s : String) : Path :=
  let cs := s.toList
  ⟨rootOf cs, ((split cs).filter fun part => part ≠ [] ∧ part ≠ ['.']).map String.ofList⟩

def render (p : Path) : String :=
  if p.root.isEmpty && p.names.isEmpty then "." else p.root ++ String.intercalate "/" p.names

def isAbsolute (p : Path) : Bool := !p.root.isEmpty

def hasNul (p : Path) : Bool := p.names.any fun name => name.toList.contains '\x00'

def parent (p : Path) : Path := { p with names := p.names.dropLast }

def child (p : Path) (name : String) : Path := { p with names := p.names ++ [name] }

/-- A name without its last extension. A dot at either end of the name starts no extension. -/
def stemOf (name : String) : String :=
  let reversed := name.toList.reverse
  let extension := reversed.takeWhile (· ≠ '.')
  let base := (reversed.drop extension.length).drop 1
  if extension.isEmpty || base.isEmpty then name else String.ofList base.reverse

def stem (p : Path) : String := stemOf (p.names.getLast?.getD "")

end Path

end Bindery
