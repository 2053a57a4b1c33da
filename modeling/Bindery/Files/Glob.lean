import Bindery.Files.Tree
import Bindery.Files.Wildcard

/-!
# Patterns of paths

A pattern is followed component by component from the folder before its first wildcard. `**` as a
component stands for any number of folders. A name that starts with a dot is matched by a wildcard
that does so, and by none under `**`. A path that can be reached in several ways is found as often.
-/

namespace Bindery.Glob

/-- A text cut before the component of its first wildcard. -/
structure Pattern where
  /-- The folder in which the search starts; empty for the working folder. -/
  head : List Char
  components : List (List Char)
  deriving DecidableEq, Repr

/-- A text without the slashes at its end, unless it holds nothing else. -/
def trimSlashes (cs : List Char) : List Char :=
  if cs.all (· = '/') then cs else (cs.reverse.dropWhile (· = '/')).reverse

/-- The components of a text. A slash at its end makes an empty last component. -/
def componentsOf (cs : List Char) : List (List Char) :=
  let parts := Path.split cs
  parts.dropLast.filter (· ≠ []) ++ parts.drop (parts.length - 1)

def Pattern.ofChars (cs : List Char) : Pattern :=
  let literal := cs.takeWhile fun c => !Wildcard.isMagic c
  let head := (literal.reverse.dropWhile (· ≠ '/')).reverse
  ⟨trimSlashes head, componentsOf (cs.drop head.length)⟩

def join (folder name : List Char) : List Char :=
  if folder.isEmpty then name
  else if folder.getLast? = some '/' then folder ++ name
  else folder ++ '/' :: name

def isHidden (name : String) : Bool := name.toList.head? = some '.'

def isFolderEntry : Entry → Bool
  | .folder => true
  | .file _ => false

def folder? (t : FileTree) (folder : List Char) : Option Place :=
  if folder.isEmpty then some t.work else t.folderOfText? folder

def named (t : FileTree) (foldersOnly : Bool) (folder component : List Char) :
    List (List Char) :=
  match folder? t folder with
  | none => []
  | some place =>
    ((t.namesIn place).filter fun (name, e) =>
      (!foldersOnly || isFolderEntry e) && (component.head? = some '.' || !isHidden name)
        && Wildcard.accepts component name.toList).map fun x => x.1.toList

/-- What was found itself, be it a folder or not, and all that is below it, without what is
hidden. -/
def deep (t : FileTree) (foldersOnly : Bool) (folder : List Char) : List (List Char) :=
  let below := match folder? t folder with
    | none => []
    | some place =>
      ((t.below place).filter fun (names, e) =>
        (!foldersOnly || isFolderEntry e) && !names.any isHidden).map
          fun x => (String.intercalate "/" x.1).toList
  [] :: below

/-- The component itself, if the folder holds it; an empty one asks for the folder. -/
def literal (t : FileTree) (folder component : List Char) : List (List Char) :=
  let there :=
    if component.isEmpty then (t.folderOfText? folder).isSome
    else t.existsText (join folder component)
  if there then [component] else []

def expand (t : FileTree) (foldersOnly : Bool) (component folder : List Char) :
    List (List Char) :=
  let names :=
    if component = ['*', '*'] then deep t foldersOnly folder
    else if Wildcard.hasMagic component then named t foldersOnly folder component
    else literal t folder component
  names.map (join folder)

/-- The paths that components lead to from folders. Only the last may lead to files. -/
def search (t : FileTree) (folders : List (List Char)) : List (List Char) → List (List Char)
  | [] => folders
  | [component] => folders.flatMap (expand t false component)
  | component :: rest => search t (folders.flatMap (expand t true component)) rest

/-- The paths that a pattern without wildcards stands for: its own, if there is anything. -/
def plain (t : FileTree) (cs : List Char) : List (List Char) :=
  if t.existsText cs then [cs] else []

def paths (t : FileTree) (pattern : String) : Except Misuse (List (List Char)) :=
  let cs := pattern.toList
  if Wildcard.hasMagic cs then
    let p := Pattern.ofChars cs
    if p.head.contains '\x00' then .error .nulInPath else .ok (search t [p.head] p.components)
  else .ok (plain t cs)

def files (t : FileTree) (pattern : String) : Except Misuse (List Path) := do
  let texts := (← paths t pattern).map String.ofList
  let found := texts.filter fun s => (t.file? (.ofText s)).isSome
  return (found.mergeSort fun a b => decide (a ≤ b)).map Path.ofText

end Bindery.Glob
