import Bindery.Failure
import Bindery.Files.Path

/-!
# File trees

A tree of files and folders without links, as a list of entries under their places, and the folder
in which relative paths start. A path is followed name by name: every name but the last has to lead
to a folder, and two dots lead to the folder above, which for the root is the root itself.
-/

namespace Bindery

abbrev Place := List String

inductive Entry
  | file (content : Bytes)
  | folder
  deriving DecidableEq, Repr

structure FileTree where
  entries : List (Place × Entry)
  work : Place

namespace FileTree

/-- The longest name, in bytes of UTF-8. -/
def nameLimit : Nat := 255

/-- The longest text of a path, in bytes of UTF-8. -/
def pathLimit : Nat := 4095

def entry? (t : FileTree) (place : Place) : Option Entry :=
  if place.isEmpty then some .folder else t.entries.lookup place

def isFolderAt (t : FileTree) (place : Place) : Bool :=
  match t.entry? place with
  | some .folder => true
  | _ => false

def put (t : FileTree) (place : Place) (e : Entry) : FileTree :=
  { t with entries := (place, e) :: t.entries.filter fun x => x.1 ≠ place }

/-- What a name leads to from a folder: a place and the entry there, if there is one. -/
def enter (t : FileTree) (folder : Place) (name : String) :
    Except FileProblem (Place × Option Entry) :=
  if !t.isFolderAt folder then .error .notFolder
  else if name.isEmpty || name = "." then .ok (folder, some .folder)
  else if name = ".." then .ok (folder.dropLast, some .folder)
  else if nameLimit < name.utf8ByteSize then .error .nameTooLong
  else .ok (folder ++ [name], t.entry? (folder ++ [name]))

/-- Follows names from a place. Only the last may lead to nothing. -/
def follow (t : FileTree) (place : Place) :
    List String → Except FileProblem (Place × Option Entry)
  | [] => .ok (place, t.entry? place)
  | [name] => t.enter place name
  | name :: rest =>
    match t.enter place name with
    | .error e => .error e
    | .ok (_, none) => .error .missing
    | .ok (place, some _) => t.follow place rest

def start (t : FileTree) (absolute : Bool) : Place := if absolute then [] else t.work

def locate (t : FileTree) (p : Path) : Except FileProblem (Place × Option Entry) :=
  if pathLimit < p.render.utf8ByteSize then .error .nameTooLong
  else t.follow (t.start p.isAbsolute) p.names

/-- What the text of a path leads to. A slash at its end asks for a folder. -/
def locateText (t : FileTree) (cs : List Char) : Except FileProblem (Place × Option Entry) :=
  if cs.isEmpty then .error .missing
  else if pathLimit < (String.ofList cs).utf8ByteSize then .error .nameTooLong
  else t.follow (t.start (cs.head? = some '/')) ((Path.split cs).map String.ofList)

def existsText (t : FileTree) (cs : List Char) : Bool :=
  match t.locateText cs with
  | .ok (_, some _) => true
  | _ => false

def folderOfText? (t : FileTree) (cs : List Char) : Option Place :=
  match t.locateText cs with
  | .ok (place, some .folder) => some place
  | _ => none

def file? (t : FileTree) (p : Path) : Option Bytes :=
  match t.locate p with
  | .ok (_, some (.file content)) => some content
  | _ => none

def isFolder (t : FileTree) (p : Path) : Bool :=
  match t.locate p with
  | .ok (_, some .folder) => true
  | _ => false

def namesIn (t : FileTree) (folder : Place) : List (String × Entry) :=
  t.entries.filterMap fun (place, e) =>
    match place.getLast? with
    | some name => if place.dropLast = folder then some (name, e) else none
    | none => none

/-- Everything below a folder, by the names that lead there. -/
def below (t : FileTree) (folder : Place) : List (List String × Entry) :=
  t.entries.filterMap fun (place, e) =>
    if folder.length < place.length ∧ place.take folder.length = folder then
      some (place.drop folder.length, e)
    else none

/-- Whether a path leads to anything. A path that leads nowhere does not; a name that is too long is
an error. -/
def present (t : FileTree) (p : Path) : Except FileError Bool :=
  match t.locate p with
  | .ok (_, e) => .ok e.isSome
  | .error .nameTooLong => .error ⟨.nameTooLong, p.render⟩
  | .error _ => .ok false

def makeFolder (t : FileTree) (p : Path) : Except FileProblem FileTree :=
  match t.locate p with
  | .error e => .error e
  | .ok (_, some _) => .error .exists
  | .ok (place, none) => .ok (t.put place .folder)

def writeFile (t : FileTree) (p : Path) (content : Bytes) : Except FileError FileTree :=
  match t.locate p with
  | .error e => .error ⟨e, p.render⟩
  | .ok (_, some .folder) => .error ⟨.isFolder, p.render⟩
  | .ok (place, _) => .ok (t.put place (.file content))

end FileTree

end Bindery
