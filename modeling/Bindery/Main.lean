import Bindery.CommandLine.Run

/-!
# The command

The outer layer reads the part of the file system that a run can look at into a file tree, runs the
command on it, and puts what the run has changed onto the disk.
-/

namespace Bindery.CommandLine

/-- The levels that an interpreter of a thousand has left for the reader of documents. -/
def readerLevels : Nat := 960

def textOf (place : Place) : String := "/" ++ String.intercalate "/" place

/-- The place of a text that leads somewhere, after all links. -/
def placeOf? (text : String) : IO (Option Place) := do
  match ← (IO.FS.realPath text).toBaseIO with
  | .ok path => return some (Path.ofText path.toString).names
  | .error _ => return none

def entryAt? (place : Place) : IO (Option Entry) := do
  let entry : IO.FS.DirEntry := ⟨"/", String.intercalate "/" place⟩
  match ← entry.path.metadata.toBaseIO with
  | .ok data => return some (if data.type == .dir then .folder else .file [])
  | .error _ => return none

def addEntry (t : FileTree) (place : Place) : IO FileTree := do
  match ← entryAt? place with
  | some e => return if (t.entry? place).isSome then t else t.put place e
  | none => return t

def addPlace (t : FileTree) (place : Place) : IO FileTree :=
  (List.range (place.length + 1)).foldlM (fun t n => addEntry t (place.take n)) t

/-- Adds what a folder holds and, if `deep`, what the folders in it hold; links are not followed. -/
partial def addBelow (t : FileTree) (deep : Bool) (place : Place) : IO FileTree := do
  let folder : IO.FS.DirEntry := ⟨"/", String.intercalate "/" place⟩
  match ← folder.path.readDir.toBaseIO with
  | .error _ => return t
  | .ok entries =>
    entries.foldlM (fun t entry => do
      let inner := place ++ [entry.fileName]
      let t ← addEntry t inner
      match ← entry.path.symlinkMetadata.toBaseIO with
      | .ok data => if deep && data.type == .dir then addBelow t deep inner else return t
      | .error _ => return t) t

def addText (t : FileTree) (deep : Bool) (text : String) : IO FileTree := do
  let p := Path.ofText text
  let t ← (List.range (p.names.length + 1)).foldlM (fun t n => do
    match ← placeOf? ({ p with names := p.names.take n } : Path).render with
    | some place => addPlace t place
    | none => return t) t
  match ← placeOf? text with
  | some place => addBelow t deep place
  | none => return t

def addContent (t : FileTree) (p : Path) : IO FileTree := do
  match t.locate p with
  | .ok (place, some (.file _)) =>
    return t.put place (.file (← IO.FS.readBinFile (textOf place)).toList)
  | _ => return t

/-- The folder in which the search for a pattern starts. -/
def searchFolder (pattern : String) : String :=
  let cs := pattern.toList
  let head := if Wildcard.hasMagic cs then (Glob.Pattern.ofChars cs).head else cs
  if head.isEmpty then "." else String.ofList head

/-- The tree that a run with these arguments can look at. -/
def readTree (arguments : List String) : IO FileTree := do
  let work := (Path.ofText (← IO.currentDir).toString).names
  let t ← addPlace ⟨[], work⟩ work
  match Order.ofArguments arguments with
  | .ok (.generate (some pattern) (some out) _ _) =>
    let t ← addText t true (searchFolder pattern)
    let t ← addText t false (if out.isEmpty then "." else out)
    match Glob.files t pattern with
    | .ok inputs => inputs.foldlM addContent t
    | .error _ => return t
  | _ => return t

def writeEntry (place : Place) : Entry → IO Unit
  | .folder => IO.FS.createDirAll (textOf place)
  | .file content => IO.FS.writeBinFile (textOf place) ⟨content.toArray⟩

/-- Puts onto the disk what is new or different, the oldest changes first. -/
def writeChanges (before after : FileTree) : IO Unit :=
  after.entries.reverse.forM fun (place, e) =>
    if before.entry? place = some e then return else writeEntry place e

def execute (arguments : List String) : IO UInt32 := do
  let before ← readTree arguments
  let (report, after) := run readerLevels before arguments
  writeChanges before after
  IO.print report.standardOutput
  IO.eprint report.standardError
  match report.escaped with
  | some f => IO.eprintln f.message
  | none => pure ()
  return UInt32.ofNat report.exitCode

end Bindery.CommandLine

def main (arguments : List String) : IO UInt32 := Bindery.CommandLine.execute arguments
