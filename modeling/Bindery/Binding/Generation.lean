import Bindery.Binding.Support
import Bindery.Files.Glob

/-!
# Generating bindings

One binding module is made for every interface file that a pattern finds, and put into an output
folder together with the support module. A plan reads all inputs and checks all targets; carrying it
out makes the folder and writes the files, in this order: the support module, then the bindings in
the order of their inputs.
-/

namespace Bindery

namespace Binding

structure Job where
  target : Path
  contract : String
  abi : Abi

def targetOf (out input : Path) : Path := out.child (input.stem ++ ".py")

def supportTarget (out : Path) : Path := out.child (runtimeModule ++ ".py")

/-- The job for an input: its target is new among the jobs before it and, unless `force`, in the
tree, and it holds an interface, which is read with `levels` levels. -/
def job (levels : Nat) (t : FileTree) (out : Path) (force : Bool) (before : List Job)
    (input : Path) : Except Failure Job := do
  let target := targetOf out input
  if before.any (·.target = target) then
    throw (.parameter (.sameTarget input.render target.render))
  let there ← (t.present target).mapError .file
  if there && !force then throw (.parameter (.targetExists target.render))
  let abi ← Abi.parse levels (.blob .fixed ((t.file? input).getD []))
  return ⟨target, input.stem, abi⟩

def jobs (levels : Nat) (t : FileTree) (out : Path) (force : Bool) (before : List Job) :
    List Path → Except Failure (List Job)
  | [] => .ok before
  | input :: rest =>
    match job levels t out force before input with
    | .error e => .error e
    | .ok j => jobs levels t out force (before ++ [j]) rest

def plan (levels : Nat) (t : FileTree) (pattern out : Option String) (force : Bool) :
    Except Failure (Path × List Job) := do
  match out with
  | none => throw (.parameter .noOutput)
  | some out =>
    let inputs ← (Glob.files t (pattern.getD "")).mapError .misuse
    if inputs.isEmpty then throw (.parameter .noInput)
    let out := Path.ofText out
    return (out, ← jobs levels t out force [] inputs)

structure Workspace where
  tree : FileTree
  logs : List LogRecord

/-- A run on a workspace. What it has done before it fails stays done. -/
abbrev Generation := ExceptT Failure (StateM Workspace)

namespace Generation

def ofExcept (r : Except Failure α) : Generation α := ExceptT.mk (pure r)

def report (rs : List LogRecord) : Generation Unit :=
  modify fun w => { w with logs := w.logs ++ rs }

def setTree (r : Except FileError FileTree) : Generation Unit := do
  let t ← ofExcept (r.mapError .file)
  modify fun w => { w with tree := t }

def tree : Generation FileTree := return (← get).tree

def makeFolder (p : Path) : Generation Unit := do
  let t ← tree
  match t.makeFolder p with
  | .ok t => modify fun w => { w with tree := t }
  | .error e => if !t.isFolder p then ofExcept (.error (.file ⟨e, p.render⟩))

/-- Makes the folder of the last name, given latest first, together with what is missing above it.
-/
def makeFoldersFrom (root : String) : List String → Generation Unit
  | [] => makeFolder ⟨root, []⟩
  | name :: above => do
    let p : Path := ⟨root, (name :: above).reverse⟩
    match (← tree).makeFolder p with
    | .error .missing =>
      makeFoldersFrom root above
      makeFolder p
    | _ => makeFolder p

def makeFolders (p : Path) : Generation Unit := do
  if p.hasNul then ofExcept (.error (.misuse .nulInPath))
  makeFoldersFrom p.root p.names.reverse

def write (p : Path) (text : String) : Generation Unit := do
  setTree ((← tree).writeFile p (Text.encodeUtf8 text))

def writeSupport (out : Path) : Generation Unit := do
  let target := supportTarget out
  write target supportSource
  report [⟨.info, .generator, "Wrote runtime module " ++ target.render⟩]

/-- The source is encoded once its file is open, so that what cannot be encoded leaves the file
empty. -/
def writeBinding (j : Job) : Generation Unit := do
  report (warnings j.contract j.abi)
  let text ← ofExcept (source j.contract runtimeModule j.abi)
  match j.abi.functions.findSome? brokenType? with
  | some b =>
    write j.target ""
    ofExcept (.error (.misuse (.unencodable b)))
  | none =>
    write j.target text
    report [⟨.info, .commandLine, "Generated " ++ j.target.render⟩]

end Generation

/-- Makes the bindings of a plan; the result is the paths written, without the support module. -/
def carryOut (out : Path) (js : List Job) : Generation (List Path) := do
  Generation.makeFolders out
  Generation.writeSupport out
  js.forM Generation.writeBinding
  return js.map (·.target)

def generate (levels : Nat) (pattern out : Option String) (force : Bool) :
    Generation (List Path) := do
  let (out, js) ← Generation.ofExcept (plan levels (← Generation.tree) pattern out force)
  carryOut out js

def Generation.run (g : Generation α) (t : FileTree) : Except Failure α × Workspace :=
  StateT.run (m := Id) (ExceptT.run g) ⟨t, []⟩

end Binding

end Bindery
