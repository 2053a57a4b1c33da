/-!
# Wildcards

A wildcard stands for a set of names: `*` for any run of characters, `?` for any character, and a
bracket for one character of a set, or with `!` outside it. A bracket that is never closed stands
for itself.

Inside a bracket a hyphen between two characters makes a range. A range whose ends are in the wrong
order is dropped, and what is around it moves together; so what is left can be empty, or can start
with a `!` that negates it.
-/

namespace Bindery

namespace Wildcard

inductive Atom
  | run
  | any
  | never
  | char (c : Char)
  | oneOf (negated : Bool) (ranges : List (Char × Char))
  deriving DecidableEq, Repr

def isMagic (c : Char) : Bool := c = '*' || c = '?' || c = '['

def hasMagic (cs : List Char) : Bool := cs.any isMagic

/-- The text of a bracket, given what follows its opening. A closing bracket that stands first
belongs to the text. -/
def bracket? (cs : List Char) : Option (List Char) :=
  let lead := match cs with
    | '!' :: ']' :: _ => 2
    | '!' :: _ => 1
    | ']' :: _ => 1
    | _ => 0
  let width := lead + ((cs.drop lead).takeWhile (· ≠ ']')).length
  if width < cs.length then some (cs.take width) else none

/-- Cuts the text of a bracket at its range hyphens. `skip` more characters join `chunk` whatever
they are; after a cut that is the end of the range and the character behind it. -/
def chunks (skip : Nat) (chunk : List Char) : List Char → List (List Char)
  | [] => [chunk]
  | c :: rest =>
    match skip with
    | skip + 1 => chunks skip (chunk ++ [c]) rest
    | 0 => if c = '-' then chunk :: chunks 2 [] rest else chunks 0 (chunk ++ [c]) rest

/-- A hyphen at the very end makes no range. -/
def closeChunks : List (List Char) → List (List Char)
  | [] => []
  | [chunk, []] => [chunk ++ ['-']]
  | chunk :: rest => chunk :: closeChunks rest

/-- Drops the ranges whose ends are in the wrong order, from the last to the first. -/
def dropEmptyRanges : List (List Char) → List (List Char)
  | [] => []
  | chunk :: rest =>
    match dropEmptyRanges rest with
    | [] => [chunk]
    | next :: more =>
      match chunk.getLast?, next.head? with
      | some a, some b =>
        if b < a then (chunk.dropLast ++ next.drop 1) :: more else chunk :: next :: more
      | _, _ => chunk :: next :: more

/-- The ranges of a text in which `none` stands for a range hyphen. -/
def ranges : List (Option Char) → List (Char × Char)
  | some a :: none :: some b :: rest => (a, b) :: ranges rest
  | some a :: rest => (a, a) :: ranges rest
  | none :: rest => ('-', '-') :: ranges rest
  | [] => []

def joinChunks (parts : List (List Char)) : List (Option Char) :=
  [none].intercalate (parts.map fun part => part.map some)

def setAtom (text : List Char) : Atom :=
  let skip := if text.head? = some '!' then 2 else 1
  match joinChunks (dropEmptyRanges (closeChunks (chunks skip [] text))) with
  | [] => .never
  | [some '!'] => .any
  | some '!' :: rest => .oneOf true (ranges rest)
  | rest => .oneOf false (ranges rest)

def atomsFrom (skip : Nat) : List Char → List Atom
  | [] => []
  | c :: rest =>
    match skip with
    | skip + 1 => atomsFrom skip rest
    | 0 =>
      match c with
      | '*' => .run :: atomsFrom 0 rest
      | '?' => .any :: atomsFrom 0 rest
      | '[' =>
        match bracket? rest with
        | some text => setAtom text :: atomsFrom (text.length + 1) rest
        | none => .char '[' :: atomsFrom 0 rest
      | c => .char c :: atomsFrom 0 rest

def atoms (cs : List Char) : List Atom := atomsFrom 0 cs

def Atom.accepts (c : Char) : Atom → Bool
  | .run | .any => true
  | .never => false
  | .char d => c = d
  | .oneOf negated ranges => negated != ranges.any fun (a, b) => a ≤ c && c ≤ b

def suffixes : List Char → List (List Char)
  | [] => [[]]
  | c :: rest => (c :: rest) :: suffixes rest

/-- What can be left of the texts after an atom. The texts are suffixes of one text, longest first,
so that a run leaves all suffixes of the first. -/
def Atom.rests (a : Atom) (texts : List (List Char)) : List (List Char) :=
  match a with
  | .run =>
    match texts with
    | [] => []
    | longest :: _ => suffixes longest
  | a =>
    texts.filterMap fun
      | [] => none
      | c :: rest => if a.accepts c then some rest else none

def accepts (wildcard name : List Char) : Bool :=
  ((atoms wildcard).foldl (fun texts a => a.rests texts) [name]).contains []

end Wildcard

end Bindery
