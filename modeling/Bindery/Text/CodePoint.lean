/-!
# Texts and their code points

A text is a run of code points. Most are characters; a surrogate, one half of a character in
sixteen-bit units, can stand in a text by itself. No encoding writes one, so that a text is whole or
broken.
-/

namespace Bindery

/-- A character, or a surrogate by its offset from the first one. -/
inductive CodePoint
  | char (c : Char)
  | surrogate (n : Fin 0x800)
  deriving DecidableEq, Repr

namespace CodePoint

def value : CodePoint → Nat
  | .char c => c.toNat
  | .surrogate n => 0xd800 + n

def isSurrogate (n : Nat) : Bool := 0xd800 ≤ n && n < 0xe000

def ofNat (n : Nat) : CodePoint :=
  if isSurrogate n then .surrogate (Fin.ofNat 0x800 (n - 0xd800)) else .char (Char.ofNat n)

def isChar : CodePoint → Bool
  | .char _ => true
  | .surrogate _ => false

/-- The character that shows a code point where only characters can stand. -/
def shown : CodePoint → Char
  | .char c => c
  | .surrogate _ => '\ufffd'

end CodePoint

/-- A run of code points with a surrogate among them. -/
structure Text.Broken where
  points : List CodePoint
  broken : points.all CodePoint.isChar = false
  deriving DecidableEq, Repr

inductive Text
  | whole (s : String)
  | broken (b : Text.Broken)
  deriving DecidableEq, Repr

namespace Text

instance : Coe String Text := ⟨whole⟩

instance : Inhabited Text := ⟨whole ""⟩

def points : Text → List CodePoint
  | whole s => s.toList.map .char
  | broken b => b.points

def ofPoints (ps : List CodePoint) : Text :=
  if h : ps.all CodePoint.isChar = false then broken ⟨ps, h⟩
  else whole (String.ofList (ps.map CodePoint.shown))

/-- The text as messages and comments show it. -/
def shown : Text → String
  | whole s => s
  | broken b => String.ofList (b.points.map CodePoint.shown)

instance : ToString Text := ⟨shown⟩

def whole? : Text → Option String
  | whole s => some s
  | broken _ => none

def broken? : Text → Option Broken
  | whole _ => none
  | broken b => some b

def isWhole (t : Text) : Bool := t.whole?.isSome

def isEmpty : Text → Bool
  | whole s => s.isEmpty
  | broken _ => false

def size : Text → Nat
  | whole s => s.length
  | broken b => b.points.length

end Text

end Bindery
