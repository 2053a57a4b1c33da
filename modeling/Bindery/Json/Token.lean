import Bindery.Json.Basic
import Bindery.Hex

/-!
# Tokens of a JSON text

`tokens` cuts a text into located tokens. It knows nothing of the grammar: a character that starts
no token is a `stray` token, and a string that is not well formed is a `damaged` token, which says
what is wrong and where. The cut ends at the first of either.
-/

namespace Bindery.Json

inductive Problem
  | expectingValue | extraData | expectingName | expectingColon | expectingComma
  | unterminatedString | controlCharacter | badEscape | badUnicodeEscape | byteOrderMark
  deriving DecidableEq, Repr

inductive Token
  | openArray | closeArray | openObject | closeObject | comma | colon
  | scalar (v : Json)
  | integer (negative : Bool) (digits : List Char)
  | string (s : List CodePoint)
  | damaged (problem : Problem) (offset : Nat)
  | stray

structure Located where
  token : Token
  position : Nat

def isBlank (c : Char) : Bool := c = ' ' || c = '\t' || c = '\n' || c = '\r'

def isDigit (c : Char) : Bool := '0' ≤ c && c ≤ '9'

def simpleEscape? : Char → Option Char
  | '"' => some '"'
  | '\\' => some '\\'
  | '/' => some '/'
  | 'b' => some '\x08'
  | 'f' => some '\x0c'
  | 'n' => some '\n'
  | 'r' => some '\r'
  | 't' => some '\t'
  | _ => none

def hexUnit? (a b c d : Char) : Option Nat := do
  let a ← Hex.digitValue? a
  let b ← Hex.digitValue? b
  let c ← Hex.digitValue? c
  let d ← Hex.digitValue? d
  return ((a * 16 + b) * 16 + c) * 16 + d

def isHighSurrogate (n : Nat) : Bool := 0xd800 ≤ n && n < 0xdc00

def isLowSurrogate (n : Nat) : Bool := 0xdc00 ≤ n && n < 0xe000

def joinSurrogates (high low : Nat) : Char :=
  Char.ofNat (0x10000 + (high - 0xd800) * 0x400 + (low - 0xdc00))

/-- The text of a string and the width from its opening quote to past its closing one, or a problem
and its offset from the opening quote. -/
abbrev StringScan := Except (Problem × Nat) (List CodePoint × Nat)

def StringScan.push (p : CodePoint) (r : StringScan) : StringScan :=
  r.map fun (ps, w) => (p :: ps, w)

/-- Reads the code points of a string from `offset` on. At least one has to follow the four digits
of a `\u` escape. Two escapes of surrogates that make a character are read as that character. -/
def scanString (offset : Nat) : List CodePoint → StringScan
  | [] => .error (.unterminatedString, 0)
  | .char '"' :: _ => .ok ([], offset + 1)
  | .char '\\' :: rest =>
    match rest with
    | [] => .error (.unterminatedString, 0)
    | .char 'u' :: a :: b :: c :: d :: rest =>
      if rest.isEmpty then .error (.badUnicodeEscape, offset + 1)
      else
        match hexUnit? a.shown b.shown c.shown d.shown with
        | none => .error (.badUnicodeEscape, offset + 1)
        | some high =>
          let alone (_ : Unit) := (scanString (offset + 6) rest).push (.ofNat high)
          match rest with
          | .char '\\' :: .char 'u' :: a :: b :: c :: d :: more =>
            if isHighSurrogate high && !more.isEmpty then
              match hexUnit? a.shown b.shown c.shown d.shown with
              | none => .error (.badUnicodeEscape, offset + 7)
              | some low =>
                if isLowSurrogate low then
                  (scanString (offset + 12) more).push (.char (joinSurrogates high low))
                else alone ()
            else alone ()
          | _ => alone ()
    | .char 'u' :: _ => .error (.badUnicodeEscape, offset + 1)
    | e :: rest =>
      match simpleEscape? e.shown with
      | some c => (scanString (offset + 2) rest).push (.char c)
      | none => .error (.badEscape, offset)
  | p :: rest =>
    if p.value < 0x20 then .error (.controlCharacter, offset)
    else (scanString (offset + 1) rest).push p

def fractionOf : List Char → List Char
  | '.' :: d :: rest => if isDigit d then '.' :: d :: rest.takeWhile isDigit else []
  | _ => []

/-- The characters of an exponent: a letter, a sign if there is one, and at least one digit. -/
def exponentOf : List Char → List Char
  | e :: rest =>
    if e = 'e' || e = 'E' then
      let sign := match rest with
        | '+' :: _ => ['+']
        | '-' :: _ => ['-']
        | _ => []
      let digits := (rest.drop sign.length).takeWhile isDigit
      if digits.isEmpty then [] else e :: sign ++ digits
    else []
  | [] => []

/-- The whole part of a number: a zero, or digits of which the first is none. -/
def wholeOf : List Char → List Char
  | '0' :: _ => ['0']
  | cs => cs.takeWhile isDigit

def natOfDigits (cs : List Char) : Nat := cs.foldl (fun n c => 10 * n + (c.toNat - 48)) 0

def realOf (negative : Bool) (whole fraction exponent : List Char) : Binary64 :=
  let places := fraction.drop 1
  let power : Int := match exponent with
    | _ :: '-' :: ds => -(natOfDigits ds : Int)
    | _ :: '+' :: ds => natOfDigits ds
    | _ :: ds => natOfDigits ds
    | [] => 0
  Binary64.ofDecimal negative (natOfDigits (whole ++ places)) (power - places.length)

def scanNumber (negative : Bool) (cs : List Char) : Option (Token × Nat) :=
  let whole := wholeOf cs
  if whole.isEmpty then none
  else
    let rest := cs.drop whole.length
    let fraction := fractionOf rest
    let exponent := exponentOf (rest.drop fraction.length)
    let width := whole.length + fraction.length + exponent.length
    if fraction.isEmpty && exponent.isEmpty then some (.integer negative whole, width)
    else some (.scalar (.float (realOf negative whole fraction exponent)), width)

def words : List (List Char × Json) :=
  [ ("null".toList, .null), ("true".toList, .bool true), ("false".toList, .bool false),
    ("NaN".toList, .float .notANumber), ("Infinity".toList, .float (.infinity false)),
    ("-Infinity".toList, .float (.infinity true)) ]

def scanWord (cs : List Char) : Option (Token × Nat) :=
  (words.find? fun w => w.1.isPrefixOf cs).map fun w => (.scalar w.2, w.1.length)

/-- The token that starts with `p`, and its width. -/
def scanPoint (p : CodePoint) (rest : List CodePoint) : Option (Token × Nat) :=
  match p.shown with
  | '[' => some (.openArray, 1)
  | ']' => some (.closeArray, 1)
  | '{' => some (.openObject, 1)
  | '}' => some (.closeObject, 1)
  | ',' => some (.comma, 1)
  | ':' => some (.colon, 1)
  | '"' =>
    match scanString 1 rest with
    | .ok (s, width) => some (.string s, width)
    | .error (problem, offset) => some (.damaged problem offset, 0)
  | c =>
    let rest := rest.map CodePoint.shown
    (scanWord (c :: rest)).orElse fun _ =>
      if c = '-' then (scanNumber true rest).map fun (t, width) => (t, width + 1)
      else scanNumber false (c :: rest)

/-- Cuts a text whose first element is at `position` into tokens, after passing `skip` elements.
Blanks stand between tokens, and `scan` tells the token that starts with an element. -/
def cut (isBlank : α → Bool) (scan : α → List α → Option (Token × Nat)) (skip position : Nat) :
    List α → List Located
  | [] => []
  | c :: rest =>
    match skip with
    | skip + 1 => cut isBlank scan skip (position + 1) rest
    | 0 =>
      if isBlank c then cut isBlank scan 0 (position + 1) rest
      else
        match scan c rest with
        | none => [⟨.stray, position⟩]
        | some (.damaged problem offset, _) => [⟨.damaged problem (position + offset), position⟩]
        | some (t, width) => ⟨t, position⟩ :: cut isBlank scan (width - 1) (position + 1) rest

def tokens (ps : List CodePoint) : List Located :=
  cut (fun p => isBlank p.shown) scanPoint 0 0 ps

end Bindery.Json
