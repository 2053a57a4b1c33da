import Bindery.Bytes
import Bindery.Hex
import Bindery.Text.CodePoint
import Bindery.Text.Printable

/-!
# Quoted literals

A text is quoted by apostrophes, and by quotation marks if it holds an apostrophe and no quotation
mark. The mark in use and the backslash are escaped by a backslash, line feed, carriage return and
tabulator have letters of their own, and other characters that are not printable are written by
their code points.
-/

namespace Bindery.Text

def quotationMark (cs : List Char) : Char :=
  if cs.contains '\'' && !cs.contains '"' then '"' else '\''

def escapeChar (mark c : Char) : List Char :=
  if c = mark || c = '\\' then ['\\', c]
  else if c = '\n' then ['\\', 'n']
  else if c = '\r' then ['\\', 'r']
  else if c = '\t' then ['\\', 't']
  else if isPrintable c then [c]
  else if c.toNat < 0x100 then '\\' :: 'x' :: Hex.digits 2 c.toNat
  else if c.toNat < 0x10000 then '\\' :: 'u' :: Hex.digits 4 c.toNat
  else '\\' :: 'U' :: Hex.digits 8 c.toNat

def quoteChars (cs : List Char) : List Char :=
  let mark := quotationMark cs
  mark :: cs.flatMap (escapeChar mark) ++ [mark]

def quote (s : String) : String := String.ofList (quoteChars s.toList)

/-- A surrogate is not printable either. -/
def escapePoint (mark : Char) : CodePoint → List Char
  | .char c => escapeChar mark c
  | .surrogate n => '\\' :: 'u' :: Hex.digits 4 (0xd800 + n)

def quotePoints (ps : List CodePoint) : List Char :=
  let mark := quotationMark (ps.map CodePoint.shown)
  mark :: ps.flatMap (escapePoint mark) ++ [mark]

def quoted (t : Text) : String := String.ofList (quotePoints t.points)

def Broken.message (b : Broken) : String :=
  let start := (b.points.takeWhile CodePoint.isChar).length
  let run := (b.points.drop start).takeWhile (!·.isChar)
  let place :=
    if run.length = 1 then s!"character {String.ofList (quotePoints run)} in position {start}"
    else s!"characters in position {start}-{start + run.length - 1}"
  s!"'utf-8' codec can't encode {place}: surrogates not allowed"

/-- A byte as its ASCII character, or by two digits; `escaped` and the backslash are escaped. -/
def escapeByteChar (escaped c : Char) : List Char :=
  if c = escaped || c = '\\' then ['\\', c]
  else if c = '\n' then ['\\', 'n']
  else if c = '\r' then ['\\', 'r']
  else if c = '\t' then ['\\', 't']
  else if 0x20 ≤ c.toNat && c.toNat < 0x7f then [c]
  else '\\' :: 'x' :: Hex.digits 2 c.toNat

def byteChars (b : Bytes) : List Char := b.map fun x => Char.ofNat x.toNat

def quoteBytes (b : Bytes) : String :=
  let cs := byteChars b
  let mark := quotationMark cs
  String.ofList ('b' :: mark :: cs.flatMap (escapeByteChar mark) ++ [mark])

/-- The literal within that of a changeable byte string, where an apostrophe is always escaped. -/
def quoteMutableBytes (b : Bytes) : String :=
  let cs := byteChars b
  let mark := quotationMark cs
  String.ofList ('b' :: mark :: cs.flatMap (escapeByteChar '\'') ++ [mark])

end Bindery.Text
