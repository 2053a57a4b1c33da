import Bindery.Text.Composition
import Bindery.Text.Letter
import Bindery.Text.Punycode
import Bindery.Text.Split

/-!
# Domain names of any script

A domain name is a run of labels between dots. A label of letters, digits, marks and hyphens is
written in ASCII: as it is, or in Punycode behind a marker. Hyphens stand inside a label, but not
where they could make a marker; a label that holds letters from right to left is of one direction.
-/

namespace Bindery.Node.DomainName

open Text

def isDot (c : Char) : Bool := c = '.' || c = '。' || c = '．' || c = '｡'

def isAsciiLetter (c : Char) : Bool := 'a' ≤ c && c ≤ 'z'

def isAsciiDigit (c : Char) : Bool := '0' ≤ c && c ≤ '9'

def isBetween (first last : Nat) (c : Char) : Bool := first ≤ c.toNat && c.toNat ≤ last

def isArabicDigit (c : Char) : Bool := isBetween 0x660 0x669 c

def isEasternArabicDigit (c : Char) : Bool := isBetween 0x6f0 0x6f9 c

def isGreek (c : Char) : Bool := isBetween 0x370 0x3ff c || isBetween 0x1f00 0x1fff c

def isHebrew (c : Char) : Bool := isBetween 0x591 0x5f4 c

/-- Whether a character is of a script that writes the middle dot of Katakana. -/
def isJapanese (c : Char) : Bool :=
  isBetween 0x3005 0x3007 c || isBetween 0x3041 0x30fa c || isBetween 0x30fc 0x30ff c
    || isBetween 0x3400 0x9fff c || isBetween 0x20000 0x3134a c

/-- Whether a label may hold `c` between what is `before` it, last first, and `after` it. Some
characters depend on their neighbours. -/
def allows (label before : List Char) (c : Char) (after : List Char) : Bool :=
  if c.toNat < 0x80 then isAsciiLetter c || isAsciiDigit c || c = '-'
  else if c = '·' then before.head? = some 'l' && after.head? = some 'l'
  else if c.toNat = 0x375 then after.head?.any isGreek
  else if c.toNat = 0x5f3 || c.toNat = 0x5f4 then before.head?.any isHebrew
  else if c = '・' then label.any isJapanese
  else if isArabicDigit c then !label.any isEasternArabicDigit
  else if isEasternArabicDigit c then !label.any isArabicDigit
  else isLetter c || isMark c

def allowsAll (label before : List Char) : List Char → Bool
  | [] => true
  | c :: rest => allows label before c rest && allowsAll label (c :: before) rest

def isNumber (c : Char) : Bool := isAsciiDigit c || isArabicDigit c || isEasternArabicDigit c

def isRightLetter (c : Char) : Bool := isRightToLeft c && !isMark c && !isNumber c

/-- Whether a label that is written from right to left, by a letter or by Arabic digits, is so as a
whole: it starts with such a letter and ends, marks aside, with one or with a digit, and its digits
are of one kind. -/
def keepsDirection (label : List Char) : Bool :=
  let fits (c : Char) := isRightLetter c || isMark c || isNumber c || c = '-'
  !(label.any fun c => isRightLetter c || isArabicDigit c)
    || label.head?.any isRightLetter && label.all fits
      && (label.reverse.dropWhile isMark).head? ≠ some '-'
      && !(label.any isArabicDigit && label.any fun c => isNumber c && !isArabicDigit c)

def isLabel (cs : List Char) : Bool :=
  !cs.isEmpty && cs.head? ≠ some '-' && cs.getLast? ≠ some '-'
    && (cs.drop 2).take 2 ≠ ['-', '-'] && !cs.head?.any isMark
    && isComposed cs && allowsAll cs [] cs && keepsDirection cs

def asciiMarker : List Char := ['x', 'n', '-', '-']

def labelLimit : Nat := 63

/-- The ASCII form of a label. One that is marked already is kept. -/
def encodeLabel? (cs : List Char) : Option (List Char) :=
  let encoded? :=
    if cs.all Punycode.isBasic then
      if asciiMarker.isPrefixOf cs then
        let rest := cs.drop asciiMarker.length
        if rest.isEmpty || rest.getLast? = some '-' then none else some cs
      else if isLabel cs then some cs
      else none
    else if isLabel cs then some (asciiMarker ++ Punycode.encode cs)
    else none
  encoded?.filter fun encoded => encoded.length ≤ labelLimit

/-- The longest domain name, a dot at its end aside. -/
def nameLimit : Nat := 253

/-- The ASCII form of a domain name in lower case. -/
def encode? (cs : List Char) : Option (List Char) := do
  let parts := split isDot cs
  let isClosed := parts.getLast? = some []
  let labels ← (if isClosed then parts.dropLast else parts).mapM encodeLabel?
  let name := ['.'].intercalate labels
  if nameLimit < name.length then none
  else return if isClosed then name ++ ['.'] else name

end Bindery.Node.DomainName
