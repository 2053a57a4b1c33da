import Bindery.Node.DomainName
import Bindery.Text.Lowercase
import Bindery.Text.Percent
import Bindery.Text.Quoted

/-!
# Hosts

A host is an address of four numbers, an address in brackets, or a name. What looks like one of the
two addresses has to be one. A name is put into lower case; in ASCII what may not stand in it is
percent-encoded, and in any other script it is a domain name.
-/

namespace Bindery.Node.Host

open Text

inductive Error
  | address4 (text : String)
  | address6 (text : String)
  | domainName (text : String)
  deriving DecidableEq, Repr

def Error.message : Error → String
  | .address4 text => s!"Invalid IPv4 address: {quote text}"
  | .address6 text => s!"Invalid IPv6 address: {quote text}"
  | .domainName text => s!"Invalid IDNA hostname: {quote text}"

def isDigit (c : Char) : Bool := DomainName.isAsciiDigit c

/-- The states after a character of a text that should be four runs of digits with one character
between two runs. Even states wait for a run to begin; the last state is within the fourth. -/
def nextStates (c : Char) (state : Nat) : List Nat :=
  if state % 2 = 0 then (if isDigit c then [state + 1] else [])
  else (if isDigit c then [state] else []) ++ (if state < 7 then [state + 1] else [])

/-- Whether a text looks like four numbers, whatever stands between them. -/
def looksNumeric (cs : List Char) : Bool :=
  (cs.foldl (fun states c => (states.flatMap (nextStates c)).eraseDups) [0]).contains 7

def isOctet (cs : List Char) : Bool :=
  !cs.isEmpty && cs.all isDigit && cs.length ≤ 3 && (cs = ['0'] || cs.head? ≠ some '0')
    && cs.foldl (fun n c => 10 * n + (c.toNat - 48)) 0 < 256

def isAddress4 (cs : List Char) : Bool :=
  let parts := split (· = '.') cs
  parts.length = 4 && parts.all isOctet

def isGroup (cs : List Char) : Bool :=
  !cs.isEmpty && cs.length ≤ 4 && cs.all fun c => (Hex.digitValue? c).isSome

/-- The parts of an address between colons; four numbers at its end stand for two groups. -/
def groups? (cs : List Char) : Option (List (List Char)) :=
  let parts := split (· = ':') cs
  match parts.getLast? with
  | some last =>
    if !last.contains '.' then some parts
    else if isAddress4 last then some (parts.dropLast ++ [['0'], ['0']])
    else none
  | none => none

/-- The groups on one side of a gap, which can reach to the end of the address. -/
def side (parts : List (List Char)) : List (List Char) := if parts = [[]] then [] else parts

/-- Whether parts make eight groups, or fewer around one gap. -/
def areGroups (parts : List (List Char)) : Bool :=
  let inner := parts.dropLast.drop 1
  if inner.contains [] then
    let before := parts.take 1 ++ inner.takeWhile (· ≠ [])
    let left := side before
    let right := side (parts.drop (before.length + 1))
    left.all isGroup && right.all isGroup && left.length + right.length < 8
  else parts.length = 8 && parts.all isGroup

/-- Whether a text is an address of groups, with an optional zone behind a percent sign. -/
def isAddress6 (cs : List Char) : Bool :=
  let address := cs.takeWhile (· ≠ '%')
  let zone := cs.drop address.length
  (zone.isEmpty || 1 < zone.length && !(zone.drop 1).contains '%')
    && (groups? address).any areGroups

def isNameChar (c : Char) : Bool :=
  c.isAlphanum || "-._~!$&'()*+,;=\"\x60\x7b\x7d%|\\".toList.contains c

def isBracketed (cs : List Char) : Bool :=
  2 ≤ cs.length && cs.head? = some '[' && cs.getLast? = some ']'

/-- The form in which a host is kept; an address loses its brackets. -/
def normalize (cs : List Char) : Except Error (List Char) :=
  let text := String.ofList cs
  if cs.isEmpty then .ok []
  else if looksNumeric cs then
    if isAddress4 cs then .ok cs else .error (.address4 text)
  else if isBracketed cs then
    let address := (cs.drop 1).dropLast
    if isAddress6 address then .ok address else .error (.address6 text)
  else if cs.all Punycode.isBasic then .ok (percentEncode isNameChar (lowercase cs))
  else
    match DomainName.encode? (lowercase cs) with
    | some name => .ok name
    | none => .error (.domainName text)

end Bindery.Node.Host
