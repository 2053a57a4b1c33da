/-!
# Identifiers of generated code

Any name becomes an identifier: characters that cannot stand in one become underscores, and a
leading digit, an empty name and a reserved word get one more. `unique` tells repeats apart by
numbers.
-/

namespace Bindery

namespace Identifier

def keywords : List String :=
  [ "False", "None", "True", "and", "as", "assert", "async", "await", "break", "class", "continue",
    "def", "del", "elif", "else", "except", "finally", "for", "from", "global", "if", "import",
    "in", "is", "lambda", "nonlocal", "not", "or", "pass", "raise", "return", "try", "while", "with",
    "yield" ]

def isDigit (c : Char) : Bool := '0' ≤ c && c ≤ '9'

def isAllowed (c : Char) : Bool :=
  isDigit c || ('A' ≤ c && c ≤ 'Z') || ('a' ≤ c && c ≤ 'z') || c = '_'

def clean (cs : List Char) : List Char := cs.map fun c => if isAllowed c then c else '_'

/-- An identifier of allowed characters that starts with no digit. -/
def shape (cs : List Char) : List Char :=
  match clean cs with
  | [] => ['_']
  | c :: rest => if isDigit c then '_' :: c :: rest else c :: rest

def isReserved (s : String) : Bool := keywords.contains s || s = "self"

def ofName (name : String) : String :=
  let s := String.ofList (shape name.toList)
  if isReserved s then s ++ "_" else s

def numbered (name : String) (i : Nat) : String := name ++ "_" ++ toString i

/-- The first of `name` with the numbers from `i` on that is not taken; `tries` bounds the search.
-/
def firstFree (taken : List String) (name : String) (i : Nat) : (tries : Nat) → String
  | 0 => numbered name i
  | tries + 1 =>
    if taken.contains (numbered name i) then firstFree taken name (i + 1) tries
    else numbered name i

/-- The name under which the next of a list is issued: itself if that is new, else with the least
number that makes a name neither in the list nor issued. -/
def fresh (names issued : List String) (name : String) : String :=
  if issued.contains name then
    firstFree (names ++ issued) name 1 (names.length + issued.length)
  else name

/-- The names in order, each repeat under a number of its own. -/
def unique (names : List String) : List String :=
  (names.foldl (fun issued name => fresh names issued name :: issued) []).reverse

end Identifier

end Bindery
