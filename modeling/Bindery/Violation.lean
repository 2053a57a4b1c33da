/-!
# Violations of a schema

A check of untyped data goes on after the first fault: it lists every place at which a rule is
broken, in the order in which the fields are declared.
-/

namespace Bindery

inductive Step
  | name (s : String)
  | index (i : Nat)
  deriving DecidableEq, Repr

inductive Rule
  | present
  | text
  | unicodeText
  | list
  | object (model : String)
  | instanceOf (type : String)
  | integer
  | wholeNumber
  | finiteNumber
  | integerText
  | machineInteger
  deriving DecidableEq, Repr

structure Violation where
  place : List Step
  rule : Rule
  deriving DecidableEq, Repr

def Rule.label : Rule → String
  | .present => "missing"
  | .text => "string_type"
  | .unicodeText => "string_unicode"
  | .list => "list_type"
  | .object _ => "model_type"
  | .instanceOf _ => "is_instance_of"
  | .integer => "int_type"
  | .wholeNumber => "int_from_float"
  | .finiteNumber => "finite_number"
  | .integerText => "int_parsing"
  | .machineInteger => "int_parsing_size"

def Rule.message : Rule → String
  | .present => "Field required"
  | .text => "Input should be a valid string"
  | .unicodeText =>
    "Input should be a valid string, unable to parse raw data as a unicode string"
  | .list => "Input should be a valid list"
  | .object model => s!"Input should be a valid dictionary or instance of {model}"
  | .instanceOf type => s!"Input should be an instance of {type}"
  | .integer => "Input should be a valid integer"
  | .wholeNumber => "Input should be a valid integer, got a number with a fractional part"
  | .finiteNumber => "Input should be a finite number"
  | .integerText => "Input should be a valid integer, unable to parse string as an integer"
  | .machineInteger => "Unable to parse input string as an integer, exceeded maximum size"

def violationCount (model : String) (vs : List Violation) : String :=
  let noun := if vs.length = 1 then "error" else "errors"
  s!"{vs.length} validation {noun} for {model}"

/-- A checked value, or all violations found on the way. -/
abbrev Checked (α : Type) := Except (List Violation) α

namespace Checked

def violation (place : List Step) (rule : Rule) : Checked α := .error [⟨place, rule⟩]

def both (a : Checked α) (b : Checked β) : Checked (α × β) :=
  match a, b with
  | .ok a, .ok b => .ok (a, b)
  | .ok _, .error e => .error e
  | .error e, .ok _ => .error e
  | .error e, .error e' => .error (e ++ e')

def all (check : Nat → α → Checked β) (start : Nat) : List α → Checked (List β)
  | [] => .ok []
  | x :: rest => (both (check start x) (all check (start + 1) rest)).map fun (y, ys) => y :: ys

end Checked

end Bindery
