import Bindery.Text.Quoted

/-!
# Arguments of the command

Options are read wherever they stand, up to a `--`; everything else is positional. A long option
takes its value from behind an equals sign or from the next argument. Short options can be joined,
and the first that takes a value takes the rest of the argument, or the next one if there is no
rest.
-/

namespace Bindery.CommandLine

inductive Flag
  | force | verbose | help | version
  deriving DecidableEq, Repr

inductive Valued
  | input | out
  deriving DecidableEq, Repr

inductive Switch
  | flag (f : Flag)
  | valued (v : Valued)
  deriving DecidableEq, Repr

def longOptions : List (String × Switch) :=
  [ ("--input", .valued .input), ("--out", .valued .out), ("--force", .flag .force),
    ("--verbose", .flag .verbose), ("--version", .flag .version), ("--help", .flag .help) ]

def shortOptions : List (Char × Switch) :=
  [ ('i', .valued .input), ('o', .valued .out), ('f', .flag .force), ('v', .flag .verbose),
    ('h', .flag .help) ]

inductive UsageError
  | noSuchOption (name : String)
  | noValue (name : String)
  | unexpectedValue (name : String)
  | extraArguments (arguments : List String)
  deriving DecidableEq, Repr

def UsageError.message : UsageError → String
  | .noSuchOption name => s!"No such option {Text.quote name}."
  | .noValue name => s!"Option {Text.quote name} requires an argument."
  | .unexpectedValue name => s!"Option {Text.quote name} does not take a value."
  | .extraArguments arguments =>
    let noun := if arguments.length = 1 then "argument" else "arguments"
    let shown := String.intercalate " " arguments
    s!"Got unexpected extra {noun} ({shown})"

/-- What a list of arguments says. Flags are kept in their order. -/
structure Arguments where
  flags : List Flag
  input : Option String
  out : Option String
  positional : List String
  deriving DecidableEq, Repr

namespace Arguments

def empty : Arguments := ⟨[], none, none, []⟩

def setFlag (a : Arguments) (f : Flag) : Arguments := { a with flags := a.flags ++ [f] }

/-- Sets the value of an option; the last value counts. -/
def setValue (a : Arguments) (v : Valued) (value : String) : Arguments :=
  match v with
  | .input => { a with input := some value }
  | .out => { a with out := some value }

def addPositional (a : Arguments) (values : List String) : Arguments :=
  { a with positional := a.positional ++ values }

end Arguments

/-- An option whose value is the next argument, under the name that it was given by. -/
structure Pending where
  option : Valued
  name : String

def readLong (a : Arguments) (cs : List Char) :
    Except UsageError (Arguments × Option Pending) :=
  let name := String.ofList (cs.takeWhile (· ≠ '='))
  let value? := match cs.dropWhile (· ≠ '=') with
    | _ :: value => some (String.ofList value)
    | [] => none
  match longOptions.lookup name, value? with
  | none, _ => .error (.noSuchOption name)
  | some (.flag f), none => .ok (a.setFlag f, none)
  | some (.flag _), some _ => .error (.unexpectedValue name)
  | some (.valued v), some value => .ok (a.setValue v value, none)
  | some (.valued v), none => .ok (a, some ⟨v, name⟩)

def readShort (a : Arguments) : List Char → Except UsageError (Arguments × Option Pending)
  | [] => .ok (a, none)
  | c :: rest =>
    let name := String.ofList ['-', c]
    match shortOptions.lookup c with
    | none => .error (.noSuchOption name)
    | some (.flag f) => readShort (a.setFlag f) rest
    | some (.valued v) =>
      if rest.isEmpty then .ok (a, some ⟨v, name⟩)
      else .ok (a.setValue v (String.ofList rest), none)

def read (a : Arguments) : List String → Except UsageError Arguments
  | [] => .ok a
  | argument :: rest =>
    match argument.toList with
    | ['-', '-'] => .ok (a.addPositional rest)
    | '-' :: c :: more =>
      let taken := if c = '-' then readLong a ('-' :: c :: more) else readShort a (c :: more)
      match taken, rest with
      | .error e, _ => .error e
      | .ok (a, none), rest => read a rest
      | .ok (_, some p), [] => .error (.noValue p.name)
      | .ok (a, some p), value :: rest => read (a.setValue p.option value) rest
    | _ => read (a.addPositional [argument]) rest

inductive Order
  | help
  | version
  | generate (pattern out : Option String) (force verbose : Bool)
  deriving DecidableEq, Repr

namespace Arguments

/-- The first of the flags that end the run at once. -/
def early? (a : Arguments) : Option Order :=
  a.flags.findSome? fun
    | .help => some .help
    | .version => some .version
    | _ => none

/-- The pattern: the option's, unless it is missing or empty, else the positional one. -/
def pattern (a : Arguments) : Option String :=
  match a.input with
  | some s => if s.isEmpty then a.positional.head? else some s
  | none => a.positional.head?

/-- The order that arguments give. Without a pattern, an output folder and force it is for help. -/
def order (a : Arguments) : Except UsageError Order :=
  match a.early? with
  | some o => .ok o
  | none =>
    match a.positional with
    | _ :: extra :: more => .error (.extraArguments (extra :: more))
    | _ =>
      let force := a.flags.contains .force
      if a.pattern.isNone && a.out.isNone && !force then .ok .help
      else .ok (.generate a.pattern a.out force (a.flags.contains .verbose))

end Arguments

def Order.ofArguments (arguments : List String) : Except UsageError Order := do
  (← read .empty arguments).order

end Bindery.CommandLine
