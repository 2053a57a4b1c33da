import Bindery.Binding.Generation
import Bindery.CommandLine.Arguments

/-!
# Runs of the command

A run ends with an exit code and what it has printed: results and expected failures on the standard
output, log lines and errors of usage on the standard error.
-/

namespace Bindery.CommandLine

def programVersion : String := "0.1.0"

def usageLine : String := "Usage: main [OPTIONS] [INPUT_GLOB]"

def helpText : String :=
  Binding.unlines
    [ usageLine,
      "",
      "  Generate typed Python bindings from Ontology contract ABI files.",
      "",
      "Options:",
      "  -i, --input TEXT  Glob pattern of ABI files.",
      "  -o, --out TEXT    Output directory.",
      "  -f, --force       Overwrite file if exists.",
      "  -v, --verbose     Log each generated file.",
      "  --version         Show the version and exit.",
      "  -h, --help        Show this message and exit." ]

/-- An error of usage as it is printed. A misplaced value is reported without the usage. -/
def usageText (e : UsageError) : String :=
  let error := "Error: " ++ e.message
  match e with
  | .noValue _ | .unexpectedValue _ => Binding.unlines [error]
  | _ => Binding.unlines [usageLine, "Try 'main --help' for help.", "", error]

/-- How a run ended. A failure that the command does not expect escapes from it. -/
structure Report where
  exitCode : Nat
  standardOutput : String
  standardError : String
  escaped : Option Failure

/-- Whether the command expects a failure: all but values of unfitting types or sizes. -/
def isExpected : Failure → Bool
  | .abi _ | .unknownFunction _ | .conversion _ | .parameter _ | .storage .. | .file _ => true
  | .field _ | .misuse _ | .client .. => false

def logText (verbose : Bool) (logs : List LogRecord) : String :=
  let shown := logs.filter fun r => r.level = .warning || (verbose && r.level = .info)
  Binding.unlines (shown.map LogRecord.line)

def runOrder (levels : Nat) (t : FileTree) : Order → Report × FileTree
  | .help => (⟨0, helpText, "", none⟩, t)
  | .version => (⟨0, "typetology, version " ++ programVersion ++ "\n", "", none⟩, t)
  | .generate pattern out force verbose =>
    let (result, w) := (Binding.generate levels pattern out force).run t
    let logs := logText verbose w.logs
    let report := match result with
      | .ok _ => ⟨0, "success to generate code!\n", logs, none⟩
      | .error f =>
        if isExpected f then ⟨1, f.message ++ "\n", logs, none⟩ else ⟨1, "", logs, some f⟩
    (report, w.tree)

/-- Runs the command with its arguments on a file tree; documents are read with `levels` levels. -/
def run (levels : Nat) (t : FileTree) (arguments : List String) : Report × FileTree :=
  match Order.ofArguments arguments with
  | .ok order => runOrder levels t order
  | .error e => (⟨2, "", usageText e, none⟩, t)

end Bindery.CommandLine
