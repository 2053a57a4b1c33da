/-!
# Log records

Operations report what they do as records, in order, beside their results.
-/

namespace Bindery

inductive Level
  | debug | info | warning
  deriving DecidableEq, Repr

def Level.label : Level → String
  | .debug => "DEBUG"
  | .info => "INFO"
  | .warning => "WARNING"

inductive Logger
  | commandLine | generator | invocation | contract | node
  deriving DecidableEq, Repr

def Logger.name : Logger → String
  | .commandLine => "cli"
  | .generator => "codegen.generator"
  | .invocation => "utils.invocation"
  | .contract => "runtime"
  | .node => "clients.rest_client"

structure LogRecord where
  level : Level
  logger : Logger
  message : String
  deriving DecidableEq, Repr

/-- The record as one line of a console. -/
def LogRecord.line (r : LogRecord) : String :=
  s!"{r.level.label} typetology.{r.logger.name}: {r.message}"

end Bindery
