namespace UnitCache

inductive LogLevel where
  | info
  | warn
  | error
  deriving DecidableEq, Repr

def LogLevel.label : LogLevel → String
  | .info => "INFO"
  | .warn => "WARN"
  | .error => "ERROR"

structure LogRecord where
  level : LogLevel
  message : String
  /-- Further fields with their values. -/
  fields : List (String × String) := []
  deriving DecidableEq, Repr

/-- The record on one line: level, message, then each field. -/
def LogRecord.line (r : LogRecord) : String :=
  r.fields.foldl (fun s f => s ++ " " ++ f.1 ++ "=" ++ f.2) (r.level.label ++ " " ++ r.message)

end UnitCache
