import UnitCache.Log

namespace UnitCache

inductive Severity where
  | error
  | warning
  deriving DecidableEq, Repr

def Severity.label : Severity → String
  | .error => "error"
  | .warning => "warning"

structure Diagnostic where
  severity : Severity
  unit : String
  line : Option Nat
  message : String
  deriving DecidableEq, Repr

namespace Diagnostic

def isError (d : Diagnostic) : Bool := d.severity = .error

/-- `unit:line: severity: message`, or without the line where it is unknown. -/
def text (d : Diagnostic) : String :=
  match d.line with
  | some n => d.unit ++ ":" ++ toString n ++ ": " ++ d.severity.label ++ ": " ++ d.message
  | none => d.unit ++ ": " ++ d.severity.label ++ ": " ++ d.message

def lineField : Option Nat → String
  | some n => "Some(" ++ toString n ++ ")"
  | none => "None"

/-- The record that reports a finding. -/
def record (d : Diagnostic) : LogRecord :=
  ⟨if d.isError then .error else .warn, d.message, [("unit", d.unit), ("line", lineField d.line)]⟩

end Diagnostic

def hasErrors (ds : List Diagnostic) : Bool := ds.any Diagnostic.isError

end UnitCache
