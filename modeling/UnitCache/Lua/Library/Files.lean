import UnitCache.Lua.Library.Arguments
/-!
The libraries for files and for the operating system, as far as the standard streams and a clock
that stands still go. There is nothing to read, and no other file can be opened.
-/
namespace UnitCache.Lua.Files

open Routine

def stdin : Value := .file 0

def stdout : Value := .file 1

def stderr : Value := .file 2

/-- Writes texts to a stream. The standard output is held back until it is flushed. -/
def writeTo (stream : Value) (a : Arguments) (start : Nat) : Routine (List Value) := do
  for i in List.range (a.count - start) do
    let s ← a.bytes (start + i + 1)
    if stream = stdout then change (·.write s) else change (·.report s)
  return [stream]

def stream (a : Arguments) : Routine Value :=
  match a.get 1 with
  | .file n => return .file n
  | _ => a.refuseType 1 "FILE*"

def write (a : Arguments) : Routine (List Value) := writeTo stdout a 0

def writeStream (a : Arguments) : Routine (List Value) := do writeTo (← stream a) a 1

def read (_ : Arguments) : Routine (List Value) := return [.nil]

def flush (_ : Arguments) : Routine (List Value) := do
  change World.flush
  return [stdout]

def flushStream (a : Arguments) : Routine (List Value) := do
  let s ← stream a
  if s = stdout then change World.flush
  return [s]

def setBuffer (_ : Arguments) : Routine (List Value) := return [.bool true]

def typeOf (a : Arguments) : Routine (List Value) := do
  match ← a.some 1 with
  | .file _ => return [.text "file"]
  | _ => return [.nil]

def textOf (a : Arguments) : Routine (List Value) := do
  match ← stream a with
  | .file n => return [.text ("file (" ++ Operation.addressText 4 n ++ ")")]
  | _ => return []

def input (_ : Arguments) : Routine (List Value) := return [stdin]

def output (_ : Arguments) : Routine (List Value) := return [stdout]

def refused (name : Bytes) : List Value :=
  [.nil, .string (name ++ Utf8.encode ": Operation not permitted"), .int 1]

def refuse (a : Arguments) : Routine (List Value) := do return refused (← a.bytesOr 1 [])

def noLines (_ : Arguments) : Routine (List Value) := do
  return [← newFunction (.native "lines.next" [])]

def functions : List (String × Native) :=
  [("close", flush), ("flush", flush), ("input", input), ("lines", noLines), ("open", refuse),
    ("output", output), ("popen", refuse), ("read", read), ("tmpfile", refuse), ("type", typeOf),
    ("write", write)]

def constants : List (String × Value) :=
  [("stderr", stderr), ("stdin", stdin), ("stdout", stdout)]

def methods : List (String × Native) :=
  [("close", flushStream), ("flush", flushStream), ("lines", noLines), ("read", read),
    ("seek", refuse), ("setvbuf", setBuffer), ("write", writeStream)]

def metamethods : List (String × Native) := [("__tostring", textOf)]

def hidden : List (String × Native) := [("lines.next", read)]

def clock (_ : Arguments) : Routine (List Value) := return [.float .zero]

def time (_ : Arguments) : Routine (List Value) := return [.int 0]

def difference (a : Arguments) : Routine (List Value) := do
  let x := (← a.number 1).toFloat
  let y := (← a.number 2).toFloat
  return [.float (x.sub y)]

def nothing (_ : Arguments) : Routine (List Value) := return [.nil]

def unavailable (a : Arguments) : Routine (List Value) :=
  fail ("'" ++ a.function ++ "' is not available")

def systemFunctions : List (String × Native) :=
  [("clock", clock), ("date", unavailable), ("difftime", difference), ("execute", nothing),
    ("exit", unavailable), ("getenv", nothing), ("remove", refuse), ("rename", refuse),
    ("setlocale", nothing), ("time", time), ("tmpname", unavailable)]

end UnitCache.Lua.Files
