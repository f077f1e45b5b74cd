import UnitCache.Lua.Grammar

namespace UnitCache.Lua

/-- Source text, under a name whose first character says what the rest is: `@` a place, `=` a text
to be shown as it is. Any other name is source text itself. The binary form is a stand-in for the
bytecode of Lua: it has the header of Lua 5.4 and then the name and the source. -/
structure Chunk where
  name : Bytes
  source : Bytes
  deriving DecidableEq, Repr

namespace Chunk

/-- Source text as a name: its first line, cut if it is long. -/
def quotedSource (bs : Bytes) : Bytes :=
  let line := bs.takeWhile (· ≠ byte '\n')
  let shown :=
    if line.length = bs.length && line.length < 45 then line
    else line.take 45 ++ Utf8.encode "..."
  Utf8.encode "[string \"" ++ shown ++ Utf8.encode "\"]"

/-- How messages show the name of a chunk: at most fifty-nine bytes of it, the last ones of a
place. -/
def shortName : Bytes → Bytes
  | m :: bs =>
    if m = byte '@' then
      if bs.length ≤ 59 then bs else Utf8.encode "..." ++ bs.drop (bs.length - 56)
    else if m = byte '=' then bs.take 59
    else quotedSource (m :: bs)
  | [] => quotedSource []

def shown (c : Chunk) : Bytes := shortName c.name

/-- Where something is, as messages say it. -/
def location (shortName : Bytes) (line : Nat) : Bytes :=
  shortName ++ Utf8.encode (":" ++ toString line ++ ": ")

/-- What is said of a text that is not Lua. -/
def faultText (c : Chunk) (f : SyntaxFault) : String :=
  let near := match f.near with
    | some t => Utf8.encode " near " ++ t
    | none => []
  Utf8.decodeLossy (location c.shown f.line ++ Utf8.encode f.message ++ near)

/-- The mark that every binary form begins with. -/
def mark : Bytes := 0x1B :: Utf8.encode "Lua"

/-- A number of eight bytes, the lowest first. -/
def word (n : Nat) : Bytes := (List.range 8).map fun i => UInt8.ofNat (n / Nat.pow 256 i)

/-- The parts of the header, each with the reason for refusing a chunk in which it differs. -/
def header : List (Bytes × String) :=
  [(mark, "not a binary chunk"),
    ([0x54], "version mismatch"),
    ([0], "format mismatch"),
    ([0x19, 0x93, 0x0D, 0x0A, 0x1A, 0x0A], "corrupted chunk"),
    ([4], "Instruction size mismatch"),
    ([8], "lua_Integer size mismatch"),
    ([8], "lua_Number size mismatch"),
    (word 0x5678, "integer format mismatch"),
    (word 0x4077280000000000, "float format mismatch")]

/-- The binary form. What is proved of all compiles and loads takes it for any function of the name and
the source; only runs on fixed texts look at its bytes. -/
def encode (c : Chunk) : Bytes :=
  header.flatMap Prod.fst ++ word c.name.length ++ c.name ++ c.source

def isBinary (bs : Bytes) : Bool := mark.isPrefixOf bs

def truncated : String := "truncated chunk"

/-- What follows the header. -/
def afterHeader : List (Bytes × String) → Bytes → Except String Bytes
  | [], bs => .ok bs
  | (part, reason) :: parts, bs =>
    if bs.length < part.length then .error truncated
    else if part.isPrefixOf bs then afterHeader parts (bs.drop part.length)
    else .error reason

/-- The chunk that a binary form stands for, or why it is none. -/
def decode (bs : Bytes) : Except String Chunk := do
  let rest ← afterHeader header bs
  if rest.length < 8 then throw truncated
  let size := (rest.take 8).foldr (fun b n => 256 * n + b.toNat) 0
  let rest := rest.drop 8
  if rest.length < size then throw truncated
  return ⟨rest.take size, rest.drop size⟩

/-- Loading a binary chunk fails, saying which and why. `name` is the one it is loaded under. -/
def refusal (name : Bytes) (reason : String) : String :=
  let shown :=
    match name with
    | m :: rest => if m = byte '@' || m = byte '=' then rest else m :: rest
    | [] => []
  Utf8.decodeLossy shown ++ ": bad binary format (" ++ reason ++ ")"

end Chunk
end UnitCache.Lua
