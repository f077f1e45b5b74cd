namespace UnitCache.Cli

/-- What an option sets. -/
inductive Setting where
  | verbose
  | output
  | config
  | sourceRoot
  | artifactRoot
  | classpath
  | call
  | help
  | version
  deriving DecidableEq, Repr

/-- Why a command line is not carried out. -/
inductive Stop where
  | usage
  | help
  | version
  deriving DecidableEq, Repr

/-- Where the parser is: before the command, or after one. -/
inductive Level where
  | root
  | compile
  | run
  deriving DecidableEq, Repr

namespace Setting

def takesValue : Setting → Bool
  | .verbose | .help | .version => false
  | _ => true

/-- Whether it may be given more than once. -/
def repeats : Setting → Bool
  | .classpath => true
  | _ => false

/-- Whether a value is fit for the setting. -/
def admits : Setting → String → Bool
  | .output, v => v = "text" || v = "json"
  | .config, v | .sourceRoot, v | .artifactRoot, v | .classpath, v => v ≠ ""
  | _, _ => true

/-- The setting of a long option. -/
def ofLong? (l : Level) : String → Option Setting
  | "verbose" => some .verbose
  | "output" => some .output
  | "config" => some .config
  | "source-root" => some .sourceRoot
  | "artifact-root" => some .artifactRoot
  | "classpath" => some .classpath
  | "help" => some .help
  | "version" => if l = .root then some .version else none
  | "call" => if l = .run then some .call else none
  | _ => none

def ofShort? (l : Level) : Char → Option Setting
  | 'v' => some .verbose
  | 'o' => some .output
  | 'h' => some .help
  | 'V' => if l = .root then some .version else none
  | _ => none

end Setting

/-- Settings with their values, in the order in which they are given. -/
abbrev Given := List (Setting × String)

/-- What has been read so far of one level. -/
structure Progress where
  given : Given := []
  positionals : List String := []
  /-- An option that waits for its value. -/
  pending : Option Setting := none
  /-- Whether only positional arguments follow. -/
  trailing : Bool := false

namespace Progress

/-- Gives a value to a setting, unless it has one already or the value does not fit. -/
def set (p : Progress) (s : Setting) (v : String) : Except Stop Progress :=
  if !s.admits v || (!s.repeats && p.given.any (fun g => g.1 = s)) then .error .usage
  else .ok { p with given := p.given ++ [(s, v)] }

/-- An option; one that waits for its value may not be followed by another. -/
def option (p : Progress) (s : Setting) (value : Option String) : Except Stop Progress :=
  if p.pending.isSome then .error .usage
  else
    match s, value with
    | .help, none => .error .help
    | .version, none => .error .version
    | s, some v => if s.takesValue then p.set s v else .error .usage
    | s, none => if s.takesValue then .ok { p with pending := some s } else p.set s ""

/-- How many positional arguments there are before those that look like anything. -/
def fixed : Nat := 2

/-- Whether the next positional argument may look like an option. -/
def allowsHyphens (l : Level) (p : Progress) : Bool := l = .run && fixed ≤ p.positionals.length

def positional (l : Level) (p : Progress) (arg : String) : Except Stop Progress :=
  if p.pending.isSome then .error .usage
  else
    match l with
    | .root => .error .usage
    | .compile =>
      if fixed ≤ p.positionals.length then .error .usage
      else .ok { p with positionals := p.positionals ++ [arg] }
    | .run =>
      .ok { p with
        positionals := p.positionals ++ [arg]
        trailing := p.trailing || fixed ≤ p.positionals.length }

/-- The value of an option that waits for one, or else a positional argument. -/
def value (l : Level) (p : Progress) (arg : String) : Except Stop Progress :=
  match p.pending with
  | some s => { p with pending := none }.set s arg
  | none => p.positional l arg

/-- Short options in one argument. The first one that takes a value takes what is left. -/
def cluster (l : Level) (p : Progress) : List Char → Except Stop Progress
  | [] => .ok p
  | c :: cs =>
    match Setting.ofShort? l c with
    | none => .error .usage
    | some s =>
      if s.takesValue then
        let rest := if cs.head? = some '=' then cs.tail else cs
        p.option s (if cs.isEmpty then none else some (String.ofList rest))
      else do (← p.option s none).cluster l cs

/-- The name of a long option and its value, if that follows an equals sign. -/
def splitLong (cs : List Char) : String × Option String :=
  let name := cs.takeWhile (· ≠ '=')
  (String.ofList name,
    if name.length = cs.length then none else some (String.ofList (cs.drop (name.length + 1))))

/-- Reads one argument. -/
def read (l : Level) (p : Progress) (arg : String) : Except Stop Progress :=
  if p.trailing then p.positional l arg
  else
    match arg.toList with
    | ['-', '-'] => .ok { p with trailing := true }
    | '-' :: '-' :: cs =>
      let (name, v) := splitLong cs
      match Setting.ofLong? l name with
      | some s => p.option s v
      | none => if p.allowsHyphens l then p.value l arg else .error .usage
    | '-' :: c :: cs =>
      if p.allowsHyphens l && (c :: cs).any (fun c => (Setting.ofShort? l c).isNone) then
        p.value l arg
      else p.cluster l (c :: cs)
    | _ => p.value l arg

/-- Reads all arguments of a command. -/
def readAll (l : Level) (p : Progress) (args : List String) : Except Stop Progress :=
  args.foldlM (fun p arg => p.read l arg) p

end Progress

/-- What to do. -/
inductive Command where
  /-- Compile a unit and tell what came of it. -/
  | compile
  /-- Load a unit, and call one of its functions if it is named. -/
  | run (call : Option String) (args : List String)
  deriving DecidableEq, Repr

structure Invocation where
  command : Command
  name : String
  location : String
  given : Given
  deriving DecidableEq, Repr

namespace Invocation

def values (i : Invocation) (s : Setting) : List String :=
  (i.given.filter (fun g => g.1 = s)).map Prod.snd

def value? (i : Invocation) (s : Setting) : Option String := (i.values s).head?

def isJson (i : Invocation) : Bool := i.value? .output = some "json"

/-- Settings before the command count where there are none of their kind after it. -/
def merge (outer inner : Given) : Given :=
  outer.filter (fun g => !inner.any (fun h => h.1 = g.1)) ++ inner

/-- The invocation that a level has read. -/
def ofProgress (outer : Given) (l : Level) (p : Progress) : Except Stop Invocation :=
  match p.pending, p.positionals with
  | none, name :: location :: args =>
    let call? := (p.given.filter (fun g => g.1 = .call)).head?.map Prod.snd
    .ok ⟨if l = .run then .run call? args else .compile, name, location, merge outer p.given⟩
  | _, _ => .error .usage

/-- Reads the arguments up to the command, and then those of the command. -/
def parseFrom (p : Progress) : List String → Except Stop Invocation
  | [] => .error .usage
  | arg :: args =>
    if p.pending.isNone && !p.trailing && arg = "compile" then do
      ofProgress p.given .compile (← Progress.readAll .compile {} args)
    else if p.pending.isNone && !p.trailing && arg = "run" then do
      ofProgress p.given .run (← Progress.readAll .run {} args)
    else if p.pending.isNone && !p.trailing && arg = "help" then .error .help
    else do parseFrom (← p.read .root arg) args

def parse (args : List String) : Except Stop Invocation := parseFrom {} args

end Invocation
end UnitCache.Cli
