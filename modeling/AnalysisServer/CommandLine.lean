import AnalysisServer.Path
import AnalysisServer.Text.Word

/-!
The command line. Settings are given by place, by name or by an environment variable, in this order of strength.
-/

namespace AnalysisServer

structure CommandLine where
  port : Nat := 0
  host : String := "127.0.0.1"
  workDir : Option Path := none
  tsParserForJs : Bool := false
  lightweight : Bool := false
  debugMemory : Bool := false
  ruleBundles : List Path := []
  workers : Nat := 1
  timeoutMs : Nat := 300000
  shutdownGraceMs : Nat := 5000
  verbose : Bool := false
deriving DecidableEq, Inhabited

inductive UsageError where
  /-- A value of the wrong form. -/
  | unreadable
  /-- A value that is missing or not among those allowed. -/
  | refused
  | unknown
  | repeated
  /-- A value for something that takes none. -/
  | unwanted
  | helpWanted
  | versionWanted
deriving DecidableEq

namespace CommandLine

inductive Setting where
  | port
  | host
  | workDir
  | tsParserForJs
  | lightweight
  | debugMemory
  | ruleBundles
  | workers
  | timeoutMs
  | shutdownGraceMs
  | verbose
deriving DecidableEq

/-- What a name on the command line stands for. -/
inductive Name where
  | flag (s : Setting)
  | valued (s : Setting)
  | help
  | version

def Name.ofLong? : String → Option Name
  | "ts-parser-for-js" => some (.flag .tsParserForJs)
  | "lightweight" => some (.flag .lightweight)
  | "debug-memory" => some (.flag .debugMemory)
  | "rule-bundles" => some (.valued .ruleBundles)
  | "workers" => some (.valued .workers)
  | "timeout-ms" => some (.valued .timeoutMs)
  | "shutdown-grace-ms" => some (.valued .shutdownGraceMs)
  | "verbose" => some (.flag .verbose)
  | "help" => some .help
  | "version" => some .version
  | _ => none

def Name.ofShort? : Char → Option Name
  | 'v' => some (.flag .verbose)
  | 'h' => some .help
  | 'V' => some .version
  | _ => none

/-- The variables that are read, in this order; each name stands behind the name of the program. -/
def environment : List (Setting × String) :=
  [(.port, "PORT"), (.host, "HOST"), (.workDir, "WORKDIR"), (.tsParserForJs, "TS_PARSER_FOR_JS"),
    (.lightweight, "LIGHTWEIGHT"), (.debugMemory, "DEBUG_MEMORY"), (.ruleBundles, "RULE_BUNDLES"),
    (.verbose, "VERBOSE")]

def digits? (cs : List Char) : Option Nat :=
  if cs.isEmpty || !cs.all Char.isDigit then none
  else some (cs.foldl (fun n c ↦ 10 * n + (c.toNat - '0'.toNat)) 0)

/-- A number below a bound, which may have a plus sign. -/
def natural? (bound : Nat) (s : String) : Option Nat :=
  let digits := match s.toList with
    | '+' :: cs => cs
    | cs => cs
  (digits? digits).filter (· < bound)

/-- A number of a port; a zero may have a minus sign too. -/
def port? (s : String) : Option Nat :=
  match s.toList with
  | '-' :: cs => (digits? cs).filter (· = 0)
  | _ => natural? UInt16.size s

def path? (s : String) : Except UsageError Path :=
  if s.isEmpty then .error .refused else .ok ⟨s⟩

def switch? : String → Except UsageError Bool
  | "true" => .ok true
  | "false" => .ok false
  | _ => .error .refused

def readable {α : Type} : Option α → Except UsageError α
  | some a => .ok a
  | none => .error .unreadable

def put (c : CommandLine) (s : Setting) (v : String) : Except UsageError CommandLine :=
  match s with
  | .port => (readable (port? v)).map fun port ↦ { c with port }
  | .host => .ok { c with host := v }
  | .workDir => (path? v).map fun p ↦ { c with workDir := some p }
  | .tsParserForJs => (switch? v).map fun tsParserForJs ↦ { c with tsParserForJs }
  | .lightweight => (switch? v).map fun lightweight ↦ { c with lightweight }
  | .debugMemory => (switch? v).map fun debugMemory ↦ { c with debugMemory }
  | .ruleBundles =>
    let pieces := (Text.split ',' v.toList).map String.ofList
    (pieces.mapM path?).map fun ps ↦ { c with ruleBundles := c.ruleBundles ++ ps }
  | .workers => (readable (natural? UInt64.size v)).map fun workers ↦ { c with workers }
  | .timeoutMs => (readable (natural? UInt64.size v)).map fun timeoutMs ↦ { c with timeoutMs }
  | .shutdownGraceMs =>
    (readable (natural? UInt64.size v)).map fun shutdownGraceMs ↦ { c with shutdownGraceMs }
  | .verbose => (switch? v).map fun verbose ↦ { c with verbose }

structure Reading where
  settings : CommandLine := {}
  given : List Setting := []
  /-- What was named or placed last, and its value if that is known. -/
  pending : Option (Setting × Option String) := none
  places : List Setting := [.port, .host, .workDir]
  literal : Bool := false

namespace Reading

def assign (r : Reading) (s : Setting) (v : String) : Except UsageError Reading :=
  if s ≠ .ruleBundles ∧ s ∈ r.given then .error .repeated
  else (r.settings.put s v).map fun settings ↦ { r with settings, given := s :: r.given }

def settle (r : Reading) : Except UsageError Reading :=
  match r.pending with
  | none => .ok r
  | some (_, none) => .error .refused
  | some (s, some v) => { r with pending := none }.assign s v

def named (r : Reading) : Name → Option String → Except UsageError Reading
  | .valued s, none => do
    let r ← r.settle
    return { r with pending := some (s, none) }
  | .valued s, some v => do
    let r ← r.settle
    r.assign s v
  | _, some _ => .error .unwanted
  | .flag s, none => do
    let r ← r.settle
    r.assign s "true"
  | .help, none => do
    let _ ← r.settle
    .error .helpWanted
  | .version, none => do
    let _ ← r.settle
    .error .versionWanted

def letters (r : Reading) : List Char → Except UsageError Reading
  | [] => .ok r
  | c :: cs =>
    match Name.ofShort? c with
    | some n => do
      let r ← r.named n none
      r.letters cs
    | none => .error .unknown

def long (r : Reading) (cs : List Char) : Except UsageError Reading :=
  let name := cs.takeWhile (· ≠ '=')
  let value := match cs.dropWhile (· ≠ '=') with
    | _ :: v => some (String.ofList v)
    | [] => none
  match Name.ofLong? (String.ofList name) with
  | some n => r.named n value
  | none => .error .unknown

/-- Takes an argument as the value of what was named last, or for the next place. -/
def value (r : Reading) (v : String) : Except UsageError Reading :=
  match r.pending, r.literal with
  | some (s, none), false => .ok { r with pending := some (s, some v) }
  | _, _ =>
    match r.places with
    | [] => .error .unknown
    | s :: rest => do
      let r ← r.settle
      return { r with pending := some (s, some v), places := rest }

def next (r : Reading) (arg : String) : Except UsageError Reading :=
  if r.literal then r.value arg
  else
    match arg.toList with
    | ['-', '-'] => .ok { r with literal := true }
    | '-' :: '-' :: cs => r.long cs
    | ['-'] => r.value arg
    | '-' :: cs => r.letters cs
    | _ => r.value arg

def ofVariable (env : String → Option String) (r : Reading) (v : Setting × String) :
    Except UsageError Reading :=
  if v.1 ∈ r.given then .ok r
  else
    match env v.2 with
    | some value => r.assign v.1 value
    | none => .ok r

end Reading

def read (env : String → Option String) (args : List String) : Except UsageError CommandLine := do
  let r ← args.foldlM Reading.next {}
  let r ← r.settle
  let r ← environment.foldlM (Reading.ofVariable env) r
  return r.settings

end CommandLine

end AnalysisServer
