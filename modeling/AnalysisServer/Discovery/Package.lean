import AnalysisServer.Json.Scan
import AnalysisServer.Disk

namespace AnalysisServer

structure Package where
  path : Path
  name : Option String
  dependencies : List String
deriving DecidableEq

def insertName (n : String) : List String → List String
  | [] => [n]
  | m :: ms => if n < m then n :: m :: ms else if n = m then m :: ms else m :: insertName n ms

def ascendingNames (ns : List String) : List String :=
  ns.foldl (fun acc n ↦ insertName n acc) []

namespace Package

open Json

def fileName : String :=
  "package.json"

/-- The fields in the order in which an array gives them. All but the first are tables. -/
def fieldNames : List String :=
  ["name", "dependencies", "devDependencies", "peerDependencies"]

def title : String :=
  "struct RawManifest"

structure Draft where
  seen : List String := []
  name : Option String := none
  dependencies : List String := []

/-- The names in a table, which is the second container from outside. -/
def table (fuel : Nat) : Scan (List String) :=
  Scan.names fuel (Document.deepest - 2)

def knownField (fuel : Nat) (d : Draft) (field : String) : Scan Draft := do
  if d.seen.contains field then
    Scan.closing '}'
    Scan.fail (.repeatedField field)
  else
    Scan.colon
    let d := { d with seen := field :: d.seen }
    if field = "name" then return { d with name := ← Scan.nullableString fuel }
    else return { d with dependencies := d.dependencies ++ (← table fuel) }

def fields : Nat → Bool → Draft → Scan Draft
  | 0, _, _ => Scan.failAhead .endInObject
  | fuel + 1, first, d => do
    if ← Scan.moreFields true first then
      let field ← Scan.string true fuel
      if fieldNames.contains field then
        let d ← knownField fuel d field
        fields fuel false d
      else
        Scan.colon
        Scan.value false fuel 0
        fields fuel false d
    else return d

def tables (fuel : Nat) : Nat → Draft → Scan Draft
  | 0, d => do
    Scan.listEnd
    return d
  | n + 1, d => do
    if ← Scan.moreItems true false then
      let found ← table fuel
      tables fuel n { d with dependencies := d.dependencies ++ found }
    else return d

def items (fuel : Nat) : Scan Draft := do
  if ← Scan.moreItems true true then
    let name ← Scan.nullableString fuel
    tables fuel (fieldNames.length - 1) { name }
  else
    Scan.fail (.wrongLength 0 (title ++ " with " ++ toString fieldNames.length ++ " elements"))

def draft (fuel : Nat) : Scan Draft := do
  match ← Scan.ahead with
  | none => Scan.failAhead .endInValue
  | some '[' =>
    Scan.advance
    items fuel
  | some '{' =>
    Scan.advance
    fields fuel true {}
  | some _ => Scan.mismatch fuel title

def ofText (path : Path) (text : String) : Except Fault Package := do
  let d ← Scan.text draft text
  return ⟨path, d.name, ascendingNames d.dependencies⟩

def read (disk : Disk) (path : Path) : Except AnalysisError Package :=
  match disk.readText path with
  | .error e => .error e.toError
  | .ok text =>
    match ofText path text with
    | .ok p => .ok p
    | .error f => .error (.config ("Invalid " ++ path.text ++ ": " ++ f.message))

end Package

end AnalysisServer
