import AnalysisServer.Disk.Node
import AnalysisServer.Error

/-!
A disk: a tree of files with a current directory and a directory for temporary files.
-/

namespace AnalysisServer

inductive DiskError where
  | notFound
  | notDirectory
  | isDirectory
  | nameTooLong
  | tooManyLinks
  | nulInPath
  | notText
deriving DecidableEq

def DiskError.message : DiskError → String
  | notFound => "No such file or directory (os error 2)"
  | notDirectory => "Not a directory (os error 20)"
  | isDirectory => "Is a directory (os error 21)"
  | nameTooLong => "File name too long (os error 36)"
  | tooManyLinks => "Too many levels of symbolic links (os error 40)"
  | nulInPath => "file name contained an unexpected NUL byte"
  | notText => "stream did not contain valid UTF-8"

def DiskError.toError (e : DiskError) : AnalysisError :=
  .io e.message

structure Disk where
  root : Node := .dir []
  current : Location := []
  temp : Path := ⟨"/tmp"⟩
  made : Nat := 0

namespace Disk

def linkLimit : Nat :=
  40

def nameLimit : Nat :=
  255

def pathLimit : Nat :=
  4095

/-- The names and dots of a path; a separator at the end asks for a directory, as a dot does. -/
def steps (p : Path) : List String :=
  let pieces := (Text.split '/' p.text.toList).filter (· ≠ [])
  let last := if p.text.toList.getLast? = some '/' then ["."] else []
  pieces.map String.ofList ++ last

def followWith (root : Node) (onLink : Location → Path → List String → Except DiskError Location)
    (here : Location) : List String → Except DiskError Location
  | [] => .ok here
  | step :: rest =>
    match root.get? here with
    | some (.dir es) =>
      if step = "." then followWith root onLink here rest
      else if step = ".." then followWith root onLink here.dropLast rest
      else if Text.byteLength step.toList > nameLimit then .error .nameTooLong
      else
        match es.lookup step with
        | none => .error .notFound
        | some (.link target) => onLink here target rest
        | some _ => followWith root onLink (here ++ [step]) rest
    | some _ => .error .notDirectory
    | none => .error .notFound

/-- Follows steps from a location, through so many links at most. -/
def follow (root : Node) : Nat → Location → List String → Except DiskError Location
  | 0 => followWith root fun _ _ _ ↦ .error .tooManyLinks
  | left + 1 => followWith root fun here target rest ↦
    follow root left (if target.isAbsolute then [] else here) (steps target ++ rest)

theorem follow_eq (root : Node) (links : Nat) (here : Location) (todo : List String) :
    follow root links here todo =
      match todo with
      | [] => .ok here
      | step :: rest =>
        match root.get? here with
        | some (.dir es) =>
          if step = "." then follow root links here rest
          else if step = ".." then follow root links here.dropLast rest
          else if Text.byteLength step.toList > nameLimit then .error .nameTooLong
          else
            match es.lookup step with
            | none => .error .notFound
            | some (.link target) =>
              match links with
              | 0 => .error .tooManyLinks
              | left + 1 => follow root left (if target.isAbsolute then [] else here) (steps target ++ rest)
            | some _ => follow root links (here ++ [step]) rest
        | some _ => .error .notDirectory
        | none => .error .notFound := by
  cases links <;> cases todo <;> rfl

-- forty links are more than the elaborator should look through
attribute [irreducible] follow

def locate (d : Disk) (p : Path) : Except DiskError Location :=
  if p.text.isEmpty then .error .notFound
  else if p.text.toList.contains '\x00' then .error .nulInPath
  else if Text.byteLength p.text.toList > pathLimit then .error .nameTooLong
  else follow d.root linkLimit (if p.isAbsolute then [] else d.current) (steps p)

def canonical (d : Disk) (p : Path) : Except DiskError Path :=
  (d.locate p).map (Path.ofNames true)

def canonical? (d : Disk) (p : Path) : Option Path :=
  (d.canonical p).toOption

def node (d : Disk) (p : Path) : Except DiskError Node := do
  let here ← d.locate p
  match d.root.get? here with
  | some n => .ok n
  | none => .error .notFound

def exists? (d : Disk) (p : Path) : Bool :=
  (d.node p).isOk

def isFile (d : Disk) (p : Path) : Bool :=
  match d.node p with
  | .ok n => n.isFile
  | .error _ => false

def isDir (d : Disk) (p : Path) : Bool :=
  match d.node p with
  | .ok n => n.isDir
  | .error _ => false

def read (d : Disk) (p : Path) : Except DiskError ByteArray :=
  match d.node p with
  | .ok (.file bytes) => .ok bytes
  | .ok _ => .error .isDirectory
  | .error e => .error e

def readText (d : Disk) (p : Path) : Except DiskError String :=
  match d.read p with
  | .ok bytes =>
    match String.fromUTF8? bytes with
    | some s => .ok s
    | none => .error .notText
  | .error e => .error e

def modify (d : Disk) (f : Node → Node) : Disk :=
  { d with root := f d.root }

def place (d : Disk) (p : Path) : Except DiskError Location :=
  match p.parent?, p.fileName? with
  | some dir, some name => do
    let here ← d.locate (if dir.text.isEmpty then ⟨"."⟩ else dir)
    .ok (here ++ [name])
  | _, _ => d.locate p

def makeDirs (d : Disk) (p : Path) : Disk :=
  (p :: p.ancestors).reverse.foldl (fun d q ↦
    match d.locate q with
    | .ok _ => d
    | .error _ =>
      match d.place q with
      | .ok here => d.modify (Node.put (.dir []) here)
      | .error _ => d) d

def write (d : Disk) (p : Path) (bytes : ByteArray) : Except DiskError Disk := do
  let here ← d.place p
  match d.root.get? here with
  | some (.dir _) => .error .isDirectory
  | some (.link _) =>
    let here ← d.locate p
    .ok (d.modify (Node.put (.file bytes) here))
  | _ => .ok (d.modify (Node.put (.file bytes) here))

def makeLink (d : Disk) (p target : Path) : Disk :=
  match d.place p with
  | .ok here => d.modify (Node.put (.link target) here)
  | .error _ => d

/-- Takes away a file, or a directory with all that is in it; a link goes, not its target. -/
def remove (d : Disk) (p : Path) : Disk :=
  match d.place p with
  | .ok here => d.modify (Node.remove here)
  | .error _ => d

def removeFile (d : Disk) (p : Path) : Disk :=
  match d.place p with
  | .error _ => d
  | .ok here =>
    match d.root.get? here with
    | some (.dir _) => d
    | _ => d.modify (Node.remove here)

def tempName (n : Nat) : String :=
  let digits := Nat.toDigits 10 n
  "tsconfig-" ++ String.ofList (List.replicate (6 - digits.length) '0' ++ digits) ++ ".json"

def writeTemp (d : Disk) (bytes : ByteArray) : Except DiskError (Path × Disk) := do
  let p := d.temp.joinName (tempName d.made)
  let d ← d.write p bytes
  .ok (p, { d with made := d.made + 1 })

end Disk

class HasDisk (E : Type) where
  disk : E → Disk
  setDisk : Disk → E → E

instance : HasDisk Disk :=
  ⟨id, fun d _ ↦ d⟩

end AnalysisServer
