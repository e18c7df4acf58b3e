import AnalysisServer.Disk
import AnalysisServer.Glob

/-!
Walks over a directory. Each directory below it is read when the walk comes to it, so that what is done to the
disk meanwhile shows in what is read later.
-/

namespace AnalysisServer

def Disk.entries (d : Disk) (p : Path) : Except DiskError (List (String × Node)) :=
  match d.node p with
  | .ok (.dir es) => .ok es
  | .ok _ => .error .notDirectory
  | .error e => .error e

namespace Walk

/-- Exclusion patterns. One that names all below a directory also excludes the directory. -/
structure Exclusions where
  entries : List Glob
  directories : List Glob

def belowMark : List Char :=
  ['/', '*', '*']

/-- The pattern without the mark at its end, if it has one and something before it. -/
def directoryPattern? (pattern : String) : Option String :=
  let cs := pattern.toList
  if belowMark.isSuffixOf cs ∧ cs.length > belowMark.length then
    some (String.ofList (cs.take (cs.length - belowMark.length)))
  else none

def Exclusions.ofPatterns (patterns : List String) : Exclusions :=
  ⟨Glob.set patterns, Glob.set (patterns.filterMap directoryPattern?)⟩

def Exclusions.skip (x : Exclusions) (names : Location) (isDir : Bool) : Bool :=
  let text := "/".intercalate names
  Glob.anyMatch x.entries text || (isDir && Glob.anyMatch x.directories text)

structure Summary where
  files : Nat := 0
  directories : Nat := 0
  excluded : Nat := 0
  errors : Nat := 0
deriving DecidableEq, Inhabited

inductive Event where
  | directory (path : Path)
  | file (path : Path)
deriving DecidableEq

/-- The path of an entry, written below the root as the root was written. -/
def pathBelow (root : Path) (names : Location) : Path :=
  names.foldl Path.joinName root

/-- Whoever is told the entries, with the disk as it is by then. -/
structure Visitor (X : Type) where
  disk : X → Disk
  visit : Event → X → X

/-- The entries of a directory below the root. A path has fewer names than it may have bytes. -/
def read (d : Disk) (root : Path) (names : Location) : Except DiskError (List (String × Node)) :=
  if names.length < Disk.pathLimit then d.entries (pathBelow root names) else .error .nameTooLong

section

variable {X : Type} (v : Visitor X) (skip : Location → Bool → Bool) (root : Path)

/-- Comes to an entry of a directory. `skip` is told its names and whether it is a directory, and `enter` goes
through what was read of one. -/
def meet (enter : Location → List (String × Node) → Summary × X → Summary × X) (front : Location)
    (state : Summary × X) (entry : String × Node) : Summary × X :=
  let (sum, x) := state
  let names := front ++ [entry.1]
  let path := pathBelow root names
  if skip names entry.2.isDir then ({ sum with excluded := sum.excluded + 1 }, x)
  else
    match entry.2 with
    | .file _ => ({ sum with files := sum.files + 1 }, v.visit (.file path) x)
    | .link _ => (sum, x)
    | .dir _ =>
      let sum := { sum with directories := sum.directories + 1 }
      match read (v.disk x) root names with
      | .ok es => enter names es (sum, v.visit (.directory path) x)
      | .error _ => ({ sum with errors := sum.errors + 1 }, v.visit (.directory path) x)

def through : Nat → Location → List (String × Node) → Summary × X → Summary × X
  | 0, _, _, state => state
  | depth + 1, front, es, state => es.foldl (meet v skip root (through depth) front) state

end

/-- A lone dash stands for standard input, below which there is nothing. -/
def standardInput : Path :=
  ⟨"-"⟩

def Visitor.walk {X : Type} (v : Visitor X) (root : Path) (patterns : List String) (x : X) : Summary × X :=
  if root.same standardInput then ({}, x) else
  match (v.disk x).node root with
  | .error _ => ({ errors := 1 }, x)
  | .ok (.dir es) => through v (Exclusions.ofPatterns patterns).skip root Disk.pathLimit [] es ({}, x)
  | .ok _ => ({}, x)

structure Result where
  events : List Event
  summary : Summary

/-- Takes down the events on a disk that stays as it is. -/
def recorder (disk : Disk) : Visitor (List Event) where
  disk _ := disk
  visit event events := events ++ [event]

def walk (disk : Disk) (root : Path) (patterns : List String) : Result :=
  let (summary, events) := (recorder disk).walk root patterns []
  ⟨events, summary⟩

end Walk

end AnalysisServer
