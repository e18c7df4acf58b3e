import AnalysisServer.Configuration

/-!
The set of files that an analysis looks at. It can be read only between being set and being cleared.
-/

namespace AnalysisServer

/-- A file with its language and type, and its content if the host sent it. -/
structure FileRecord where
  path : Path
  language : Language
  fileType : FileType
  content : Option String := none
deriving DecidableEq, Inhabited

namespace FileRecord

def toJson (r : FileRecord) : Json :=
  .obj (Json.optionalField "content" .str r.content ++
    [("fileType", r.fileType.toJson), ("language", r.language.toJson), ("path", r.path.toJson)])

def ofJson? (j : Json) : Option FileRecord := do
  let field ← j.record? ["path", "language", "fileType", "content"]
  let path ← Json.required Path.ofJson? (field "path")
  let language ← Json.required (Json.word? .null Language.words) (field "language")
  let fileType ← Json.required (Json.word? .null FileType.words) (field "fileType")
  let content ← Json.optional Json.str? (field "content")
  some { path, language, fileType, content }

end FileRecord

/-- Records by path, and the paths in the order in which they first came. -/
structure FileSet where
  baseDir : Path
  entries : PathMap FileRecord := []
  order : List Path := []
deriving DecidableEq

namespace FileSet

/-- A record whose path is known takes the place of the one before. -/
def addRecord (s : FileSet) (r : FileRecord) : FileSet :=
  { s with
    entries := PathMap.insert r.path r s.entries
    order := if PathMap.contains r.path s.entries then s.order else s.order ++ [r.path] }

def ofRecords (baseDir : Path) (records : List FileRecord) : FileSet :=
  records.foldl addRecord { baseDir }

def filenames (s : FileSet) : List Path :=
  s.order

def filesCount (s : FileSet) : Nat :=
  s.order.length

def records (s : FileSet) : List FileRecord :=
  s.order.filterMap fun p ↦ PathMap.get? p s.entries

def get? (s : FileSet) (p : Path) : Option FileRecord :=
  PathMap.get? p s.entries

end FileSet

/-- A file set that may not be there yet. -/
structure FilesCache where
  set? : Option FileSet := none
deriving DecidableEq

namespace FilesCache

def setFiles (_ : FilesCache) (baseDir : Path) (records : List FileRecord) : FilesCache :=
  ⟨some (FileSet.ofRecords baseDir records)⟩

def clear (_ : FilesCache) : FilesCache :=
  {}

def isInitialized (c : FilesCache) : Bool :=
  c.set?.isSome

def uninitialized : AnalysisError :=
  .validation "Files cache has not been initialized. Run file discovery before reading it."

def read (c : FilesCache) : Except AnalysisError FileSet :=
  match c.set? with
  | some s => .ok s
  | none => .error uninitialized

end FilesCache

end AnalysisServer
