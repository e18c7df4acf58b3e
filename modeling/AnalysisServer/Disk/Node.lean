import AnalysisServer.Path

/-!
Directory trees. The entries of a directory are in the order of their names.
-/

namespace AnalysisServer

inductive Node where
  | file (bytes : ByteArray)
  | link (target : Path)
  | dir (entries : List (String × Node))

/-- Where something is: the names from the root of the tree down to it. -/
abbrev Location := List String

namespace Node

def isDir : Node → Bool
  | dir _ => true
  | _ => false

def isFile : Node → Bool
  | file _ => true
  | _ => false

def get? : Location → Node → Option Node
  | [], n => some n
  | s :: rest, dir es =>
    match es.lookup s with
    | some n => n.get? rest
    | none => none
  | _ :: _, _ => none

def insertEntry (name : String) (n : Node) : List (String × Node) → List (String × Node)
  | [] => [(name, n)]
  | (s, m) :: es =>
    if name < s then (name, n) :: (s, m) :: es
    else if name = s then (name, n) :: es
    else (s, m) :: insertEntry name n es

def eraseEntry (name : String) (es : List (String × Node)) : List (String × Node) :=
  es.filter fun e ↦ e.1 ≠ name

def put (n : Node) : Location → Node → Node
  | [], _ => n
  | s :: rest, dir es => dir (insertEntry s (n.put rest ((es.lookup s).getD (dir []))) es)
  | s :: rest, _ => dir [(s, n.put rest (dir []))]

def remove : Location → Node → Node
  | [], _ => dir []
  | [s], dir es => dir (eraseEntry s es)
  | s :: rest, dir es =>
    match es.lookup s with
    | some n => dir (insertEntry s (n.remove rest) es)
    | none => dir es
  | _, n => n

end Node

end AnalysisServer
