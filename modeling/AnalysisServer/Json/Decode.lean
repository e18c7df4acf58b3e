import AnalysisServer.Json.Basic

namespace AnalysisServer.Json

def record? (names : List String) : Json → Option (String → Option Json)
  | obj fields => some fun name ↦ fields.lookup name
  | arr items =>
    if items.length ≤ names.length then some fun name ↦ (names.zip items).lookup name else none
  | _ => none

def object? : Json → Option (String → Option Json)
  | obj fields => some fun name ↦ fields.lookup name
  | _ => none

variable {α : Type}

def required (read : Json → Option α) : Option Json → Option α
  | none => none
  | some v => read v

def withDefault (value : α) (read : Json → Option α) : Option Json → Option α
  | none => some value
  | some v => read v

def nullable (read : Json → Option α) : Json → Option (Option α)
  | null => some none
  | v => (read v).map some

def optional (read : Json → Option α) : Option Json → Option (Option α) :=
  withDefault none (nullable read)

def listOf (read : Json → Option α) : Json → Option (List α)
  | arr items => items.mapM read
  | _ => none

def strings? : Json → Option (List String) :=
  listOf str?

/-- What may stand under a word that is written as an object of one field. -/
inductive Filler where
  | null
  | nullOrEmpty

def Filler.accepts : Filler → Json → Bool
  | _, .null => true
  | nullOrEmpty, .obj [] => true
  | _, _ => false

/-- One of a set of words, given as the word or as an object with the word over a filler. -/
def word? (filler : Filler) (table : List (String × α)) : Json → Option α
  | str s => table.lookup s
  | obj [(s, v)] => if filler.accepts v then table.lookup s else none
  | _ => none

end AnalysisServer.Json
