/-!
JSON values. A number is an integer or a double, kept by its bits so that the two zeros differ.
-/

namespace AnalysisServer

inductive Number where
  | int (value : Int)
  | float (bits : UInt64)
deriving DecidableEq, Inhabited

inductive Json where
  | null
  | bool (b : Bool)
  | num (n : Number)
  | str (s : String)
  | arr (items : List Json)
  | obj (fields : List (String × Json))
deriving Inhabited

namespace Json

abbrev Fields := List (String × Json)

/-- Puts a field in its place by name; a field of that name is replaced. -/
def insert (name : String) (value : Json) : Fields → Fields
  | [] => [(name, value)]
  | (n, v) :: rest =>
    if name < n then (name, value) :: (n, v) :: rest
    else if name = n then (name, value) :: rest
    else (n, v) :: insert name value rest

/-- The object of the given fields; of two with one name the later counts. -/
def ofFields (fields : Fields) : Json :=
  obj (fields.foldl (fun acc f ↦ insert f.1 f.2 acc) [])

def ofNat (n : Nat) : Json :=
  num (.int n)

def ofUInt32 (n : UInt32) : Json :=
  ofNat n.toNat

def ofUInt64 (n : UInt64) : Json :=
  ofNat n.toNat

def ofOption {α : Type} (f : α → Json) : Option α → Json
  | none => null
  | some a => f a

def ofList {α : Type} (f : α → Json) (as : List α) : Json :=
  arr (as.map f)

def strings (ss : List String) : Json :=
  ofList str ss

def get? (name : String) : Json → Option Json
  | obj fields => fields.lookup name
  | _ => none

def isNull : Json → Bool
  | null => true
  | _ => false

def str? : Json → Option String
  | str s => some s
  | _ => none

def bool? : Json → Option Bool
  | bool b => some b
  | _ => none

def arr? : Json → Option (List Json)
  | arr items => some items
  | _ => none

def obj? : Json → Option Fields
  | obj fields => some fields
  | _ => none

def nat? (greatest : Nat) : Json → Option Nat
  | num (.int (.ofNat n)) => if n ≤ greatest then some n else none
  | _ => none

def uint32? (j : Json) : Option UInt32 :=
  (nat? (UInt32.size - 1) j).map Nat.toUInt32

def uint64? (j : Json) : Option UInt64 :=
  (nat? (UInt64.size - 1) j).map Nat.toUInt64

def optionalField {α : Type} (name : String) (f : α → Json) : Option α → Fields
  | none => []
  | some a => [(name, f a)]

end Json

end AnalysisServer
