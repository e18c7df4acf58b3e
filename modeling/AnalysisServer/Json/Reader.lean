import AnalysisServer.Json.Basic
import AnalysisServer.Decimal.Reading

namespace AnalysisServer

def Json.textMark : String :=
  "$serde_json::private::RawValue"

inductive Document where
  | null
  | bool (b : Bool)
  | num (n : Decimal.Numeral)
  | str (raw : List Char)
  | arr (items : List Document)
  | obj (fields : List (List Char × Document))
deriving Inhabited

namespace Document

def isSpace (c : Char) : Bool :=
  c == ' ' || c == '\n' || c == '\t' || c == '\r'

def skip (cs : List Char) : List Char :=
  cs.dropWhile isSpace

def digit? (c : Char) : Option Nat :=
  if '0' ≤ c ∧ c ≤ '9' then some (c.toNat - '0'.toNat) else none

def hexDigit? (c : Char) : Option Nat :=
  if '0' ≤ c ∧ c ≤ '9' then some (c.toNat - '0'.toNat)
  else if 'a' ≤ c ∧ c ≤ 'f' then some (c.toNat - 'a'.toNat + 10)
  else if 'A' ≤ c ∧ c ≤ 'F' then some (c.toNat - 'A'.toNat + 10)
  else none

def digits : List Char → List Nat × List Char
  | [] => ([], [])
  | c :: cs =>
    match digit? c with
    | some d => let (ds, rest) := digits cs; (d :: ds, rest)
    | none => ([], c :: cs)

def someDigits (cs : List Char) : Option (List Nat × List Char) :=
  match digits cs with
  | ([], _) => none
  | found => some found

def wholePart (cs : List Char) : Option (List Nat × List Char) :=
  match digits cs with
  | ([], _) => none
  | (0 :: _ :: _, _) => none
  | found => some found

def fractionPart : List Char → Option (Option (List Nat) × List Char)
  | '.' :: cs => (someDigits cs).map fun (ds, rest) ↦ (some ds, rest)
  | cs => some (none, cs)

def exponentDigits : List Char → Option ((Bool × List Nat) × List Char)
  | '-' :: cs => (someDigits cs).map fun (ds, rest) ↦ ((true, ds), rest)
  | '+' :: cs => (someDigits cs).map fun (ds, rest) ↦ ((false, ds), rest)
  | cs => (someDigits cs).map fun (ds, rest) ↦ ((false, ds), rest)

def exponentPart : List Char → Option (Option (Bool × List Nat) × List Char)
  | 'e' :: cs => (exponentDigits cs).map fun (e, rest) ↦ (some e, rest)
  | 'E' :: cs => (exponentDigits cs).map fun (e, rest) ↦ (some e, rest)
  | cs => some (none, cs)

def numeral (cs : List Char) : Option (Decimal.Numeral × List Char) := do
  let (negative, cs) :=
    match cs with
    | '-' :: rest => (true, rest)
    | _ => (false, cs)
  let (whole, cs) ← wholePart cs
  let (fraction, cs) ← fractionPart cs
  let (exponent, cs) ← exponentPart cs
  some (⟨negative, whole, fraction, exponent⟩, cs)

def isEscape (c : Char) : Bool :=
  c == '"' || c == '\\' || c == '/' || c == 'b' || c == 'f' || c == 'n' || c == 'r' || c == 't'

def rawString (acc : List Char) : List Char → Option (List Char × List Char)
  | '"' :: cs => some (acc.reverse, cs)
  | '\\' :: 'u' :: a :: b :: c :: d :: cs =>
    if [a, b, c, d].all fun x ↦ (hexDigit? x).isSome then
      rawString (d :: c :: b :: a :: 'u' :: '\\' :: acc) cs
    else none
  | '\\' :: c :: cs => if isEscape c then rawString (c :: '\\' :: acc) cs else none
  | c :: cs => if c.toNat < 32 ∨ c = '\\' then none else rawString (c :: acc) cs
  | [] => none

mutual

/-- Reads one value; the fuel bounds the number of nested and neighbouring values. -/
def value : Nat → List Char → Option (Document × List Char)
  | 0, _ => none
  | fuel + 1, cs =>
    match skip cs with
    | 'n' :: 'u' :: 'l' :: 'l' :: rest => some (null, rest)
    | 't' :: 'r' :: 'u' :: 'e' :: rest => some (bool true, rest)
    | 'f' :: 'a' :: 'l' :: 's' :: 'e' :: rest => some (bool false, rest)
    | '"' :: rest => (rawString [] rest).map fun (raw, rest) ↦ (str raw, rest)
    | '[' :: rest =>
      match skip rest with
      | ']' :: rest => some (arr [], rest)
      | rest => (items fuel rest).map fun (vs, rest) ↦ (arr vs, rest)
    | '{' :: rest =>
      match skip rest with
      | '}' :: rest => some (obj [], rest)
      | rest => (fields fuel rest).map fun (fs, rest) ↦ (obj fs, rest)
    | rest => (numeral rest).map fun (n, rest) ↦ (num n, rest)

def items : Nat → List Char → Option (List Document × List Char)
  | 0, _ => none
  | fuel + 1, cs => do
    let (v, rest) ← value fuel cs
    match skip rest with
    | ',' :: rest =>
      let (vs, rest) ← items fuel rest
      some (v :: vs, rest)
    | ']' :: rest => some ([v], rest)
    | _ => none

def fields : Nat → List Char → Option (List (List Char × Document) × List Char)
  | 0, _ => none
  | fuel + 1, cs =>
    match skip cs with
    | '"' :: rest => do
      let (name, rest) ← rawString [] rest
      match skip rest with
      | ':' :: rest =>
        let (v, rest) ← value fuel rest
        match skip rest with
        | ',' :: rest =>
          let (fs, rest) ← fields fuel rest
          some ((name, v) :: fs, rest)
        | '}' :: rest => some ([(name, v)], rest)
        | _ => none
      | _ => none
    | _ => none

end

def ofText? (text : String) : Option Document :=
  let cs := text.toList
  match value (2 * cs.length + 2) cs with
  | some (v, rest) => if (skip rest).isEmpty then some v else none
  | none => none

def hexValue (cs : List Char) : Nat :=
  cs.foldl (fun n c ↦ n * 16 + (hexDigit? c).getD 0) 0

def isLeadSurrogate (n : Nat) : Bool :=
  0xD800 ≤ n && n < 0xDC00

def isTrailSurrogate (n : Nat) : Bool :=
  0xDC00 ≤ n && n < 0xE000

def joinSurrogates (lead trail : Nat) : Char :=
  Char.ofNat (0x10000 + (lead - 0xD800) * 0x400 + (trail - 0xDC00))

def escapeValue : Char → Char
  | 'b' => '\x08'
  | 'f' => '\x0c'
  | 'n' => '\n'
  | 'r' => '\r'
  | 't' => '\t'
  | c => c

def unescape (acc : List Char) : List Char → Option (List Char)
  | [] => some acc.reverse
  | '\\' :: 'u' :: a :: b :: c :: d :: '\\' :: 'u' :: e :: f :: g :: h :: cs =>
    let n := hexValue [a, b, c, d]
    let m := hexValue [e, f, g, h]
    if isLeadSurrogate n then
      if isTrailSurrogate m then unescape (joinSurrogates n m :: acc) cs else none
    else if isTrailSurrogate n then none
    else unescape (Char.ofNat n :: acc) ('\\' :: 'u' :: e :: f :: g :: h :: cs)
  | '\\' :: 'u' :: a :: b :: c :: d :: cs =>
    let n := hexValue [a, b, c, d]
    if isLeadSurrogate n || isTrailSurrogate n then none
    else unescape (Char.ofNat n :: acc) cs
  | '\\' :: c :: cs => unescape (escapeValue c :: acc) cs
  | c :: cs => unescape (c :: acc) cs
termination_by cs => cs.length

def string? (raw : List Char) : Option String :=
  (unescape [] raw).map String.ofList

def deepest : Nat :=
  127

def number? (n : Decimal.Numeral) : Option Number :=
  n.value?.map fun
    | .int i => .int i
    | .float bits => .float bits

def isMarked : List (List Char × Document) → Bool
  | (n, _) :: _ => string? n == some Json.textMark
  | [] => false

def soleText? : List (List Char × Document) → Option String
  | [(_, str raw)] => string? raw
  | _ => none

mutual

/-- The value of a document, if it is not nested deeper than allowed. The text of a marked object is
read by `inner`; without it the mark is a name like others. -/
def value? (inner : Option (String → Option Json)) : Nat → Document → Option Json
  | _, null => some .null
  | _, bool b => some (.bool b)
  | _, num n => (number? n).map .num
  | _, str raw => (string? raw).map .str
  | 0, arr _ => none
  | 0, obj _ => none
  | depth + 1, arr vs => (items? inner depth vs).map .arr
  | depth + 1, obj fs =>
    match inner, isMarked fs with
    | some read, true => (soleText? fs).bind read
    | _, _ => (fields? inner depth fs).map Json.ofFields

def items? (inner : Option (String → Option Json)) (depth : Nat) : List Document → Option (List Json)
  | [] => some []
  | v :: vs => do
    let v ← value? inner depth v
    let vs ← items? inner depth vs
    some (v :: vs)

def fields? (inner : Option (String → Option Json)) (depth : Nat) :
    List (List Char × Document) → Option Json.Fields
  | [] => some []
  | (n, v) :: fs => do
    let n ← string? n
    let v ← value? inner depth v
    let fs ← fields? inner depth fs
    some ((n, v) :: fs)

end

mutual

def isPlain : Document → Bool
  | arr vs => plainItems vs
  | obj fs =>
    let names := fs.map fun f ↦ string? f.1
    names.eraseDups.length == names.length && plainFields fs
  | _ => true

def plainItems : List Document → Bool
  | [] => true
  | v :: vs => isPlain v && plainItems vs

def plainFields : List (List Char × Document) → Bool
  | [] => true
  | (_, v) :: fs => isPlain v && plainFields fs

end

def plainValue? (depth : Nat) (d : Document) : Option Json :=
  if d.isPlain then value? none depth d else none

/-- The value of a record with the given field names. Other fields are skipped whatever they
hold; a known field must not come twice, nor may any name inside it. -/
def record? (names : List String) : Document → Option Json
  | obj fs => do
    let named ← fs.mapM fun (n, v) ↦ (string? n).map fun n ↦ (n, v)
    let known := named.filter fun f ↦ names.contains f.1
    if (known.map (·.1)).eraseDups.length ≠ known.length then none
    else
      let known ← known.mapM fun (n, v) ↦ (plainValue? (deepest - 1) v).map fun v ↦ (n, v)
      some (Json.ofFields known)
  | d => plainValue? deepest d

end Document

namespace Json

/-- The value that a text denotes, with fewer than `levels` texts inside each other. -/
def ofTextWithin : Nat → String → Option Json
  | 0, _ => none
  | levels + 1, text =>
    (Document.ofText? text).bind (Document.value? (some (ofTextWithin levels)) Document.deepest)

/-- The value that a text denotes. A text inside it is shorter, so its length bounds their levels. -/
def ofText? (text : String) : Option Json :=
  ofTextWithin (text.length + 1) text

def isMarked : Fields → Bool
  | (n, _) :: _ => n == textMark
  | [] => false

def soleText? : Fields → Option String
  | [(_, str text)] => some text
  | _ => none

mutual

/-- Reads a value of any kind. It is taken as it is, but for marked objects in it. -/
def any? : Json → Option Json
  | arr items => (anyItems? items).map arr
  | obj fields =>
    if isMarked fields then (soleText? fields).bind ofText?
    else (anyFields? fields).map obj
  | j => some j

def anyItems? : List Json → Option (List Json)
  | [] => some []
  | j :: js => do
    let j ← any? j
    let js ← anyItems? js
    some (j :: js)

def anyFields? : Fields → Option Fields
  | [] => some []
  | (n, j) :: fs => do
    let j ← any? j
    let fs ← anyFields? fs
    some ((n, j) :: fs)

end

end Json

end AnalysisServer
