import AnalysisServer.Json.Cursor

namespace AnalysisServer.Json.Scan

variable {α : Type}

def fail (cause : Cause) : Scan α := do
  throw ⟨cause, (← get).place⟩

def failAhead (cause : Cause) : Scan α := do
  throw ⟨cause, (← get).ahead⟩

def peek : Scan (Option Char) := do
  return (← get).rest.head?

def advance : Scan Unit :=
  modify Cursor.next

def blanks : Scan Unit :=
  modify fun c ↦ Cursor.skipBlanks c.place c.rest

def ahead : Scan (Option Char) := do
  blanks
  peek

def keyword : List Char → Scan Unit
  | [] => pure ()
  | c :: cs => do
    match ← peek with
    | none => fail .endInValue
    | some d =>
      if d = c then
        advance
        keyword cs
      else failAhead .notKeyword

def digits : Scan (List Nat) := do
  let c ← get
  let (ds, rest) := Document.digits c.rest
  set (⟨rest, c.place.line, c.place.column + ds.length⟩ : Cursor)
  return ds

/-- Digits of which there must be one; `ended` is the cause if the text is over. -/
def someDigits (ended : Cause) : Scan (List Nat) := do
  match ← peek, ← digits with
  | none, _ => failAhead ended
  | some _, [] => failAhead .badNumber
  | some _, ds => return ds

def wholePart (ended : Cause) : Scan (List Nat) := do
  match ← peek with
  | some '0' =>
    advance
    if (← peek).any fun c ↦ (Document.digit? c).isSome then failAhead .badNumber else return [0]
  | _ => someDigits ended

def fractionPart (ended : Cause) : Scan (Option (List Nat)) := do
  match ← peek with
  | some '.' =>
    advance
    return some (← someDigits ended)
  | _ => return none

def exponentPart (ended : Cause) : Scan (Option (Bool × List Nat)) := do
  match ← peek with
  | some 'e' | some 'E' =>
    advance
    match ← peek with
    | some '-' =>
      advance
      return some (true, ← someDigits ended)
    | some '+' =>
      advance
      return some (false, ← someDigits ended)
    | _ => return some (false, ← someDigits ended)
  | _ => return none

/-- How many digits follow the one with which an exponent leaves its range. -/
def beyondRange (e : Nat) : List Nat → Nat
  | [] => 0
  | d :: ds =>
    if e * 10 + d ≥ Decimal.exponentLimit then ds.length else beyondRange (e * 10 + d) ds

def numeral (ended : Cause) (negative : Bool) : Scan Decimal.Numeral := do
  let whole ← wholePart ended
  let fraction ← fractionPart ended
  let exponent ← exponentPart ended
  return ⟨negative, whole, fraction, exponent⟩

def number (negative : Bool) : Scan Json := do
  let n ← numeral .endInValue negative
  match Document.number? n, n.exponent with
  | some v, _ => return .num v
  | none, some (false, ds) =>
    let p := (← get).place
    throw ⟨.outOfRange, p.line, p.column - beyondRange 0 ds⟩
  | none, _ => fail .outOfRange

/-- Four hexadecimal digits. They are taken as four bytes, whatever these are. -/
def hexEscape : Scan Nat := do
  let c ← get
  let bytes := c.bytes 4
  let behind := bytes.foldl Place.afterByte c.place
  if bytes.length < 4 then throw ⟨.endInString, behind⟩
  else if (c.rest.take 4).all fun d ↦ (Document.hexDigit? d).isSome then
    set (⟨c.rest.drop 4, behind⟩ : Cursor)
    return Document.hexValue (c.rest.take 4)
  else throw ⟨.badEscape, behind⟩

def pairChar (c : Char) : Scan Unit := do
  match ← peek with
  | none => fail .endInString
  | some d => if d = c then advance else failAhead .halfPair

def escapedChar (n : Nat) : Scan Char := do
  if Document.isTrailSurrogate n then fail .loneSurrogate
  else if Document.isLeadSurrogate n then
    pairChar '\\'
    pairChar 'u'
    let m ← hexEscape
    if Document.isTrailSurrogate m then return Document.joinSurrogates n m else fail .loneSurrogate
  else return Char.ofNat n

/-- What stands after a backslash. An escape in skipped text may be any number. -/
def escape (full : Bool) : Scan Char := do
  match ← peek with
  | none => fail .endInString
  | some 'u' =>
    advance
    let n ← hexEscape
    if full then escapedChar n else return Char.ofNat n
  | some c =>
    if Document.isEscape c then
      advance
      return Document.escapeValue c
    else failAhead .badEscape

/-- The inside of a string and its closing quote; the fuel is the length of the text. -/
def stringFrom (full : Bool) : Nat → List Char → Scan String
  | 0, _ => fail .endInString
  | fuel + 1, acc => do
    match ← peek with
    | none => fail .endInString
    | some '"' =>
      advance
      return String.ofList acc.reverse
    | some '\\' =>
      advance
      let c ← escape full
      stringFrom full fuel (c :: acc)
    | some c =>
      if c.toNat < 32 then
        if full then advance
        fail .controlCharacter
      else
        advance
        stringFrom full fuel (c :: acc)

def string (full : Bool) (fuel : Nat) : Scan String :=
  stringFrom full fuel []

def scalar (fuel : Nat) : Scan Json := do
  match ← peek with
  | some 'n' =>
    advance
    keyword "ull".toList
    return .null
  | some 't' =>
    advance
    keyword "rue".toList
    return .bool true
  | some 'f' =>
    advance
    keyword "alse".toList
    return .bool false
  | some '"' =>
    advance
    return .str (← string true fuel)
  | some '-' =>
    advance
    number true
  | some c => if (Document.digit? c).isSome then number false else failAhead .notValue
  | none => failAhead .endInValue

def skippedScalar (fuel : Nat) : Scan Unit := do
  match ← peek with
  | some '"' =>
    advance
    discard (string false fuel)
  | some '-' =>
    advance
    discard (numeral .badNumber true)
  | some c =>
    if (Document.digit? c).isSome then discard (numeral .badNumber false)
    else discard (scalar fuel)
  | none => failAhead .endInValue

/-- Whether a list goes on. Its end is taken, as is the comma before the next item. -/
def moreItems (full first : Bool) : Scan Bool := do
  match ← ahead with
  | none => failAhead .endInList
  | some ']' =>
    advance
    return false
  | some c =>
    if first then return true
    else if c = ',' then
      advance
      if (← ahead) = some ']' ∧ full then failAhead .trailingComma else return true
    else failAhead .listComma

/-- Whether an object goes on. Its end is taken, as is the quote that opens the next name. -/
def moreFields (full first : Bool) : Scan Bool := do
  match ← ahead with
  | none => failAhead .endInObject
  | some '}' =>
    advance
    return false
  | some c =>
    if first then
      if c = '"' then
        advance
        return true
      else failAhead .nameNotString
    else if c = ',' then
      advance
      match ← ahead with
      | none => failAhead (if full then .endInValue else .endInObject)
      | some '"' =>
        advance
        return true
      | some c => failAhead (if full ∧ c = '}' then .trailingComma else .nameNotString)
    else failAhead .objectComma

def colon : Scan Unit := do
  match ← ahead with
  | none => failAhead .endInObject
  | some ':' => advance
  | some _ => failAhead .colonMissing

def mismatch (fuel : Nat) (expected : String) : Scan α := do
  match ← peek with
  | some '[' => fail (.wrongType (called (.arr [])) expected)
  | some '{' => fail (.wrongType (called (.obj [])) expected)
  | _ =>
    let v ← scalar fuel
    fail (.wrongType (called v) expected)

def onlyString (fuel : Nat) (expected : String) : Scan String := do
  match ← ahead with
  | none => failAhead .endInValue
  | some '"' =>
    advance
    string true fuel
  | some _ => mismatch fuel expected

def objectEnd : Scan Unit := do
  match ← ahead with
  | none => failAhead .endInObject
  | some '}' => advance
  | some ',' => failAhead .trailingComma
  | some _ => failAhead .trailingText

def within (s : String) (read : Scan Unit) : Scan Unit := do
  let here ← get
  set (⟨s.toList, {}⟩ : Cursor)
  read
  if (← ahead).isSome then failAhead .trailingText
  set here

mutual

/-- Passes over a value. One that is read in full has at most `depth` containers inside each
other; the fuel is the length of the text. -/
def value (full : Bool) : Nat → Nat → Scan Unit
  | 0, _ => failAhead .endInValue
  | fuel + 1, depth => do
    match ← ahead with
    | some '[' =>
      if full ∧ depth = 0 then failAhead .tooDeep
      else
        advance
        items full fuel (depth - 1) true
    | some '{' =>
      if full ∧ depth = 0 then failAhead .tooDeep
      else
        advance
        fields full fuel (depth - 1) true
    | _ => if full then discard (scalar fuel) else skippedScalar fuel

def items (full : Bool) : Nat → Nat → Bool → Scan Unit
  | 0, _, _ => failAhead .endInList
  | fuel + 1, depth, first => do
    if ← moreItems full first then
      value full fuel depth
      items full fuel depth false

def fields (full : Bool) : Nat → Nat → Bool → Scan Unit
  | 0, _, _ => failAhead .endInObject
  | fuel + 1, depth, first => do
    if ← moreFields full first then
      let name ← string full fuel
      colon
      if full ∧ first ∧ name = textMark then
        within (← onlyString fuel "raw value") (value true fuel Document.deepest)
        objectEnd
      else
        value full fuel depth
        fields full fuel depth false

end

def nullableString (fuel : Nat) : Scan (Option String) := do
  match ← ahead with
  | some 'n' =>
    advance
    keyword "ull".toList
    return none
  | _ => return some (← onlyString fuel "a string")

def namesFrom : Nat → Nat → Bool → Scan (List String)
  | 0, _, _ => failAhead .endInObject
  | fuel + 1, depth, first => do
    if ← moreFields true first then
      let name ← string true fuel
      colon
      value true fuel depth
      return name :: (← namesFrom fuel depth false)
    else return []

def names (fuel depth : Nat) : Scan (List String) := do
  match ← ahead with
  | none => failAhead .endInValue
  | some '{' =>
    advance
    namesFrom fuel depth true
  | some _ => mismatch fuel "a map"

def closing (mark : Char) : Scan Unit := do
  if (← ahead) = some mark then advance

def listEnd : Scan Unit := do
  match ← ahead with
  | none => failAhead .endInList
  | some ']' => advance
  | some ',' =>
    advance
    failAhead (if (← ahead) = some ']' then .trailingComma else .trailingText)
  | some _ => failAhead .trailingText

/-- Reads a whole text. The reader is given fuel that suffices for it. -/
def text (read : Nat → Scan α) (s : String) : Except Fault α :=
  let cs := s.toList
  let whole : Scan α := do
    let a ← read (2 * cs.length + 2)
    match ← ahead with
    | none => return a
    | some _ => failAhead .trailingText
  (whole.run ⟨cs, {}⟩).map (·.1)

end AnalysisServer.Json.Scan
