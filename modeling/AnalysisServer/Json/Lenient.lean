import AnalysisServer.Json.Reader
import AnalysisServer.Text.Basic
import AnalysisServer.Text.Word

namespace AnalysisServer.Json.Lenient

/-- A number is kept as it was written. -/
inductive Token where
  | openBrace
  | closeBrace
  | openBracket
  | closeBracket
  | comma
  | colon
  | null
  | bool (b : Bool)
  | str (s : String)
  | num (text : List Char)
  | word (s : String)
deriving DecidableEq

def skipLine : List Char → List Char
  | [] => []
  | '\n' :: cs => '\n' :: cs
  | _ :: cs => skipLine cs

def skipBlock : List Char → Option (List Char)
  | [] => none
  | '*' :: '/' :: cs => some cs
  | _ :: cs => skipBlock cs

def escaped? (quote : Char) : Char → Option Char
  | '"' => if quote = '"' then some '"' else none
  | '\'' => if quote = '\'' then some '\'' else none
  | '\\' => some '\\'
  | '/' => some '/'
  | 'b' => some '\x08'
  | 'f' => some '\x0c'
  | 'n' => some '\n'
  | 'r' => some '\r'
  | 't' => some '\t'
  | _ => none

def hex? (cs : List Char) : Option Nat :=
  if cs.all fun c ↦ (Document.hexDigit? c).isSome then some (Document.hexValue cs) else none

/-- The inside of a string up to its closing quote; `acc` holds what was read, latest first. -/
def readString (quote : Char) : Nat → List Char → List Char → Option (List Char × List Char)
  | 0, _, _ => none
  | _ + 1, _, [] => none
  | fuel + 1, acc, c :: cs =>
    if c = quote then some (acc.reverse, cs)
    else if c = '\\' then
      match cs with
      | 'u' :: a :: b :: c :: d :: cs =>
        match hex? [a, b, c, d] with
        | none => none
        | some n =>
          if Document.isTrailSurrogate n then none
          else if Document.isLeadSurrogate n then
            match cs with
            | '\\' :: 'u' :: e :: f :: g :: h :: cs =>
              match hex? [e, f, g, h] with
              | some m =>
                if Document.isTrailSurrogate m then
                  readString quote fuel (Document.joinSurrogates n m :: acc) cs
                else none
              | none => none
            | _ => none
          else readString quote fuel (Char.ofNat n :: acc) cs
      | e :: cs =>
        match escaped? quote e with
        | some x => readString quote fuel (x :: acc) cs
        | none => none
      | [] => none
    else readString quote fuel (c :: acc) cs

def isDigit (c : Char) : Bool :=
  Text.isDigit c

def isHexDigit (c : Char) : Bool :=
  (Document.hexDigit? c).isSome

def someDigits? (cs : List Char) : Option (List Char × List Char) :=
  match cs.takeWhile isDigit with
  | [] => none
  | ds => some (ds, cs.dropWhile isDigit)

def fraction? : List Char → Option (List Char × List Char)
  | '.' :: cs => (someDigits? cs).map fun r ↦ ('.' :: r.1, r.2)
  | cs => some ([], cs)

def signed? (mark : Char) : List Char → Option (List Char × List Char)
  | '-' :: cs => (someDigits? cs).map fun r ↦ (mark :: '-' :: r.1, r.2)
  | '+' :: cs => (someDigits? cs).map fun r ↦ (mark :: '+' :: r.1, r.2)
  | cs => (someDigits? cs).map fun r ↦ (mark :: r.1, r.2)

def exponent? : List Char → Option (List Char × List Char)
  | 'e' :: cs => signed? 'e' cs
  | 'E' :: cs => signed? 'E' cs
  | cs => some ([], cs)

def decimal? (whole cs : List Char) : Option (List Char × List Char) := do
  let (fraction, cs) ← fraction? cs
  let (exponent, cs) ← exponent? cs
  some (whole ++ fraction ++ exponent, cs)

def hexNumber? (mark : Char) (cs : List Char) : Option (List Char × List Char) :=
  match cs.takeWhile isHexDigit with
  | [] => none
  | ds => some ('0' :: mark :: ds, cs.dropWhile isHexDigit)

def unsigned? : List Char → Option (List Char × List Char)
  | '0' :: 'x' :: cs => hexNumber? 'x' cs
  | '0' :: 'X' :: cs => hexNumber? 'X' cs
  | '0' :: cs => decimal? ['0'] cs
  | cs => (someDigits? cs).bind fun r ↦ decimal? r.1 r.2

def number? : List Char → Option (List Char × List Char)
  | '-' :: cs => (unsigned? cs).map fun r ↦ ('-' :: r.1, r.2)
  | '+' :: cs => (unsigned? cs).map fun r ↦ ('+' :: r.1, r.2)
  | cs => unsigned? cs

def isWordChar (c : Char) : Bool :=
  Text.isAlphanumeric c || c == '-' || c == '_'

def word? (cs : List Char) : Option (String × List Char) :=
  let ends (c : Char) : Bool := Text.isBlank c || c == ':'
  let w := cs.takeWhile fun c ↦ !ends c
  if !w.isEmpty && w.all isWordChar then
    some (String.ofList w, cs.dropWhile fun c ↦ !ends c)
  else none

def literal? (cs : List Char) : Option (Token × List Char) :=
  let keyword? (text : String) (t : Token) : Option (Token × List Char) :=
    match Text.dropFront? text.toList cs with
    | some rest => if rest.head?.any Text.isAlphanumeric then none else some (t, rest)
    | none => none
  match keyword? "true" (.bool true) with
  | some r => some r
  | none =>
    match keyword? "false" (.bool false) with
    | some r => some r
    | none => keyword? "null" .null

/-- The tokens of a text; the fuel is one more than its length. -/
def lex : Nat → List Char → Option (List Token)
  | 0, _ => none
  | _ + 1, [] => some []
  | fuel + 1, c :: cs =>
    if Text.isBlank c then lex fuel cs
    else
      match c with
      | '{' => (lex fuel cs).map (.openBrace :: ·)
      | '}' => (lex fuel cs).map (.closeBrace :: ·)
      | '[' => (lex fuel cs).map (.openBracket :: ·)
      | ']' => (lex fuel cs).map (.closeBracket :: ·)
      | ',' => (lex fuel cs).map (.comma :: ·)
      | ':' => (lex fuel cs).map (.colon :: ·)
      | '/' =>
        match cs with
        | '/' :: cs => lex fuel (skipLine cs)
        | '*' :: cs => (skipBlock cs).bind (lex fuel)
        | _ => none
      | c =>
        if c = '"' || c = '\'' then
          match readString c (cs.length + 1) [] cs with
          | some (s, cs) => (lex fuel cs).map (.str (String.ofList s) :: ·)
          | none => none
        else if isDigit c || c = '-' || c = '+' then
          match number? (c :: cs) with
          | some (text, cs) => (lex fuel cs).map (.num text :: ·)
          | none => none
        else
          match literal? (c :: cs) with
          | some (t, cs) => (lex fuel cs).map (t :: ·)
          | none =>
            match word? (c :: cs) with
            | some (w, cs) => (lex fuel cs).map (.word w :: ·)
            | none => none

def tokens? (cs : List Char) : Option (List Token) :=
  lex (cs.length + 1) cs

def maxInt : Nat :=
  1 <<< 63 - 1

/-- A hexadecimal number too great for 64 bits stays text. -/
def hexJson (text : List Char) (negative : Bool) (digits : List Char) : Json :=
  let n := Document.hexValue digits
  if n ≤ maxInt then .num (.int (if negative then -(n : Int) else n)) else .str (String.ofList text)

def decimalJson (text digits : List Char) : Json :=
  match (Document.numeral digits).bind fun r ↦ if r.2.isEmpty then Document.number? r.1 else none with
  | some n => .num n
  | none => .str (String.ofList text)

def numberJson (text : List Char) : Json :=
  match text with
  | '-' :: '0' :: 'x' :: ds => hexJson text true ds
  | '-' :: '0' :: 'X' :: ds => hexJson text true ds
  | '+' :: '0' :: 'x' :: ds => hexJson text false ds
  | '+' :: '0' :: 'X' :: ds => hexJson text false ds
  | '0' :: 'x' :: ds => hexJson text false ds
  | '0' :: 'X' :: ds => hexJson text false ds
  | '+' :: ds => decimalJson text ds
  | ds => decimalJson text ds

def key? : Token → Option String
  | .str s => some s
  | .word w => some w
  | .num text => some (String.ofList text)
  | _ => none

def dropComma : List Token → List Token
  | .comma :: ts => ts
  | ts => ts

mutual

def value : Nat → List Token → Option (Json × List Token)
  | 0, _ => none
  | fuel + 1, ts =>
    match ts with
    | .null :: ts => some (.null, ts)
    | .bool b :: ts => some (.bool b, ts)
    | .str s :: ts => some (.str s, ts)
    | .num text :: ts => some (numberJson text, ts)
    | .openBracket :: ts => (items fuel ts).map fun r ↦ (.arr r.1, r.2)
    | .openBrace :: ts => (fields fuel ts).map fun r ↦ (Json.ofFields r.1, r.2)
    | _ => none

def items : Nat → List Token → Option (List Json × List Token)
  | 0, _ => none
  | fuel + 1, ts =>
    match ts with
    | .closeBracket :: ts => some ([], ts)
    | ts =>
      match value fuel ts with
      | some (v, ts) => (items fuel (dropComma ts)).map fun r ↦ (v :: r.1, r.2)
      | none => none

def fields : Nat → List Token → Option (Json.Fields × List Token)
  | 0, _ => none
  | fuel + 1, ts =>
    match ts with
    | .closeBrace :: ts => some ([], ts)
    | t :: .colon :: ts =>
      match key? t with
      | none => none
      | some name =>
        match value fuel ts with
        | some (v, ts) => (fields fuel (dropComma ts)).map fun r ↦ ((name, v) :: r.1, r.2)
        | none => none
    | _ => none

end

/-- The value of a text; a text without any token is the empty object. -/
def ofText? (text : String) : Option Json :=
  match tokens? text.toList with
  | none => none
  | some [] => some (.obj [])
  | some ts =>
    match value (ts.length + 1) ts with
    | some (v, []) => some v
    | _ => none

end AnalysisServer.Json.Lenient
