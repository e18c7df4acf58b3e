import AnalysisServer.Json.Reader
import AnalysisServer.Json.Printer
import AnalysisServer.Text.Quoted

/-!
A place in a JSON text, and what can be found wrong there. Lines count from one, columns count the
bytes of the line before the place.
-/

namespace AnalysisServer.Json

structure Place where
  line : Nat := 1
  column : Nat := 0
deriving DecidableEq

namespace Place

def afterByte (p : Place) (b : UInt8) : Place :=
  if b = 10 then ⟨p.line + 1, 0⟩ else ⟨p.line, p.column + 1⟩

def after (p : Place) (c : Char) : Place :=
  if c = '\n' then ⟨p.line + 1, 0⟩ else ⟨p.line, p.column + c.utf8Size⟩

end Place

inductive Cause where
  | endInList
  | endInObject
  | endInString
  | endInValue
  | colonMissing
  | listComma
  | objectComma
  | notKeyword
  | notValue
  | badEscape
  | badNumber
  | outOfRange
  | controlCharacter
  | nameNotString
  | loneSurrogate
  | halfPair
  | trailingComma
  | trailingText
  | tooDeep
  | wrongType (found expected : String)
  | repeatedField (name : String)
  | wrongLength (length : Nat) (expected : String)
deriving DecidableEq

def Cause.message : Cause → String
  | endInList => "EOF while parsing a list"
  | endInObject => "EOF while parsing an object"
  | endInString => "EOF while parsing a string"
  | endInValue => "EOF while parsing a value"
  | colonMissing => "expected `:`"
  | listComma => "expected `,` or `]`"
  | objectComma => "expected `,` or `\x7d`"
  | notKeyword => "expected ident"
  | notValue => "expected value"
  | badEscape => "invalid escape"
  | badNumber => "invalid number"
  | outOfRange => "number out of range"
  | controlCharacter => "control character (\\u0000-\\u001F) found while parsing a string"
  | nameNotString => "key must be a string"
  | loneSurrogate => "lone leading surrogate in hex escape"
  | halfPair => "unexpected end of hex escape"
  | trailingComma => "trailing comma"
  | trailingText => "trailing characters"
  | tooDeep => "recursion limit exceeded"
  | wrongType found expected => "invalid type: " ++ found ++ ", expected " ++ expected
  | repeatedField name => "duplicate field `" ++ name ++ "`"
  | wrongLength length expected => "invalid length " ++ toString length ++ ", expected " ++ expected

structure Fault where
  cause : Cause
  place : Place
deriving DecidableEq

def Fault.message (f : Fault) : String :=
  f.cause.message ++ " at line " ++ toString f.place.line ++ " column " ++ toString f.place.column

structure Cursor where
  rest : List Char
  place : Place := {}

namespace Cursor

def next (c : Cursor) : Cursor :=
  match c.rest with
  | [] => c
  | x :: xs => ⟨xs, c.place.after x⟩

def ahead (c : Cursor) : Place :=
  match c.rest with
  | [] => c.place
  | '\n' :: _ => ⟨c.place.line + 1, 0⟩
  | _ => ⟨c.place.line, c.place.column + 1⟩

def bytes (n : Nat) (c : Cursor) : List UInt8 :=
  ((c.rest.take n).flatMap String.utf8EncodeChar).take n

def skipBlanks (place : Place) : List Char → Cursor
  | [] => ⟨[], place⟩
  | c :: cs => if Document.isSpace c then skipBlanks (place.after c) cs else ⟨c :: cs, place⟩

end Cursor

abbrev Scan := StateT Cursor (Except Fault)

def called : Json → String
  | .null => "null"
  | .bool b => "boolean `" ++ toString b ++ "`"
  | .num (.int i) => "integer `" ++ toString i ++ "`"
  | .num (.float bits) => "floating point `" ++ String.ofList (floatText bits) ++ "`"
  | .str s => "string " ++ Text.quoted s
  | .arr _ => "sequence"
  | .obj _ => "map"

end AnalysisServer.Json
