import AnalysisServer.Json.Basic
import AnalysisServer.Decimal.Shortest

/-!
JSON text. Doubles have the fewest digits that read back; those with a decimal exponent from -5 to 15 are positional
and keep at least one place.
-/

namespace AnalysisServer.Json

def positional (e : Int) : Bool :=
  -5 ≤ e && e ≤ 15

def floatText (bits : UInt64) : List Char :=
  let sign := if Decimal.isNegative bits then ['-'] else []
  let b := Decimal.Binary.ofBits bits
  if b.mantissa = 0 then sign ++ ['0', '.', '0']
  else
    let (c, k) := Decimal.shortest b
    let ds := Nat.toDigits 10 c
    let e := k + ds.length - 1
    if positional e then
      if k ≥ 0 then sign ++ ds ++ List.replicate k.toNat '0' ++ ['.', '0']
      else if e ≥ 0 then
        sign ++ ds.take (e.toNat + 1) ++ ['.'] ++ ds.drop (e.toNat + 1)
      else sign ++ ['0', '.'] ++ List.replicate (-e - 1).toNat '0' ++ ds
    else
      let tail := if ds.length = 1 then [] else '.' :: ds.drop 1
      let mark := if e ≥ 0 then ['e', '+'] else ['e', '-']
      sign ++ ds.take 1 ++ tail ++ mark ++ Nat.toDigits 10 e.natAbs

def numberText : Number → List Char
  | .int (.ofNat n) => Nat.toDigits 10 n
  | .int (.negSucc n) => '-' :: Nat.toDigits 10 (n + 1)
  | .float bits => floatText bits

def escapedChar : Char → List Char
  | '"' => ['\\', '"']
  | '\\' => ['\\', '\\']
  | '\n' => ['\\', 'n']
  | '\r' => ['\\', 'r']
  | '\t' => ['\\', 't']
  | '\x08' => ['\\', 'b']
  | '\x0c' => ['\\', 'f']
  | c =>
    if c.toNat < 32 then
      ['\\', 'u', '0', '0', Nat.digitChar (c.toNat / 16), Nat.digitChar (c.toNat % 16)]
    else [c]

def stringText (s : String) : List Char :=
  '"' :: s.toList.flatMap escapedChar ++ ['"']

mutual

def compactText : Json → List Char
  | null => ['n', 'u', 'l', 'l']
  | bool true => ['t', 'r', 'u', 'e']
  | bool false => ['f', 'a', 'l', 's', 'e']
  | num n => numberText n
  | str s => stringText s
  | arr items => '[' :: compactItems items ++ [']']
  | obj fields => '{' :: compactFields fields ++ ['}']

def compactItems : List Json → List Char
  | [] => []
  | [v] => compactText v
  | v :: vs => compactText v ++ ',' :: compactItems vs

def compactFields : List (String × Json) → List Char
  | [] => []
  | [(n, v)] => stringText n ++ ':' :: compactText v
  | (n, v) :: fs => stringText n ++ ':' :: compactText v ++ ',' :: compactFields fs

end

def indent (depth : Nat) : List Char :=
  '\n' :: List.replicate (2 * depth) ' '

mutual

def prettyText (depth : Nat) : Json → List Char
  | null => ['n', 'u', 'l', 'l']
  | bool true => ['t', 'r', 'u', 'e']
  | bool false => ['f', 'a', 'l', 's', 'e']
  | num n => numberText n
  | str s => stringText s
  | arr [] => ['[', ']']
  | arr (v :: vs) => '[' :: prettyItems (depth + 1) (v :: vs) ++ indent depth ++ [']']
  | obj [] => ['{', '}']
  | obj (f :: fs) => '{' :: prettyFields (depth + 1) (f :: fs) ++ indent depth ++ ['}']

def prettyItems (depth : Nat) : List Json → List Char
  | [] => []
  | [v] => indent depth ++ prettyText depth v
  | v :: vs => indent depth ++ prettyText depth v ++ ',' :: prettyItems depth vs

def prettyFields (depth : Nat) : List (String × Json) → List Char
  | [] => []
  | [(n, v)] => indent depth ++ stringText n ++ ':' :: ' ' :: prettyText depth v
  | (n, v) :: fs =>
    indent depth ++ stringText n ++ ':' :: ' ' :: prettyText depth v ++ ',' :: prettyFields depth fs

end

def compact (v : Json) : String :=
  String.ofList (compactText v)

def pretty (v : Json) : String :=
  String.ofList (prettyText 0 v)

end AnalysisServer.Json
