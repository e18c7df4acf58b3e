import AnalysisServer.Json.Printer
import AnalysisServer.Text.Quoted

namespace AnalysisServer.Json

mutual

def debugText : Json → String
  | null => "Null"
  | bool true => "Bool(true)"
  | bool false => "Bool(false)"
  | num n => "Number(" ++ String.ofList (numberText n) ++ ")"
  | str s => "String(" ++ Text.quoted s ++ ")"
  | arr items => "Array [" ++ debugItems items ++ "]"
  | obj fields => "Object \x7b" ++ debugFields fields ++ "\x7d"

def debugItems : List Json → String
  | [] => ""
  | [v] => debugText v
  | v :: vs => debugText v ++ ", " ++ debugItems vs

def debugFields : List (String × Json) → String
  | [] => ""
  | [(n, v)] => Text.quoted n ++ ": " ++ debugText v
  | (n, v) :: fs => Text.quoted n ++ ": " ++ debugText v ++ ", " ++ debugFields fs

end

end AnalysisServer.Json
