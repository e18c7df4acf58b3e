import AnalysisServer.Source.Basic

namespace AnalysisServer.Source

inductive Mode where
  | code
  | lineComment (line : Nat) (text : List Char)
  | blockComment (line : Nat) (text : List Char)
  | string (quote : Char)
  | template (line : Nat)
  | regex (inClass : Bool)
  | flags
deriving DecidableEq

/-- Lists are kept with the latest item in front. -/
structure State where
  mode : Mode := .code
  skip : Nat := 0
  line : Nat := 1
  codeLines : List Nat := []
  comments : List Comment := []
  brackets : List (Char × Nat) := []
  last : Option Char := none

namespace State

def addLine (s : State) : State :=
  if s.codeLines.head? = some s.line then s else { s with codeLines := s.line :: s.codeLines }

def code (s : State) (c : Char) : State :=
  { s.addLine with last := some c }

def addComment (s : State) (line : Nat) (text : List Char) : State :=
  { s with
    mode := .code
    comments := ⟨line, s.line, String.ofList text.reverse⟩ :: s.comments }

def advance (s : State) (c : Char) : State :=
  if c = '\n' then { s with line := s.line + 1 } else s

end State

def closing : Char → Char
  | '(' => ')'
  | '[' => ']'
  | _ => '}'

def isOpening (c : Char) : Bool :=
  c == '(' || c == '[' || c == '{'

def isClosing (c : Char) : Bool :=
  c == ')' || c == ']' || c == '}'

/-- After such a character, or at the start, a slash opens a regular expression. -/
def regexMayFollow : Option Char → Bool
  | none => true
  | some c =>
    ['(', ',', '=', ':', '[', '!', '&', '|', '?', '{', '}', ';', '+', '-', '*', '%', '<', '>', '~',
      '^'].contains c

def closeBracket (s : State) (c : Char) : Except AnalysisError State :=
  match s.brackets with
  | [] => .error (.parsing s!"Unexpected token '{c}'" (some s.line))
  | (b, _) :: rest =>
    if closing b = c then .ok { s with brackets := rest }
    else
      let expected := closing b
      .error (.parsing s!"Unexpected token '{c}', expected '{expected}'" (some s.line))

/-- A character outside comments and literals, where no comment starts. -/
def plainStep (d : Dialect) (s : State) (c : Char) : Except AnalysisError State :=
  if Text.isBlank c then .ok (s.advance c)
  else if d.brackets && (c == '"' || c == '\'') then .ok { s.code c with mode := .string c }
  else if d.templates && c == '\x60' then .ok { s.code c with mode := .template s.line }
  else if d.regexes && c == '/' && regexMayFollow s.last then
    .ok { s.code c with mode := .regex false }
  else if d.brackets && isOpening c then
    .ok { s.code c with brackets := (c, s.line) :: s.brackets }
  else if d.brackets && isClosing c then (closeBracket s c).map (·.code c)
  else .ok (s.code c)

/-- A character outside comments and literals; `rest` is what follows it. -/
def codeStep (d : Dialect) (s : State) (c : Char) (rest : List Char) :
    Except AnalysisError State :=
  match d.lineComment.filter fun mark ↦ Text.startsWith mark (c :: rest) with
  | some mark => .ok { s with mode := .lineComment s.line [], skip := mark.length - 1 }
  | none =>
    match d.blockComment.filter fun marks ↦ Text.startsWith marks.1 (c :: rest) with
    | some marks => .ok { s with mode := .blockComment s.line [], skip := marks.1.length - 1 }
    | none => plainStep d s c

/-- An escape takes the next character with it unless that ends the line. -/
def escapeLength (rest : List Char) : Nat :=
  match rest with
  | [] => 0
  | '\n' :: _ => 0
  | _ :: _ => 1

def step (d : Dialect) (s : State) (c : Char) (rest : List Char) : Except AnalysisError State :=
  if s.skip > 0 then .ok { s.advance c with skip := s.skip - 1 }
  else
    match s.mode with
    | .code => codeStep d s c rest
    | .lineComment line text =>
      if c = '\n' then .ok ((s.addComment line text).advance c)
      else .ok { s with mode := .lineComment line (c :: text) }
    | .blockComment line text =>
      let close := (d.blockComment.map (·.2)).getD []
      if Text.startsWith close (c :: rest) then
        .ok { s.addComment line text with skip := close.length - 1 }
      else .ok { s.advance c with mode := .blockComment line (c :: text) }
    | .string quote =>
      if c = '\n' then .ok { s.advance c with mode := .code }
      else if c = '\\' then .ok { s with skip := escapeLength rest }
      else if c = quote then .ok { s with mode := .code }
      else .ok s
    | .template _ =>
      if c = '\\' then .ok { s with skip := 1 }
      else if c = '\x60' then .ok { s with mode := .code, last := some '\x60' }
      else if c = '\n' then .ok (s.advance c)
      else .ok s.addLine
    | .regex inClass =>
      if c = '\n' then .ok { s.advance c with mode := .code }
      else if c = '\\' then .ok { s with skip := escapeLength rest }
      else if c = '[' then .ok { s with mode := .regex true }
      else if c = ']' then .ok { s with mode := .regex false }
      else if c = '/' && !inClass then .ok { s with mode := .flags, last := some 'r' }
      else .ok s
    | .flags =>
      if Text.isAsciiLetter c then .ok s else codeStep d { s with mode := .code } c rest

def run (d : Dialect) : State → List Char → Except AnalysisError State
  | s, [] => .ok s
  | s, c :: rest =>
    match step d s c rest with
    | .ok s => run d s rest
    | .error e => .error e

def finish (s : State) : Except AnalysisError State :=
  match s.mode with
  | .blockComment line _ => .error (.parsing "Unterminated comment" (some line))
  | .template line => .error (.parsing "Unterminated template literal" (some line))
  | mode =>
    match s.brackets with
    | (b, line) :: _ =>
      let expected := closing b
      .error (.parsing s!"'{expected}' expected" (some line))
    | [] =>
      match mode with
      | .lineComment line text => .ok (s.addComment line text)
      | _ => .ok s

def State.parsed (s : State) (cs : List Char) : ParsedSource :=
  { lineCount := lineCount cs
    codeLines := s.codeLines.reverse
    comments := s.comments.reverse }

def parse (language : Language) (source : String) : Except AnalysisError ParsedSource := do
  let cs := source.toList
  let s ← run (Dialect.ofLanguage language) {} cs
  let s ← finish s
  return s.parsed cs

end AnalysisServer.Source
