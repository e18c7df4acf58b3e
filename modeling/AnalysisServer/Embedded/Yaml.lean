import AnalysisServer.Embedded.Basic

/-!
Function code inside deployment templates. In a template with a Node.js runtime every block scalar
under one of the inline code keys is a script.
-/

namespace AnalysisServer.Yaml

abbrev Line := List Char

def indent (line : Line) : Nat :=
  Text.byteLength (line.takeWhile Text.isBlank)

def isBlankLine (line : Line) : Bool :=
  line.all Text.isBlank

def runtimeHere (cs : List Char) : Bool :=
  match Text.dropFront? "Runtime:".toList cs with
  | none => false
  | some rest =>
    match Text.trimStart rest with
    | '"' :: rest => Text.startsWith "nodejs".toList rest
    | '\'' :: rest => Text.startsWith "nodejs".toList rest
    | rest => Text.startsWith "nodejs".toList rest

/-- The runtime key stands somewhere with nothing but blanks before it on its line; `fresh` tells
whether there are none but blanks so far. -/
def runtimeFrom : Bool → List Char → Bool
  | _, [] => false
  | fresh, c :: cs =>
    (fresh && runtimeHere (c :: cs)) || runtimeFrom (c == '\n' || (fresh && Text.isBlank c)) cs

def hasNodeRuntime (cs : List Char) : Bool :=
  runtimeFrom true cs

def dropKey? (line : Line) : Option Line :=
  match Text.dropFront? "ZipFile:".toList line with
  | some rest => some rest
  | none => Text.dropFront? "InlineCode:".toList line

def isBlockMark : Line → Bool
  | c :: '-' :: rest => (c == '|' || c == '>') && isBlankLine rest
  | c :: '+' :: rest => (c == '|' || c == '>') && isBlankLine rest
  | c :: rest => (c == '|' || c == '>') && isBlankLine rest
  | [] => false

def isCodeKey (line : Line) : Bool :=
  match dropKey? (Text.trimStart line) with
  | none => false
  | some rest => isBlockMark (Text.trimStart rest)

/-- The lines that belong to a key at the given indentation; blank lines at the end do not. -/
def block (keyIndent : Nat) (lines : List Line) : List Line :=
  let inside := lines.takeWhile fun l ↦ isBlankLine l || indent l > keyIndent
  (inside.reverse.dropWhile isBlankLine).reverse

def blockIndent (lines : List Line) : Nat :=
  ((lines.filter fun l ↦ !isBlankLine l).map indent).min?.getD 0

def dropBytes? : Nat → Line → Option Line
  | 0, cs => some cs
  | _ + 1, [] => none
  | n + 1, c :: cs => if c.utf8Size ≤ n + 1 then dropBytes? (n + 1 - c.utf8Size) cs else none

def unindented (lines : List Line) : List Char :=
  let n := blockIndent lines
  ['\n'].intercalate (lines.map fun l ↦ (dropBytes? n l).getD [])

def snippet? (offset : Nat) (lines : List Line) : Option Snippet :=
  let code := unindented lines
  if code.all Text.isBlank then none
  else some { code := String.ofList code, lineOffset := offset, language := .js }

def snippetsFrom (number : Nat) (lines : List Line) : List Snippet :=
  match lines with
  | [] => []
  | line :: rest =>
    if isCodeKey line then
      let inside := block (indent line) rest
      (snippet? (number + 1) inside).toList ++
        snippetsFrom (number + 1 + inside.length) (rest.drop inside.length)
    else snippetsFrom (number + 1) rest
termination_by lines.length
decreasing_by
  · simp only [List.length_drop, List.length_cons]
    omega
  · simp

def snippets (source : String) : List Snippet :=
  let cs := source.toList
  if hasNodeRuntime cs then snippetsFrom 0 (Text.lines cs) else []

end AnalysisServer.Yaml
