import AnalysisServer.Result
import AnalysisServer.Source.Basic

namespace AnalysisServer.Source

def insertLine (n : Nat) : List Nat → List Nat
  | [] => [n]
  | m :: ms => if n < m then n :: m :: ms else if n = m then m :: ms else m :: insertLine n ms

def ascending (ns : List Nat) : List Nat :=
  ns.foldl (fun acc n ↦ insertLine n acc) []

def silencer : List Char :=
  ['N', 'O', 'S', 'O', 'N', 'A', 'R']

def silences (c : Comment) : Bool :=
  Text.startsWith silencer (Text.trimStart c.text.toList)

def nosonarLines (p : ParsedSource) : List Nat :=
  ascending ((p.comments.filter silences).map (·.line))

def commentContent (segment : List Char) : List Char :=
  Text.trim ((Text.trim segment).dropWhile (· = '*'))

/-- The lines on which a comment has content, from its first line on. -/
def contentLines : Nat → List (List Char) → List Nat
  | _, [] => []
  | line, s :: ss =>
    if (commentContent s).isEmpty then contentLines (line + 1) ss
    else line :: contentLines (line + 1) ss

def Comment.contentLines (c : Comment) : List Nat :=
  Source.contentLines c.line (Text.split '\n' c.text.toList)

/-- The greatest line number there is, for sources without code. -/
def noLine : Nat :=
  UInt32.size - 1

def commentLines (ignoreHeader : Bool) (p : ParsedSource) : List Nat :=
  let first := p.codeLines.head?.getD noLine
  let counted := p.comments.filter fun c ↦ !(ignoreHeader && c.endLine < first)
  ascending (counted.flatMap Comment.contentLines)

def lineWords (ns : List Nat) : List UInt32 :=
  (ascending (ns.map fun n ↦ n % UInt32.size)).map Nat.toUInt32

structure MetricOptions where
  lightweight : Bool := false
  ignoreHeaderComments : Bool := false

def metrics (options : MetricOptions) (p : ParsedSource) : Metrics :=
  let silenced := (nosonarLines p).map Nat.toUInt32
  if options.lightweight then { nosonarLines := silenced }
  else
    { lines := some p.lineCount.toUInt32
      ncloc := some (p.codeLines.map Nat.toUInt32)
      commentLines := some (lineWords (commentLines options.ignoreHeaderComments p))
      nosonarLines := silenced }

end AnalysisServer.Source
