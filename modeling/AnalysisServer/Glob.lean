import AnalysisServer.Text.Basic

/-!
Glob patterns over the bytes of a path. A star matches any bytes, separators too.
-/

namespace AnalysisServer.Glob

inductive Token where
  | literal (c : Char)
  | any
  | star
  | anyFront
  | anyBelow
  | anyBetween
  | oneOf (negated : Bool) (ranges : List (Char × Char))
  | choice (branches : List (List Token))
deriving Inhabited

structure ByteSet where
  negated : Bool
  ranges : List (UInt8 × UInt8)

namespace ByteSet

def contains (s : ByteSet) (b : UInt8) : Bool :=
  (s.ranges.any fun r ↦ r.1 ≤ b && b ≤ r.2) != s.negated

def single (b : UInt8) : ByteSet :=
  ⟨false, [(b, b)]⟩

def all : ByteSet :=
  ⟨true, []⟩

end ByteSet

/-- What a pattern is made of: one byte of a set, any bytes, or one of several sequences. -/
inductive Piece where
  | one (s : ByteSet)
  | run
  | choice (branches : List (List Piece))
deriving Inhabited

def utf8 (c : Char) : List UInt8 :=
  (String.singleton c).toUTF8.toList

def slash : Piece :=
  .one (.single 0x2F)

/-- A range as a set of bytes: a character of several bytes gives each of them, and the range runs
from the last byte of its first character to the first byte of its last. -/
def byteRanges (r : Char × Char) : List (UInt8 × UInt8) :=
  if r.1 = r.2 then (utf8 r.1).map fun b ↦ (b, b)
  else
    let first := utf8 r.1
    let last := utf8 r.2
    (first.dropLast.map fun b ↦ (b, b)) ++ [(first.getLast?.getD 0, last.head?.getD 0)] ++
      (last.tail.map fun b ↦ (b, b))

mutual

def Token.isVoidToken : Token → Bool
  | .choice branches => areVoid branches
  | _ => false

def isVoid : List Token → Bool
  | [] => true
  | t :: ts => t.isVoidToken && isVoid ts

def areVoid : List (List Token) → Bool
  | [] => true
  | b :: bs => isVoid b && areVoid bs

end

mutual

def Token.pieces : Token → List Piece
  | .literal c => (utf8 c).map fun b ↦ .one (.single b)
  | .any => [.one .all]
  | .star => [.run]
  | .anyFront => [.choice [[], [slash], [.run, slash]]]
  | .anyBelow => [slash, .run]
  | .anyBetween => [.choice [[slash], [slash, .run, slash]]]
  | .oneOf negated ranges => [.one ⟨negated, ranges.flatMap byteRanges⟩]
  | .choice branches => if areVoid branches then [] else [.choice (branchPieces branches)]

def piecesOf : List Token → List Piece
  | [] => []
  | t :: ts => t.pieces ++ piecesOf ts

def branchPieces : List (List Token) → List (List Piece)
  | [] => []
  | b :: bs => if isVoid b then branchPieces bs else piecesOf b :: branchPieces bs

end

def Token.width : Token → Nat
  | .literal c => (utf8 c).length
  | .anyBelow => 2
  | .choice branches => if areVoid branches then 0 else 1
  | _ => 1

def sequenceLevel (ts : List Token) : Nat :=
  if ts.foldr (·.width + ·) 0 ≤ 1 then 0 else 1

def choiceLevel (branches : List (List Token)) : Nat :=
  if branches.countP (fun b ↦ !isVoid b) ≤ 1 then 0 else 1

mutual

/-- How many levels a token has inside: each group, choice, sequence, repetition and set is one. -/
def Token.depth : Token → Nat
  | .literal _ => 0
  | .any => 0
  | .star => 1
  | .anyFront => 4
  | .anyBelow => 1
  | .anyBetween => 4
  | .oneOf _ ranges => if (ranges.flatMap byteRanges).length ≤ 1 then 1 else 2
  | .choice branches =>
    if areVoid branches then 0 else 1 + choiceLevel branches + branchDepth branches

def depthOf : List Token → Nat
  | [] => 0
  | t :: ts => max t.depth (depthOf ts)

def branchDepth : List (List Token) → Nat
  | [] => 0
  | b :: bs => max (sequenceLevel b + depthOf b) (branchDepth bs)

end

/-- The parser's state: the character before the next one, the tokens of the branch being read,
latest first, and the groups around it, each with its finished branches and the tokens before it. -/
structure Draft where
  before : Option Char := none
  tokens : List Token := []
  groups : List (List (List Token) × List Token) := []

namespace Draft

def push (d : Draft) (t : Token) : Draft :=
  { d with tokens := t :: d.tokens }

def openGroup (d : Draft) : Draft :=
  { d with tokens := [], groups := ([], d.tokens) :: d.groups }

def nextBranch (d : Draft) : Draft :=
  match d.groups with
  | [] => d.push (.literal ',')
  | (done, outer) :: groups =>
    { d with tokens := [], groups := (d.tokens.reverse :: done, outer) :: groups }

def closeGroup (d : Draft) : Option Draft :=
  match d.groups with
  | [] => none
  | (done, outer) :: groups =>
    some { d with tokens := .choice (d.tokens.reverse :: done).reverse :: outer, groups }

/-- A double star that is a whole component replaces the separator before it. -/
def component (d : Draft) (t : Token) : Draft :=
  match d.tokens with
  | .anyFront :: _ => d
  | .anyBelow :: _ => d
  | _ :: rest => { d with tokens := t :: rest }
  | [] => d

end Draft

structure SetDraft where
  ranges : List (Char × Char) := []
  first : Bool := true
  inRange : Bool := false

/-- Reads a set up to its closing bracket; ranges are kept latest first. -/
def readSet : SetDraft → List Char → Option (List (Char × Char) × List Char)
  | _, [] => none
  | d, c :: cs =>
    if c = ']' ∧ ¬ d.first then
      some ((if d.inRange then ('-', '-') :: d.ranges else d.ranges).reverse, cs)
    else if c = '-' ∧ ¬ d.first ∧ ¬ d.inRange then readSet { d with inRange := true } cs
    else if d.inRange then
      match d.ranges with
      | (low, _) :: rest =>
        if c < low then none
        else readSet { ranges := (low, c) :: rest, first := false, inRange := false } cs
      | [] => none
    else readSet { ranges := (c, c) :: d.ranges, first := false, inRange := false } cs

def isSeparator (c : Option Char) : Bool :=
  c == some '/'

/-- Reads a double star whose two characters are gone from `cs`; tells how many more it takes. -/
def doubleStar (d : Draft) (cs : List Char) : Draft × Nat :=
  let loose := (d.push .star).push .star
  if d.tokens.isEmpty then
    if cs.isEmpty || isSeparator cs.head? then (d.push .anyFront, 1) else (loose, 0)
  else if !isSeparator d.before &&
      (d.groups.isEmpty || (d.before != some ',' && d.before != some '{')) then (loose, 0)
  else
    match cs with
    | [] => (d.component .anyBelow, 0)
    | c :: _ =>
      if (c = ',' || c = '}') && !d.groups.isEmpty then (d.component .anyBelow, 0)
      else if c = '/' then (d.component .anyBetween, 1)
      else (loose, 0)

def parse : Nat → Draft → List Char → Option Draft
  | _, d, [] => some d
  | 0, _, _ :: _ => none
  | fuel + 1, d, c :: cs =>
    match c with
    | '?' => parse fuel { d.push .any with before := some c } cs
    | '*' =>
      match cs with
      | '*' :: cs =>
        let (d, more) := doubleStar d cs
        let before := if more = 1 ∧ !cs.isEmpty then some '/' else some '*'
        parse fuel { d with before } (cs.drop more)
      | cs => parse fuel { d.push .star with before := some c } cs
    | '[' =>
      let (negated, cs) :=
        match cs with
        | '!' :: rest => (true, rest)
        | '^' :: rest => (true, rest)
        | _ => (false, cs)
      match readSet {} cs with
      | some (ranges, cs) => parse fuel { d.push (.oneOf negated ranges) with before := some ']' } cs
      | none => none
    | '{' => parse fuel { d.openGroup with before := some c } cs
    | '}' =>
      match d.closeGroup with
      | some d => parse fuel { d with before := some c } cs
      | none => none
    | ',' => parse fuel { d.nextBranch with before := some c } cs
    | '\\' =>
      match cs with
      | e :: cs => parse fuel { d.push (.literal e) with before := some e } cs
      | [] => none
    | c => parse fuel { d.push (.literal c) with before := some c } cs

def tokens? (pattern : String) : Option (List Token) :=
  let cs := pattern.toList
  match parse cs.length {} cs with
  | some d => if d.groups.isEmpty then some d.tokens.reverse else none
  | none => none

end Glob

structure Glob where
  pieces : List Glob.Piece
  depth : Nat

namespace Glob

/-- The marks after one more byte. A text is matched by marking its positions, from before its first
byte to behind its last; a mark says that what was read of the pattern can end there. -/
def advance (s : ByteSet) (text : List UInt8) (marks : List Bool) : List Bool :=
  false :: List.zipWith (fun b m ↦ m && s.contains b) text marks

def spread : Bool → List Bool → List Bool
  | _, [] => []
  | seen, m :: ms => (seen || m) :: spread (seen || m) ms

mutual

def Piece.reach (text : List UInt8) : Piece → List Bool → List Bool
  | .one s, marks => advance s text marks
  | .run, marks => spread false marks
  | .choice branches, marks => reachAny text branches marks

def reachAll (text : List UInt8) : List Piece → List Bool → List Bool
  | [], marks => marks
  | p :: ps, marks => reachAll text ps (p.reach text marks)

def reachAny (text : List UInt8) : List (List Piece) → List Bool → List Bool
  | [], marks => marks.map fun _ ↦ false
  | b :: bs, marks => List.zipWith (· || ·) (reachAll text b marks) (reachAny text bs marks)

end

def start (text : List UInt8) : List Bool :=
  true :: text.map fun _ ↦ false

def fits (ps : List Piece) (text : List UInt8) : Bool :=
  (reachAll text ps (start text)).getLast? == some true

def otherCase? (b : UInt8) : Option UInt8 :=
  if 0x41 ≤ b && b ≤ 0x5A then some (b + 32)
  else if 0x61 ≤ b && b ≤ 0x7A then some (b - 32)
  else none

def otherCases (r : UInt8 × UInt8) : List (UInt8 × UInt8) :=
  ((List.range 128).map Nat.toUInt8).filterMap fun b ↦
    if r.1 ≤ b && b ≤ r.2 then (otherCase? b).map fun o ↦ (o, o) else none

def ByteSet.anyCase (s : ByteSet) : ByteSet :=
  { s with ranges := s.ranges ++ s.ranges.flatMap otherCases }

mutual

def Piece.anyCase : Piece → Piece
  | .one s => .one s.anyCase
  | .run => .run
  | .choice branches => .choice (anyCaseBranches branches)

def anyCaseAll : List Piece → List Piece
  | [] => []
  | p :: ps => p.anyCase :: anyCaseAll ps

def anyCaseBranches : List (List Piece) → List (List Piece)
  | [] => []
  | b :: bs => anyCaseAll b :: anyCaseBranches bs

end

/-- A double star alone matches everything. The pattern as a whole is a sequence. -/
def ofTokens : List Token → Glob
  | [.anyFront] => ⟨[.run], 2⟩
  | ts => ⟨piecesOf ts, 1 + depthOf ts⟩

def ofPattern? (pattern : String) : Option Glob :=
  (tokens? pattern).map ofTokens

def anyCase (g : Glob) : Glob :=
  { g with pieces := anyCaseAll g.pieces }

def isMatch (g : Glob) (text : String) : Bool :=
  fits g.pieces text.toUTF8.toList

def deepest : Nat :=
  250

/-- The globs of those patterns that are well formed. One with too many levels spoils them all. -/
def set (patterns : List String) : List Glob :=
  let globs := patterns.filterMap ofPattern?
  if globs.all fun g ↦ g.depth ≤ deepest then globs else []

def anyMatch (globs : List Glob) (text : String) : Bool :=
  globs.any (·.isMatch text)

end Glob

end AnalysisServer
