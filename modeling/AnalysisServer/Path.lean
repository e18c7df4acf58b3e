import AnalysisServer.Text.Basic

namespace AnalysisServer

inductive Component where
  | root
  | current
  | parent
  | name (s : String)
deriving DecidableEq, Ord, Inhabited

structure Path where
  text : String
deriving DecidableEq, Inhabited

namespace Path

def isAbsolute (p : Path) : Bool :=
  p.text.toList.head? == some '/'

/-- A piece between separators as a component; empty pieces and dots are none. -/
def ofPiece? : List Char → Option Component
  | [] => none
  | ['.'] => none
  | ['.', '.'] => some .parent
  | cs => some (.name (String.ofList cs))

def components (p : Path) : List Component :=
  let pieces := Text.split '/' p.text.toList
  let front : List Component :=
    if p.isAbsolute then [.root] else if pieces.head? = some ['.'] then [.current] else []
  front ++ pieces.filterMap ofPiece?

/-- The order and the equality of paths are those of their components. -/
def order (p q : Path) : Ordering :=
  compare p.components q.components

def same (p q : Path) : Bool :=
  p.components == q.components

def startsWith (p front : Path) : Bool :=
  front.components.isPrefixOf p.components

def fileName? (p : Path) : Option String :=
  match p.components.getLast? with
  | some (.name s) => some s
  | _ => none

def join (p q : Path) : Path :=
  if q.isAbsolute || p.text.isEmpty then q
  else if p.text.toList.getLast? = some '/' then ⟨p.text ++ q.text⟩
  else ⟨p.text ++ "/" ++ q.text⟩

def joinName (p : Path) (name : String) : Path :=
  p.join ⟨name⟩

def isFiller (piece : List Char) : Bool :=
  piece.isEmpty || piece == ['.']

/-- The text without its last component; a root and the empty path have no parent. -/
def parent? (p : Path) : Option Path :=
  let cs := p.text.toList
  let absolute := p.isAbsolute
  let dotted := (Text.split '/' cs).head? = some ['.']
  let body := if absolute ∨ dotted then cs.drop 1 else cs
  let front := if absolute ∨ dotted then cs.take 1 else []
  match (Text.split '/' body).reverse.dropWhile isFiller with
  | [] => if dotted then some ⟨""⟩ else none
  | _ :: rest =>
    let kept := (rest.dropWhile isFiller).reverse
    some ⟨String.ofList (front ++ ['/'].intercalate kept)⟩

def ancestorsUpTo : Nat → Path → List Path
  | 0, _ => []
  | fuel + 1, p =>
    match p.parent? with
    | none => []
    | some q => q :: ancestorsUpTo fuel q

def ancestors (p : Path) : List Path :=
  ancestorsUpTo (p.text.length + 1) p

/-- A clean path: from the root or not, and then names only. -/
def ofNames (absolute : Bool) (names : List String) : Path :=
  ⟨(if absolute then "/" else "") ++ "/".intercalate names⟩

/-- The names left when dots are dropped and a double dot takes back the name before it. -/
def resolveDots (names : List String) : List Component → List String
  | [] => names.reverse
  | .name s :: rest => resolveDots (s :: names) rest
  | .parent :: rest => resolveDots names.tail rest
  | _ :: rest => resolveDots names rest

def normalize (p : Path) : Path :=
  ofNames p.isAbsolute (resolveDots [] p.components)

def relativeTo? (p base : Path) : Option (List Component) :=
  if p.startsWith base then some (p.components.drop base.components.length) else none

end Path

abbrev PathMap (α : Type) := List (Path × α)

namespace PathMap

variable {α : Type}

/-- Puts an entry in its place by the order of paths. An equal path keeps its first text and gets
the new value. -/
def insert (p : Path) (a : α) : PathMap α → PathMap α
  | [] => [(p, a)]
  | (q, b) :: rest =>
    match p.order q with
    | .lt => (p, a) :: (q, b) :: rest
    | .eq => (q, a) :: rest
    | .gt => (q, b) :: insert p a rest

def get? (p : Path) (m : PathMap α) : Option α :=
  (m.find? fun e ↦ e.1.same p).map (·.2)

def contains (p : Path) (m : PathMap α) : Bool :=
  m.any fun e ↦ e.1.same p

def erase (p : Path) (m : PathMap α) : PathMap α :=
  m.filter fun e ↦ !e.1.same p

def keys (m : PathMap α) : List Path :=
  m.map (·.1)

def ofList (entries : List (Path × α)) : PathMap α :=
  entries.foldl (fun m e ↦ insert e.1 e.2 m) []

end PathMap

def Path.sorted (paths : List Path) : List Path :=
  (PathMap.ofList (paths.map fun p ↦ (p, ()))).keys

end AnalysisServer
