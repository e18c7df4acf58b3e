import AnalysisServer.Path
import AnalysisServer.Text.Word
import AnalysisServer.Json.Decode

/-!
Languages of source files, told by the end of the file name. A component file of the Vue framework
is TypeScript when one of its script tags says so.
-/

namespace AnalysisServer

inductive Language where
  | js
  | ts
  | css
  | html
  | yaml
deriving DecidableEq, Inhabited

namespace Language

def isScript : Language → Bool
  | js => true
  | ts => true
  | _ => false

def word : Language → String
  | js => "js"
  | ts => "ts"
  | css => "css"
  | html => "html"
  | yaml => "yaml"

def words : List (String × Language) :=
  [("js", js), ("ts", ts), ("css", css), ("html", html), ("yaml", yaml)]

def toJson (l : Language) : Json :=
  .str l.word

end Language

structure Classifier where
  js : List String
  ts : List String
  css : List String
deriving DecidableEq

namespace Classifier

def defaultJs : List String :=
  [".js", ".mjs", ".cjs", ".jsx", ".vue"]

def defaultTs : List String :=
  [".ts", ".mts", ".cts", ".tsx"]

def defaultCss : List String :=
  [".css", ".less", ".scss", ".sass"]

def html : List String :=
  [".html", ".htm"]

def yaml : List String :=
  [".yml", ".yaml"]

def standard : Classifier :=
  ⟨defaultJs, defaultTs, defaultCss⟩

def cleanSuffix? (s : String) : Option String :=
  match Text.trim s.toList with
  | [] => none
  | '.' :: cs => some (Text.lower (String.ofList ('.' :: cs)))
  | cs => some (Text.lower (String.ofList ('.' :: cs)))

def ofSuffixes (js ts css : List String) : Classifier :=
  ⟨js.filterMap cleanSuffix?, ts.filterMap cleanSuffix?, css.filterMap cleanSuffix?⟩

end Classifier

namespace Vue

def isQuote (c : Char) : Bool :=
  c == '"' || c == '\''

def namesTypeScript : List Char → Bool
  | q :: 't' :: 's' :: r :: _ => isQuote q && isQuote r
  | q :: 't' :: 'y' :: 'p' :: 'e' :: 's' :: 'c' :: 'r' :: 'i' :: 'p' :: 't' :: r :: _ =>
    isQuote q && isQuote r
  | _ => false

def attributeHere (cs : List Char) : Bool :=
  match Text.dropFront? ['l', 'a', 'n', 'g'] cs with
  | none => false
  | some rest =>
    match Text.trimStart rest with
    | '=' :: rest => namesTypeScript (Text.trimStart rest)
    | _ => false

def tagOpen : List Char :=
  ['<', 's', 'c', 'r', 'i', 'p', 't']

/-- Some script tag of the text asks for TypeScript. Inside a tag the state holds the character
before, and whether such an attribute was found at the start of a word. -/
def asksFrom : Option (Char × Bool) → List Char → Bool
  | _, [] => false
  | none, c :: cs => asksFrom (if Text.startsWith tagOpen (c :: cs) then some (c, false) else none) cs
  | some (before, found), c :: cs =>
    if c = '>' then found || asksFrom none cs
    else asksFrom (some (c, found || (!Text.isWord before && attributeHere (c :: cs)))) cs

def asksForTypeScript (cs : List Char) : Bool :=
  asksFrom none cs

end Vue

namespace Classifier

def classify (k : Classifier) (path : Path) (contents : Option String) : Option Language :=
  match path.fileName? with
  | none => none
  | some name =>
    let name := (Text.lower name).toList
    let ends (suffixes : List String) := suffixes.any fun s ↦ s.toList.isSuffixOf name
    if ends k.ts then some .ts
    else if ends k.js then
      if ends [".vue"] && contents.any fun c ↦ Vue.asksForTypeScript c.toList then some .ts
      else some .js
    else if ends k.css then some .css
    else if ends html then some .html
    else if ends yaml then some .yaml
    else none

def isScript (k : Classifier) (path : Path) : Bool :=
  (k.classify path none).any Language.isScript

end Classifier

end AnalysisServer
