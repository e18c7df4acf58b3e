import AnalysisServer.Embedded.Basic

/-!
Scripts of a markup document: the texts between a script tag and the next closing tag. Tags and attributes are matched
without regard to case.
-/

namespace AnalysisServer.Html

/-- A character that equals a small letter up to case; the long s is a spelling of the letter. -/
def foldsTo (letter c : Char) : Bool :=
  Text.lowerChar c == letter || (letter == 's' && c == 'ſ') || (letter == 'k' && c == '\u212a')

def dropWord? : List Char → List Char → Option (List Char)
  | [], cs => some cs
  | _ :: _, [] => none
  | p :: ps, c :: cs => if foldsTo p c then dropWord? ps cs else none

def startsWord (cs : List Char) : Bool :=
  cs.head?.any Text.isWord

def tagName? (cs : List Char) : Option (List Char) :=
  match dropWord? ['<', 's', 'c', 'r', 'i', 'p', 't'] cs with
  | none => none
  | some rest => if startsWord rest then none else some rest

/-- A closing tag stands here: the blanks before its end, and what follows it. -/
def closeTag? (cs : List Char) : Option (List Char × List Char) :=
  match dropWord? ['<', '/', 's', 'c', 'r', 'i', 'p', 't'] cs with
  | none => none
  | some rest =>
    match rest.dropWhile Text.isBlank with
    | '>' :: after => some (rest.takeWhile Text.isBlank, after)
    | _ => none

/-- A script element after its name: attributes and `>`, body, closing tag with a gap, the rest. -/
structure Element where
  attributes : List Char
  body : List Char
  gap : List Char
  after : List Char

/-- Body, gap and rest; `acc` holds what was read of the body, latest first. -/
def body? (acc : List Char) : List Char → Option (List Char × List Char × List Char)
  | [] => none
  | c :: cs =>
    match closeTag? (c :: cs) with
    | some (gap, after) => some (acc.reverse, gap, after)
    | none => body? (c :: acc) cs

def element? (cs : List Char) : Option Element :=
  match cs.dropWhile (· ≠ '>') with
  | [] => none
  | _ :: rest =>
    (body? [] rest).map fun (body, gap, after) ↦ ⟨cs.takeWhile (· ≠ '>'), body, gap, after⟩

theorem length_dropWord? {word cs rest : List Char} (h : dropWord? word cs = some rest) :
    rest.length ≤ cs.length := by
  induction word generalizing cs with
  | nil => simp_all [dropWord?]
  | cons p ps ih =>
    cases cs with
    | nil => simp [dropWord?] at h
    | cons c cs =>
      simp only [dropWord?] at h
      split at h
      · have := ih h
        simp only [List.length_cons]
        omega
      · contradiction

theorem length_tagName? {cs rest : List Char} (h : tagName? cs = some rest) :
    rest.length ≤ cs.length := by
  unfold tagName? at h
  split at h
  · contradiction
  · next r hr =>
    split at h
    · contradiction
    · cases h
      exact length_dropWord? hr

theorem length_closeTag? {cs gap after : List Char} (h : closeTag? cs = some (gap, after)) :
    after.length ≤ cs.length := by
  unfold closeTag? at h
  split at h
  · contradiction
  · next r hr =>
    split at h
    · next r' ht =>
      have h₁ := length_dropWord? hr
      have h₂ : (r.dropWhile Text.isBlank).length ≤ r.length :=
        (List.dropWhile_sublist _).length_le
      rw [ht] at h₂
      simp_all
      omega
    · contradiction

theorem length_body? {acc cs body gap after : List Char}
    (h : body? acc cs = some (body, gap, after)) : after.length ≤ cs.length := by
  induction cs generalizing acc with
  | nil => cases h
  | cons c cs ih =>
    unfold body? at h
    split at h
    · next r hr =>
      cases h
      exact length_closeTag? hr
    · exact Nat.le_succ_of_le (ih h)

theorem length_element? {cs : List Char} {e : Element} (h : element? cs = some e) :
    e.after.length < cs.length := by
  unfold element? at h
  split at h
  · contradiction
  · next r hr =>
    obtain ⟨⟨body, gap, after⟩, hb, he⟩ := Option.map_eq_some_iff.1 h
    have h₁ := length_body? hb
    have h₂ : (cs.dropWhile (· ≠ '>')).length ≤ cs.length := (List.dropWhile_sublist _).length_le
    rw [hr] at h₂
    subst he
    simp only [List.length_cons] at h₂
    show after.length < cs.length
    omega

def findAttribute? {α : Type} (here? : List Char → Option α) : Option Char → List Char → Option α
  | _, [] => none
  | before, c :: cs =>
    match if before.any Text.isWord then none else here? (c :: cs) with
    | some a => some a
    | none => findAttribute? here? (some c) cs

def assigned? (name cs : List Char) : Option (List Char) :=
  match dropWord? name cs with
  | none => none
  | some rest =>
    match Text.trimStart rest with
    | '=' :: rest => some rest
    | _ => none

def isQuote (c : Char) : Bool :=
  c == '"' || c == '\''

def unquoted (cs : List Char) : List Char :=
  match Text.trimStart cs with
  | c :: cs => if isQuote c then cs else c :: cs
  | [] => []

def isTypeChar (c : Char) : Bool :=
  !(isQuote c || Text.isBlank c || c == '>')

def typeHere? (cs : List Char) : Option (List Char) :=
  match assigned? ['t', 'y', 'p', 'e'] cs with
  | none => none
  | some rest =>
    match (unquoted rest).takeWhile isTypeChar with
    | [] => none
    | type => some type

def isJavaScript (attributes : List Char) : Bool :=
  match findAttribute? typeHere? none attributes with
  | none => true
  | some type =>
    let type := type.map Text.lowerChar
    type == "module".toList || Text.contains "javascript".toList type ||
      Text.contains "ecmascript".toList type || Text.contains "babel".toList type

def isWholeWord (word cs : List Char) : Bool :=
  (dropWord? word cs).any fun rest ↦ !startsWord rest

def typeScriptHere? (cs : List Char) : Option Unit :=
  match assigned? ['l', 'a', 'n', 'g'] cs with
  | none => none
  | some rest =>
    let value := unquoted rest
    if isWholeWord "ts".toList value || isWholeWord "typescript".toList value then some () else none

def isTypeScript (attributes : List Char) : Bool :=
  (findAttribute? typeScriptHere? none attributes).isSome

def isExternal (attributes : List Char) : Bool :=
  (findAttribute? (assigned? ['s', 'r', 'c']) none attributes).isSome

def snippet? (attributes body : List Char) (offset : Nat) : Option Snippet :=
  if isExternal attributes || !isJavaScript attributes then none
  else
    some { code := String.ofList body
           lineOffset := offset
           language := if isTypeScript attributes then .ts else .js }

/-- The snippets of a text with `line` newlines before it. An element that has no end ends the
search, since no later one could have one. -/
def scriptsFrom (line : Nat) (cs : List Char) : List Snippet :=
  match cs with
  | [] => []
  | c :: rest =>
    match _ : tagName? (c :: rest) with
    | none => scriptsFrom (line + if c = '\n' then 1 else 0) rest
    | some inside =>
      match _ : element? inside with
      | none => []
      | some e =>
        let offset := line + Text.newlines e.attributes
        (snippet? e.attributes e.body offset).toList ++
          scriptsFrom (offset + Text.newlines e.body + Text.newlines e.gap) e.after
termination_by cs.length
decreasing_by
  · exact Nat.lt_succ_self _
  · exact Nat.lt_of_lt_of_le (length_element? ‹_›) (length_tagName? ‹_›)

def scripts (source : String) : List Snippet :=
  scriptsFrom 0 source.toList

end AnalysisServer.Html
