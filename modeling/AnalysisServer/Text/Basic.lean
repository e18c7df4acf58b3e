/-!
Blanks, lines and pieces of text. A blank is a character with the Unicode property White_Space.
-/

namespace AnalysisServer.Text

def isBlank (c : Char) : Bool :=
  let n := c.toNat
  (9 ≤ n && n ≤ 13) || n == 32 || n == 0x85 || n == 0xA0 || n == 0x1680 ||
    (0x2000 ≤ n && n ≤ 0x200A) || n == 0x2028 || n == 0x2029 || n == 0x202F || n == 0x205F ||
    n == 0x3000

def trimStart (cs : List Char) : List Char :=
  cs.dropWhile isBlank

def trimEnd (cs : List Char) : List Char :=
  (cs.reverse.dropWhile isBlank).reverse

def trim (cs : List Char) : List Char :=
  trimEnd (trimStart cs)

/-- The lines of a text without their ends. A line ends with a newline, before which one carriage
return is dropped; what stands after the last newline is a line only if it is not empty. -/
def lines : List Char → List (List Char)
  | [] => []
  | '\n' :: cs => [] :: lines cs
  | '\r' :: '\n' :: cs => [] :: lines cs
  | c :: cs =>
    match lines cs with
    | [] => [[c]]
    | l :: ls => (c :: l) :: ls

def newlines (cs : List Char) : Nat :=
  cs.count '\n'

def lowerChar (c : Char) : Char :=
  if 'A' ≤ c && c ≤ 'Z' then Char.ofNat (c.toNat + 32) else c

def lower (s : String) : String :=
  String.ofList (s.toList.map lowerChar)

/-- What is left of a text after the given front, if it has that front. -/
def dropFront? : List Char → List Char → Option (List Char)
  | [], cs => some cs
  | _ :: _, [] => none
  | p :: ps, c :: cs => if p = c then dropFront? ps cs else none

def startsWith (front cs : List Char) : Bool :=
  (dropFront? front cs).isSome

def contains (piece : List Char) : List Char → Bool
  | [] => piece.isEmpty
  | c :: cs => startsWith piece (c :: cs) || contains piece cs

/-- The pieces of a text between separators; there is always one more than separators. -/
def split (separator : Char) : List Char → List (List Char)
  | [] => [[]]
  | c :: cs =>
    if c = separator then [] :: split separator cs
    else
      match split separator cs with
      | [] => [[c]]
      | p :: ps => (c :: p) :: ps

def byteLength (cs : List Char) : Nat :=
  cs.foldr (·.utf8Size + ·) 0

theorem newlines_append (u v : List Char) : newlines (u ++ v) = newlines u + newlines v :=
  List.count_append

theorem newlines_cons (c : Char) (cs : List Char) : newlines (c :: cs) = newlines [c] + newlines cs :=
  newlines_append [c] cs

theorem byteLength_pos {cs : List Char} (h : cs ≠ []) : 0 < byteLength cs := by
  obtain ⟨c, cs, rfl⟩ := List.exists_cons_of_ne_nil h
  exact Nat.add_pos_left c.utf8Size_pos _

theorem byteLength_append (front back : List Char) :
    byteLength (front ++ back) = byteLength front + byteLength back := by
  induction front with
  | nil => simp [byteLength]
  | cons c front ih =>
    simp only [byteLength, List.cons_append, List.foldr_cons] at ih ⊢
    omega

end AnalysisServer.Text
