/-!
Which worker owns a text. The text is hashed with SipHash, one round for each word and three at the end, under the key
zero.
-/

namespace AnalysisServer.Affinity

structure State where
  a : UInt64
  b : UInt64
  c : UInt64
  d : UInt64

namespace State

def initial : State :=
  ⟨0x736f6d6570736575, 0x646f72616e646f6d, 0x6c7967656e657261, 0x7465646279746573⟩

def rotate (x : UInt64) (n : UInt64) : UInt64 :=
  (x <<< n) ||| (x >>> (64 - n))

def round (s : State) : State :=
  let a := s.a + s.b
  let b := rotate s.b 13 ^^^ a
  let a := rotate a 32
  let c := s.c + s.d
  let d := rotate s.d 16 ^^^ c
  let a := a + d
  let d := rotate d 21 ^^^ a
  let c := c + b
  let b := rotate b 17 ^^^ c
  let c := rotate c 32
  ⟨a, b, c, d⟩

def absorb (s : State) (word : UInt64) : State :=
  let s := { s with d := s.d ^^^ word }.round
  { s with a := s.a ^^^ word }

def finish (s : State) : UInt64 :=
  let s := { s with c := s.c ^^^ 0xff }.round.round.round
  s.a ^^^ s.b ^^^ s.c ^^^ s.d

end State

def word (bytes : List UInt8) : UInt64 :=
  bytes.foldr (fun b w ↦ (w <<< 8) ||| b.toUInt64) 0

/-- Takes in words of eight bytes; the last one holds what is left, and the length. -/
def absorbAll (length : Nat) (s : State) (bytes : List UInt8) : State :=
  if bytes.length < 8 then s.absorb (word bytes ||| (length.toUInt64 <<< 56))
  else absorbAll length (s.absorb (word (bytes.take 8))) (bytes.drop 8)
termination_by bytes.length
decreasing_by simp only [List.length_drop]; omega

def ofBytes (bytes : List UInt8) : UInt64 :=
  (absorbAll bytes.length .initial bytes).finish

def ofText (s : String) : Nat :=
  (ofBytes (s.toUTF8.toList ++ [0xff])).toNat

end AnalysisServer.Affinity
