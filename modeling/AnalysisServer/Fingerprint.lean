/-!
Fingerprints of byte strings. `Digest` is the function that programs and discovery keys are named
by; its standard instance is BLAKE3 with 256 bits, in small hexadecimal digits.
-/

namespace AnalysisServer

class Digest where
  digest : ByteArray → String

namespace Blake3

abbrev Words := Vector UInt32 8
abbrev Block := Vector UInt32 16

def initial : Words :=
  #v[0x6A09E667, 0xBB67AE85, 0x3C6EF372, 0xA54FF53A, 0x510E527F, 0x9B05688C, 0x1F83D9AB, 0x5BE0CD19]

def chunkStart : UInt32 := 1
def chunkEnd : UInt32 := 2
def isParent : UInt32 := 4
def isRoot : UInt32 := 8

def chunkSize : Nat := 1024

def rotateRight (x : UInt32) (n : UInt32) : UInt32 :=
  (x >>> n) ||| (x <<< (32 - n))

/-- Mixes two message words into one column or diagonal of the state. -/
def mix (s : Block) (a b c d : Fin 16) (x y : UInt32) : Block :=
  let s := s.set a (s[a] + s[b] + x)
  let s := s.set d (rotateRight (s[d] ^^^ s[a]) 16)
  let s := s.set c (s[c] + s[d])
  let s := s.set b (rotateRight (s[b] ^^^ s[c]) 12)
  let s := s.set a (s[a] + s[b] + y)
  let s := s.set d (rotateRight (s[d] ^^^ s[a]) 8)
  let s := s.set c (s[c] + s[d])
  s.set b (rotateRight (s[b] ^^^ s[c]) 7)

def round (s : Block) (m : Block) : Block :=
  let s := mix s 0 4 8 12 m[0] m[1]
  let s := mix s 1 5 9 13 m[2] m[3]
  let s := mix s 2 6 10 14 m[4] m[5]
  let s := mix s 3 7 11 15 m[6] m[7]
  let s := mix s 0 5 10 15 m[8] m[9]
  let s := mix s 1 6 11 12 m[10] m[11]
  let s := mix s 2 7 8 13 m[12] m[13]
  mix s 3 4 9 14 m[14] m[15]

def permute (m : Block) : Block :=
  #v[m[2], m[6], m[3], m[10], m[7], m[0], m[4], m[13],
     m[1], m[11], m[12], m[5], m[9], m[14], m[15], m[8]]

def rounds : Nat → Block → Block → Block
  | 0, s, _ => s
  | n + 1, s, m => rounds n (round s m) (permute m)

/-- A node of the tree before it is compressed: what a root needs besides its chaining value. -/
structure Node where
  chaining : Words
  block : Block
  counter : UInt64
  length : UInt32
  flags : UInt32

def Node.compress (n : Node) (flags : UInt32) : Words :=
  let h := n.chaining
  let s : Block :=
    #v[h[0], h[1], h[2], h[3], h[4], h[5], h[6], h[7], initial[0], initial[1], initial[2], initial[3],
       n.counter.toUInt32, (n.counter >>> 32).toUInt32, n.length, n.flags ||| flags]
  let s := rounds 7 s n.block
  #v[s[0] ^^^ s[8], s[1] ^^^ s[9], s[2] ^^^ s[10], s[3] ^^^ s[11],
     s[4] ^^^ s[12], s[5] ^^^ s[13], s[6] ^^^ s[14], s[7] ^^^ s[15]]

def byteAt (bytes : ByteArray) (i : Nat) : UInt32 :=
  if h : i < bytes.size then (bytes.get i h).toUInt32 else 0

def wordAt (bytes : ByteArray) (i : Nat) : UInt32 :=
  byteAt bytes i ||| (byteAt bytes (i + 1) <<< 8) ||| (byteAt bytes (i + 2) <<< 16) |||
    (byteAt bytes (i + 3) <<< 24)

def blockAt (bytes : ByteArray) (start : Nat) : Block :=
  Vector.ofFn fun i ↦ wordAt bytes (start + 4 * i.val)

/-- The last node of a chunk, from the block at `start` on; `left` bounds the blocks to come. -/
def chunkFrom (bytes : ByteArray) (counter : UInt64) : Nat → Nat → Words → UInt32 → Node
  | 0, start, chaining, first =>
    { chaining, block := blockAt bytes start, counter
      length := (bytes.size - start).toUInt32, flags := first ||| chunkEnd }
  | left + 1, start, chaining, first =>
    if bytes.size ≤ start + 64 then
      { chaining, block := blockAt bytes start, counter
        length := (bytes.size - start).toUInt32, flags := first ||| chunkEnd }
    else
      let node : Node := { chaining, block := blockAt bytes start, counter, length := 64, flags := first }
      chunkFrom bytes counter left (start + 64) (node.compress 0) 0

def chunk (bytes : ByteArray) (counter : UInt64) : Node :=
  chunkFrom bytes counter 16 0 initial chunkStart

def parent (left right : Words) : Node :=
  { chaining := initial
    block := #v[left[0], left[1], left[2], left[3], left[4], left[5], left[6], left[7],
                right[0], right[1], right[2], right[3], right[4], right[5], right[6], right[7]]
    counter := 0
    length := 64
    flags := isParent }

/-- The left part holds the greatest power of two of whole chunks that leaves something over. -/
def leftSize (size : Nat) : Nat :=
  chunkSize * Nat.pow 2 ((size - 1) / chunkSize).log2

theorem leftSize_pos (size : Nat) : 0 < leftSize size :=
  Nat.mul_pos (by decide) (Nat.two_pow_pos _)

theorem leftSize_lt {size : Nat} (h : chunkSize < size) : leftSize size < size := by
  have hq : (size - 1) / chunkSize ≠ 0 := by
    have : 0 < (size - 1) / chunkSize := Nat.div_pos (by omega) (by decide)
    omega
  have hlog := Nat.log2_self_le hq
  have hmul : chunkSize * ((size - 1) / chunkSize) ≤ size - 1 := Nat.mul_div_le _ _
  have hle : leftSize size ≤ chunkSize * ((size - 1) / chunkSize) := Nat.mul_le_mul_left _ hlog
  omega

def tree (bytes : ByteArray) (counter : UInt64) : Node :=
  if bytes.size ≤ chunkSize then chunk bytes counter
  else
    let cut := leftSize bytes.size
    let left := tree (bytes.extract 0 cut) counter
    let right := tree (bytes.extract cut bytes.size) (counter + (cut / chunkSize).toUInt64)
    parent (left.compress 0) (right.compress 0)
termination_by bytes.size
decreasing_by
  · have := leftSize_lt (show chunkSize < bytes.size by omega)
    simp only [ByteArray.size_extract]
    omega
  · have := leftSize_pos bytes.size
    have := leftSize_lt (show chunkSize < bytes.size by omega)
    simp only [ByteArray.size_extract]
    omega

def hexDigits (n : UInt8) : List Char :=
  [Nat.digitChar (n.toNat / 16), Nat.digitChar (n.toNat % 16)]

def wordHex (w : UInt32) : List Char :=
  hexDigits w.toUInt8 ++ hexDigits (w >>> 8).toUInt8 ++ hexDigits (w >>> 16).toUInt8 ++
    hexDigits (w >>> 24).toUInt8

def hash (bytes : ByteArray) : String :=
  String.ofList (((tree bytes 0).compress isRoot).toList.flatMap wordHex)

end Blake3

instance Digest.blake3 : Digest :=
  ⟨Blake3.hash⟩

variable [Digest]

def fingerprint (bytes : ByteArray) : String :=
  Digest.digest bytes

def fingerprintText (text : String) : String :=
  fingerprint text.toUTF8

end AnalysisServer
