/-!
The shortest decimal that reads back as a given double: of all decimals inside the interval of
reals that round to it, one with the fewest digits, and of those the nearest.
-/

namespace AnalysisServer.Decimal

/-- A finite double without its sign, `mantissa * 2 ^ exponent`. -/
structure Binary where
  mantissa : Nat
  exponent : Int
deriving DecidableEq

def Binary.ofBits (bits : UInt64) : Binary :=
  let field : Nat := (bits.toNat / 1 <<< 52) % 1 <<< 11
  let fraction : Nat := bits.toNat % 1 <<< 52
  if field = 0 then ⟨fraction, -1074⟩ else ⟨fraction + 1 <<< 52, field - 1075⟩

def isNegative (bits : UInt64) : Bool :=
  1 <<< 63 ≤ bits.toNat

/-- The interval that rounds to a double, and the double itself, over a common denominator. -/
structure Span where
  low : Nat
  value : Nat
  high : Nat
  denominator : Nat
  closed : Bool

def Binary.span (b : Binary) : Span :=
  let scale := 1 <<< (b.exponent - 2).toNat
  let below := if b.mantissa = 1 <<< 52 ∧ b.exponent > -1074 then 1 else 2
  { low := (4 * b.mantissa - below) * scale
    value := 4 * b.mantissa * scale
    high := (4 * b.mantissa + 2) * scale
    denominator := 1 <<< (2 - b.exponent).toNat
    closed := b.mantissa % 2 = 0 }

/-- The least power of ten, at most the given one, that lifts a proper fraction to one. -/
def lift (num den : Nat) : Nat → Nat → Nat
  | 0, j => j
  | fuel + 1, j => if num * 10 ^ j ≥ den then j else lift num den fuel (j + 1)

def leading (num den : Nat) : Int :=
  if num ≥ den then ((Nat.toDigits 10 (num / den)).length : Int) - 1
  else -(lift num den 400 1 : Int)

def Span.holds (s : Span) (low high point : Nat) : Bool :=
  if s.closed then low ≤ point && point ≤ high else low < point && point < high

/-- The multiple of `10 ^ k` in the span that is nearest to the value, if there is one. -/
def Span.onGrid (s : Span) (k : Int) : Option Nat :=
  let unit := Nat.pow 10 k.toNat * s.denominator
  let lifted := Nat.pow 10 (-k).toNat
  let value := s.value * lifted
  let c := value / unit
  let ok (n : Nat) := s.holds (s.low * lifted) (s.high * lifted) (n * unit)
  match ok c, ok (c + 1) with
  | true, true =>
    let down := value - c * unit
    let up := (c + 1) * unit - value
    if down < up || (down = up && c % 2 = 0) then some c else some (c + 1)
  | true, false => some c
  | false, true => some (c + 1)
  | false, false => none

/-- Tries one digit, two digits and so on; `last` is where the search gives up. -/
def Span.search (s : Span) (top : Int) : Nat → Nat → Nat × Int
  | 0, n => ((s.onGrid (top - n)).getD 0, top - n)
  | fuel + 1, n =>
    match s.onGrid (top - n) with
    | some c => (c, top - n)
    | none => s.search top fuel (n + 1)

def stripZeros : Nat → Nat × Int → Nat × Int
  | 0, d => d
  | fuel + 1, (c, k) => if c ≠ 0 ∧ c % 10 = 0 then stripZeros fuel (c / 10, k + 1) else (c, k)

/-- The digits `c` and the exponent `k` of the shortest decimal `c * 10 ^ k`. -/
def shortest (b : Binary) : Nat × Int :=
  let s := b.span
  stripZeros 20 (s.search (leading s.value s.denominator) 16 0)

end AnalysisServer.Decimal
