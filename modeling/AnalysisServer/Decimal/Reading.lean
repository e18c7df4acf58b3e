namespace AnalysisServer.Decimal

/-- The parts of a decimal numeral: sign, digits before and after the point, exponent. -/
structure Numeral where
  negative : Bool
  whole : List Nat
  fraction : Option (List Nat)
  exponent : Option (Bool × List Nat)
deriving DecidableEq

def wordLimit : Nat :=
  UInt64.size

/-- Adds digits to the word while they fit: the word, how many were taken, and the rest. -/
def gather : Nat → Nat → List Nat → Nat × Nat × List Nat
  | word, taken, [] => (word, taken, [])
  | word, taken, d :: ds =>
    if word * 10 + d < wordLimit then gather (word * 10 + d) (taken + 1) ds
    else (word, taken, d :: ds)

def ofDigits (ds : List Nat) : Nat :=
  ds.foldl (fun n d ↦ n * 10 + d) 0

/-- Scales by a power of ten, in steps where the power itself is no double. -/
def scale : Nat → Float → Int → Option Float
  | 0, f, _ => some f
  | fuel + 1, f, e =>
    if e.natAbs ≤ 308 then
      let power := Float.ofScientific 1 false e.natAbs
      if e ≥ 0 then
        let r := f * power
        if r.isInf then none else some r
      else some (f / power)
    else if f == 0.0 then some f
    else if e ≥ 0 then none
    else scale fuel (f / 1e308) (e + 308)

def double (negative : Bool) (word : Nat) (e : Int) : Option UInt64 :=
  (scale 4 word.toUInt64.toFloat e).map fun f ↦ (if negative then -f else f).toBits

inductive Value where
  | int (value : Int)
  | float (bits : UInt64)

/-- What a numeral without point and exponent means when all its digits fit the word. -/
def Value.ofWord (negative : Bool) (word : Nat) : Value :=
  if !negative then .int word
  else if word = 0 ∨ word > 1 <<< 63 then .float (-word.toUInt64.toFloat).toBits
  else .int (-(word : Int))

def exponentLimit : Nat :=
  1 <<< 31

def Numeral.value? (n : Numeral) : Option Value :=
  let (word, _, dropped) := gather 0 0 n.whole
  match n.fraction, n.exponent, dropped with
  | none, none, [] => some (Value.ofWord n.negative word)
  | _, _, _ =>
    let (word, taken, _) := gather word 0 (n.fraction.getD [])
    let start : Int := dropped.length - taken
    match n.exponent with
    | none => (double n.negative word start).map .float
    | some (negative, ds) =>
      let e := ofDigits ds
      if e ≥ exponentLimit then
        if word ≠ 0 ∧ !negative then none
        else some (.float (if n.negative then -0.0 else 0.0 : Float).toBits)
      else (double n.negative word (if negative then start - e else start + e)).map .float

end AnalysisServer.Decimal
