namespace AnalysisServer

/-- Two fingerprints agree unless both are given and differ. -/
def agrees (stored asked : Option String) : Bool :=
  match stored, asked with
  | some s, some a => s == a
  | _, _ => true

structure CacheEntry (V : Type) where
  value : V
  fingerprint : Option String

def CacheEntry.isFresh {V : Type} (e : CacheEntry V) (asked : Option String) : Bool :=
  agrees e.fingerprint asked

inductive Cell (V : Type) where
  | empty
  | running
  | full (entry : CacheEntry V)

def Cell.stored? {V : Type} : Cell V → Option (CacheEntry V)
  | full e => some e
  | _ => none

def Cell.value? {V : Type} (cell : Cell V) : Option V :=
  cell.stored?.map (·.value)

structure Slot (V : Type) where
  fingerprint : Option String
  cell : Cell V

abbrev SlotId := Nat

/-- The slots by key, and all slots there ever were by number. -/
structure Cache (K V : Type) where
  index : List (K × SlotId) := []
  slots : List (Slot V) := []
  hits : Nat := 0
  misses : Nat := 0
  builds : Nat := 0

structure CacheStats where
  entries : Nat
  hits : Nat
  misses : Nat
  builds : Nat
deriving DecidableEq

namespace Cache

variable {K V : Type}

def slot? (c : Cache K V) (i : SlotId) : Option (Slot V) :=
  c.slots[i]?

def value? (c : Cache K V) (i : SlotId) : Option V :=
  (c.slot? i).bind (·.cell.value?)

/-- The value of a slot, if it is there and goes with a fingerprint. -/
def freshValue? (c : Cache K V) (i : SlotId) (fingerprint : Option String) : Option V :=
  (((c.slot? i).bind (·.cell.stored?)).filter (·.isFresh fingerprint)).map (·.value)

def setCell (c : Cache K V) (i : SlotId) (cell : Cell V) : Cache K V :=
  { c with slots := c.slots.modify i fun s ↦ { s with cell } }

def countHit (c : Cache K V) : Cache K V :=
  { c with hits := c.hits + 1 }

def countMiss (c : Cache K V) : Cache K V :=
  { c with misses := c.misses + 1 }

def count (c : Cache K V) (hit : Bool) : Cache K V :=
  if hit then c.countHit else c.countMiss

def start (c : Cache K V) (i : SlotId) : Cache K V :=
  { c.setCell i .running with builds := c.builds + 1 }

/-- An entry has the fingerprint of the slot that it is made for. -/
def finish (c : Cache K V) (i : SlotId) (v : V) : Cache K V :=
  c.setCell i (.full ⟨v, (c.slot? i).bind (·.fingerprint)⟩)

/-- A builder that fails leaves the cell as it found it. -/
def giveUp (c : Cache K V) (i : SlotId) : Cache K V :=
  c.setCell i .empty

variable [BEq K]

def slotOf? (c : Cache K V) (k : K) : Option SlotId :=
  c.index.lookup k

def unlink (c : Cache K V) (k : K) : Cache K V :=
  { c with index := c.index.filter fun e ↦ !(e.1 == k) }

def link (c : Cache K V) (k : K) (s : Slot V) : Cache K V :=
  { c with index := (c.unlink k).index ++ [(k, c.slots.length)], slots := c.slots ++ [s] }

/-- The slot of a key that goes with a fingerprint; a slot with another one is replaced. -/
def acquire (c : Cache K V) (k : K) (fingerprint : Option String) : SlotId × Cache K V :=
  let fits := (c.slotOf? k).filter fun i ↦ (c.slot? i).any fun s ↦ agrees s.fingerprint fingerprint
  match fits with
  | some i => (i, c)
  | none => (c.slots.length, c.link k ⟨fingerprint, .empty⟩)

/-- Takes a slot away if it is still the slot of its key and nothing was put into it. -/
def discard (c : Cache K V) (k : K) (i : SlotId) : Cache K V :=
  if c.slotOf? k == some i && (c.value? i).isNone then c.unlink k else c

def peek? (c : Cache K V) (k : K) (fingerprint : Option String) : Option V :=
  (c.slotOf? k).bind fun i ↦ c.freshValue? i fingerprint

def getFresh (c : Cache K V) (k : K) (fingerprint : Option String) : Option V × Cache K V :=
  let v := c.peek? k fingerprint
  (v, c.count v.isSome)

def get (c : Cache K V) (k : K) : Option V × Cache K V :=
  c.getFresh k none

def set (c : Cache K V) (k : K) (fingerprint : Option String) (v : V) : Cache K V :=
  c.link k ⟨fingerprint, .full ⟨v, fingerprint⟩⟩

/-- What a call for a value came to: the value or the failure, and whether it ran its builder. -/
structure Built (ε V : Type) where
  outcome : Except ε V
  ran : Bool

/-- The value of a key, built if it is not there. A failure is not kept. -/
def getOrBuild {ε : Type} (c : Cache K V) (k : K) (fingerprint : Option String)
    (build : Unit → Except ε V) : Built ε V × Cache K V :=
  let (i, c) := c.acquire k fingerprint
  match c.value? i with
  | some v => (⟨.ok v, false⟩, c.countHit)
  | none =>
    let c := c.start i
    match build () with
    | .ok v => (⟨.ok v, true⟩, (c.finish i v).countMiss)
    | .error e => (⟨.error e, true⟩, (c.giveUp i).discard k i)

def entries (c : Cache K V) : List (K × V) :=
  c.index.filterMap fun e ↦ (c.value? e.2).map fun v ↦ (e.1, v)

def find (c : Cache K V) (p : K → V → Bool) : Option (K × V) × Cache K V :=
  let found := c.entries.find? fun e ↦ p e.1 e.2
  (found, c.count found.isSome)

def invalidate (c : Cache K V) (k : K) : Bool × Cache K V :=
  ((c.slotOf? k).isSome, c.unlink k)

def clear (c : Cache K V) : Cache K V :=
  { c with index := [] }

def contains (c : Cache K V) (k : K) : Bool :=
  (c.peek? k none).isSome

def keys (c : Cache K V) : List K :=
  c.entries.map (·.1)

def size (c : Cache K V) : Nat :=
  c.entries.length

def stats (c : Cache K V) : CacheStats :=
  ⟨c.size, c.hits, c.misses, c.builds⟩

end Cache

end AnalysisServer
