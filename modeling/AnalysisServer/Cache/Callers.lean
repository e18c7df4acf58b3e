import AnalysisServer.Cache.Basic

namespace AnalysisServer.Cache

/-- A call: for a value that is built if need be, with what its builder would yield, or a look-up. -/
inductive Call (K V ε : Type) where
  | build (key : K) (fingerprint : Option String) (yields : Except ε V)
  | look (key : K) (fingerprint : Option String)

inductive Outcome (V ε : Type) where
  | value (v : V)
  | failed (e : ε)
  | found (v : Option V)

/-- How far a caller has come. Whoever looks a value up first finds the slot of its key, and reads
the slot in a step of its own. -/
inductive Progress (V ε : Type) where
  | waiting
  | holding (slot : SlotId)
  | filling (slot : SlotId)
  | filled (v : V)
  | served (v : V)
  | failing (slot : SlotId) (e : ε)
  | peeking (slot : Option SlotId)
  | looked (v : Option V)
  | done (outcome : Outcome V ε)

structure Caller (K V ε : Type) where
  call : Call K V ε
  progress : Progress V ε := .waiting

variable {K V ε : Type} [BEq K]

def Caller.step (c : Cache K V) (w : Caller K V ε) : Option (Cache K V × Caller K V ε) :=
  match w.call, w.progress with
  | .build k fp _, .waiting =>
    let (i, c) := c.acquire k fp
    some (c, { w with progress := .holding i })
  | .build _ _ _, .holding i =>
    match (c.slot? i).map Slot.cell with
    | some .empty => some (c.start i, { w with progress := .filling i })
    | some (.full e) => some (c, { w with progress := .served e.value })
    | _ => none
  | .build _ _ (.ok v), .filling i => some (c.finish i v, { w with progress := .filled v })
  | .build _ _ (.error e), .filling i => some (c.giveUp i, { w with progress := .failing i e })
  | .build _ _ _, .filled v => some (c.countMiss, { w with progress := .done (.value v) })
  | .build _ _ _, .served v => some (c.countHit, { w with progress := .done (.value v) })
  | .build k _ _, .failing i e => some (c.discard k i, { w with progress := .done (.failed e) })
  | .look k _, .waiting => some (c, { w with progress := .peeking (c.slotOf? k) })
  | .look _ fp, .peeking i =>
    some (c, { w with progress := .looked (i.bind fun i ↦ c.freshValue? i fp) })
  | .look _ _, .looked v => some (c.count v.isSome, { w with progress := .done (.found v) })
  | _, _ => none

structure Crowd (K V ε : Type) where
  cache : Cache K V
  callers : List (Caller K V ε)

def Crowd.step (w : Crowd K V ε) (i : Nat) : Option (Crowd K V ε) :=
  match w.callers[i]? with
  | none => none
  | some caller =>
    (caller.step w.cache).map fun r ↦ { cache := r.1, callers := w.callers.set i r.2 }

/-- Lets callers step in the given order; one that cannot step is passed over. -/
def Crowd.run (w : Crowd K V ε) (order : List Nat) : Crowd K V ε :=
  order.foldl (fun w i ↦ (w.step i).getD w) w

def longestCall : Nat :=
  4

def Crowd.settle (w : Crowd K V ε) : Crowd K V ε :=
  let n := w.callers.length
  w.run (List.replicate (longestCall * (n + 1)) (List.range n)).flatten

def Caller.outcome? (w : Caller K V ε) : Option (Outcome V ε) :=
  match w.progress with
  | .done o => some o
  | _ => none

end AnalysisServer.Cache
