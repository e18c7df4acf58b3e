import AnalysisServer.Proofs.Cache.Crowds

namespace AnalysisServer.Cache

variable {K V ε : Type} {fp : Option String} {b : Nat} {i : SlotId} {v : V}

/-- Fingerprints that never replace each other: there is none, or it is a certain one. -/
def Fits (f : String) (fp : Option String) : Prop :=
  fp = none ∨ fp = some f

theorem Fits.agrees {f : String} {fp' : Option String} (h : Fits f fp) (h' : Fits f fp') : agrees fp fp' = true := by
  obtain rfl | rfl := h
  · rfl
  · obtain rfl | rfl := h'
    · rfl
    · simp [AnalysisServer.agrees]

/-- How far the value of a key has come, and whose builder makes it. -/
inductive Flight (V : Type) where
  | idle
  | opened (slot : SlotId)
  | running (slot : SlotId) (builder : Nat)
  | full (slot : SlotId) (builder : Nat) (value : V)

def Progress.isFilling : Progress V ε → Bool
  | filling _ => true
  | _ => false

namespace Flight

variable {flight flight' : Flight V} {n m : Nat} {p p' : Progress V ε} {k : K} {f : String}
  {call : Call K V ε} {c c' : Cache K V}

def slot? : Flight V → Option SlotId
  | idle => none
  | opened i | running i _ | full i _ _ => some i

def cell (fp : Option String) : Flight V → Cell V
  | idle | opened _ => .empty
  | running _ _ => .running
  | full _ _ v => .full ⟨v, fp⟩

def builders : Flight V → List Nat
  | idle | opened _ => []
  | running _ b | full _ b _ => [b]

def Allows (flight : Flight V) (n : Nat) : Progress V ε → Prop
  | .waiting | .peeking none | .looked none | .done (.found none) => True
  | .holding i | .peeking (some i) => flight.slot? = some i
  | .filling i => flight = .running i n
  | .filled v | .served v | .looked (some v) | .done (.value v) | .done (.found (some v)) =>
    ∃ i b, flight = .full i b v
  | .failing _ _ | .done (.failed _) => False

inductive Next (c : Cache K V) (call : Call K V ε) (n : Nat) : Flight V → Flight V → Prop
  | stay (flight : Flight V) : Next c call n flight flight
  | link : Next c call n .idle (.opened c.slots.length)
  | start (i : SlotId) : Next c call n (.opened i) (.running i n)
  | finish {k : K} {fp : Option String} (i : SlotId) {v : V} (h : call = .build k fp (.ok v)) :
      Next c call n (.running i n) (.full i n v)

theorem Next.eq_of_full (h : Next c call n (.full i b v) flight) : flight = .full i b v := by
  cases h
  rfl

theorem Next.slot?_cases (h : Next c call n flight flight') :
    flight'.slot? = flight.slot? ∨ flight'.slot? = some c.slots.length := by
  cases h with
  | link => exact .inr rfl
  | _ => exact .inl rfl

theorem Allows.next (h : flight.Allows m p) (hnext : Next c call n flight flight') (hne : m ≠ n) :
    flight'.Allows m p := by
  have hslot {i : SlotId} (hi : flight.slot? = some i) : flight'.slot? = some i := by
    cases hnext with
    | link => cases hi
    | _ => exact hi
  have hfull {v : V} (hv : ∃ i b, flight = .full i b v) : ∃ i b, flight' = .full i b v := by
    obtain ⟨i, b, rfl⟩ := hv
    exact ⟨i, b, hnext.eq_of_full⟩
  cases p with
  | waiting => trivial
  | holding i => exact hslot h
  | filling i =>
    have hrunning : flight = .running i m := h
    subst hrunning
    cases hnext with
    | stay => rfl
    | finish => exact absurd rfl hne
  | filled v | served v => exact hfull h
  | failing => cases h
  | peeking o =>
    cases o with
    | none => trivial
    | some i => exact hslot h
  | looked o =>
    cases o with
    | none => trivial
    | some v => exact hfull h
  | done o =>
    cases o with
    | value v => exact hfull h
    | failed => cases h
    | found o =>
      cases o with
      | none => trivial
      | some v => exact hfull h

theorem eq_opened (hi : flight.slot? = some i) (hcell : flight.cell fp = .empty) : flight = .opened i := by
  cases flight with
  | opened => exact congrArg _ (Option.some.inj hi)
  | idle => cases hi
  | _ => cases hcell

theorem eq_full {e : CacheEntry V} (hi : flight.slot? = some i) (hcell : flight.cell fp = .full e) :
    ∃ b, flight = .full i b e.value := by
  cases flight with
  | full j b u =>
    cases hi
    cases hcell
    exact ⟨b, rfl⟩
  | _ => cases hcell

variable [BEq K]

/-- The key leads to the slot of the flight, and the cell of the slot is as the flight says. -/
structure At (k : K) (f : String) (c : Cache K V) (flight : Flight V) : Prop where
  slot : c.slotOf? k = flight.slot?
  cell {i : SlotId} : flight.slot? = some i → ∃ fp, Fits f fp ∧ c.slot? i = some ⟨fp, flight.cell fp⟩

theorem At.of_eq (h : flight.At k f c) (hslot : c'.slotOf? k = c.slotOf? k)
    (hcell : ∀ i, flight.slot? = some i → c'.slot? i = c.slot? i) : flight.At k f c' := by
  refine ⟨hslot.trans h.slot, fun {i} hi ↦ ?_⟩
  obtain ⟨fp, hfp, hc⟩ := h.cell hi
  exact ⟨fp, hfp, (hcell i hi).trans hc⟩

theorem At.setCell (h : flight.At k f c) (hi : flight.slot? = some i) (flight' : Flight V)
    (hslot : flight'.slot? = some i) :
    flight'.At k f (c.setCell i (flight'.cell ((c.slot? i).bind (·.fingerprint)))) := by
  refine ⟨?_, fun {j} hj ↦ ?_⟩
  · rw [slotOf?_setCell, h.slot, hi, hslot]
  · cases hslot.symm.trans hj
    obtain ⟨fp, hfp, hc⟩ := h.cell hi
    refine ⟨fp, hfp, ?_⟩
    rw [slot?_setCell, if_pos rfl, hc]
    rfl

theorem At.freshValue? (h : (Flight.full i b v).At k f c) (hfp : Fits f fp) : c.freshValue? i fp = some v := by
  obtain ⟨stored, hstored, hc⟩ := h.cell rfl
  have hfresh : (CacheEntry.mk v stored).isFresh fp = true := hstored.agrees hfp
  rw [Cache.freshValue?, hc, Option.bind_some, Flight.cell, Cell.stored?, Option.filter_some, if_pos hfresh]
  rfl

section

variable (h : flight.At k f c)

include h

theorem At.full_of_fresh
    (hi : flight.slot? = some i) (hv : c.freshValue? i fp = some v) : ∃ b, flight = .full i b v := by
  obtain ⟨stored, -, hc⟩ := h.cell hi
  rw [Cache.freshValue?, hc, Option.bind_some] at hv
  obtain ⟨e, he, rfl⟩ := Option.map_eq_some_iff.mp hv
  have hfull : flight.cell stored = .full e := by
    cases hcell : flight.cell stored with
    | full e' =>
      rw [hcell] at he
      exact congrArg _ (Option.some.inj (Option.filter_eq_some_iff.mp he).1)
    | _ =>
      rw [hcell] at he
      cases he
  exact Flight.eq_full hi hfull

theorem At.acquire [LawfulBEq K] {fp : Option String} (hfp : Fits f fp) (call : Call K V ε) (n : Nat) :
    ∃ flight', Next c call n flight flight' ∧ flight'.At k f (c.acquire k fp).2 ∧
      flight'.slot? = some (c.acquire k fp).1 ∧ flight'.builders = flight.builders := by
  obtain ⟨i, s, he, hi, -⟩ | ⟨he, hno⟩ := acquire_cases c k fp
  · rw [he]
    exact ⟨flight, .stay flight, h, h.slot.symm.trans hi, rfl⟩
  · rw [he]
    cases flight with
    | idle =>
      refine ⟨.opened c.slots.length, .link, ⟨?_, fun {i} hi ↦ ?_⟩, rfl, rfl⟩
      · simp [slotOf?_link, Flight.slot?]
      · cases hi
        exact ⟨fp, hfp, by simp [slot?_link, Flight.cell]⟩
    | opened i | running i | full i =>
      obtain ⟨stored, hstored, hc⟩ := h.cell rfl
      have hagrees := hno i _ h.slot hc
      rw [hstored.agrees hfp] at hagrees
      cases hagrees

theorem At.own [LawfulBEq K] (hn : flight.Allows n p) (hkey : call.key = k)
    (htame : ∀ {fp yields}, call = .build k fp yields → Fits f fp ∧ ∃ v, yields = .ok v)
    (hstep : call.Step c p c' p') :
    ∃ flight', Next c call n flight flight' ∧ flight'.At k f c' ∧ flight'.Allows n p' ∧
      flight'.builders = flight.builders ++ if p'.isFilling then [n] else [] := by
  have hstay (hat : flight.At k f c') (hallows : flight.Allows n p') (hp : p'.isFilling = false) :
      ∃ flight', Next c call n flight flight' ∧ flight'.At k f c' ∧ flight'.Allows n p' ∧
        flight'.builders = flight.builders ++ if p'.isFilling then [n] else [] :=
    ⟨flight, .stay flight, hat, hallows, by simp [hp]⟩
  -- Only getting the first slot, and the start and the end of its builder, move the flight.
  cases hstep with
  | @acquire k' fp yields =>
    have hk : k' = k := hkey
    subst hk
    obtain ⟨flight', hnext, hat, hslot, hb⟩ := h.acquire (htame rfl).1 (.build k' fp yields) n
    exact ⟨flight', hnext, hat, hslot, by simp [hb, Progress.isFilling]⟩
  | @start _ _ stored _ i hs =>
    have hi : flight.slot? = some i := hn
    obtain ⟨fp, -, hc⟩ := h.cell hi
    have hopened := eq_opened hi (congrArg Slot.cell (Option.some.inj (hc.symm.trans hs)))
    subst hopened
    exact ⟨.running i n, .start i, (h.setCell hi (.running i n) rfl).of_eq rfl fun _ _ ↦ rfl, rfl, rfl⟩
  | @serve _ _ stored _ i v hs =>
    have hi : flight.slot? = some i := hn
    obtain ⟨fp, -, hc⟩ := h.cell hi
    obtain ⟨b, hfull⟩ := eq_full hi (congrArg Slot.cell (Option.some.inj (hc.symm.trans hs)))
    exact hstay h ⟨i, b, hfull⟩ rfl
  | @finish _ _ i v =>
    have hrunning : flight = .running i n := hn
    subst hrunning
    exact ⟨.full i n v, .finish i rfl, h.setCell rfl (.full i n v) rfl, ⟨i, n, rfl⟩, rfl⟩
  | @giveUp k' fp i e =>
    have hk : k' = k := hkey
    subst hk
    obtain ⟨-, v, hv⟩ := htame rfl
    cases hv
  | countMiss | countHit => exact hstay (h.of_eq rfl fun _ _ ↦ rfl) hn rfl
  | discard => cases hn
  | @find k' fp =>
    have hk : k' = k := hkey
    subst hk
    refine hstay h ?_ rfl
    rw [h.slot]
    cases hslot : flight.slot? with
    | none => trivial
    | some i => exact hslot
  | @read _ fp o =>
    refine hstay h ?_ rfl
    cases o with
    | none => trivial
    | some i =>
      rw [Option.bind_some]
      cases hv : c.freshValue? i fp with
      | none => trivial
      | some v =>
        obtain ⟨b, hfull⟩ := h.full_of_fresh hn hv
        exact ⟨i, b, hfull⟩
  | @count _ _ v =>
    refine hstay (h.of_eq (slotOf?_count c _ k) fun i _ ↦ slot?_count c _ i) ?_ rfl
    cases v with
    | none => trivial
    | some v => exact hn

theorem At.foreign [LawfulBEq K] (hs : c.Sound) (hkey : call.key ≠ k)
    (hp : ∀ i, p.slot? = some i → flight.slot? ≠ some i) (hstep : call.Step c p c' p') :
    flight.At k f c' ∧ ∀ i, p'.slot? = some i → flight.slot? ≠ some i := by
  constructor
  · refine h.of_eq (hstep.slotOf?_eq hkey) fun i hi ↦ ?_
    exact hstep.slot?_eq (hs.inRange (h.slot.trans hi)) fun hpi ↦ hp i hpi hi
  · intro i hi hflight
    have hk := h.slot.trans hflight
    obtain hi | hi | ⟨rfl, -⟩ := hstep.held_cases hi
    · exact hp i hi hflight
    · exact hkey (hs.own hi hk)
    · exact Nat.lt_irrefl _ (hs.inRange hk)

end

end Flight

namespace Crowd

variable [BEq K]

def started (k : K) (n : Nat) (w : Crowd K V ε) : List Nat :=
  if w.callers[n]?.any fun x ↦ x.progress.isFilling && x.call.key == k then [n] else []

/-- The callers whose builders run under a key, in the order in which they begin. -/
def builders (k : K) : Crowd K V ε → List Nat → List Nat
  | _, [] => []
  | w, n :: order =>
    match w.step n with
    | none => builders k w order
    | some w' => w'.started k n ++ builders k w' order

end Crowd

namespace Flight

variable [BEq K] {flight flight' : Flight V} {k : K} {f : String} {calls : List (Call K V ε)}
  {w w' : Crowd K V ε} {n : Nat}

structure Of (k : K) (f : String) (calls : List (Call K V ε)) (w : Crowd K V ε) (flight : Flight V) :
    Prop where
  attended : w.Attended
  made : w.callers.map (·.call) = calls
  cache : flight.At k f w.cache
  allows {n : Nat} {x : Caller K V ε} : w.callers[n]? = some x → x.call.key = k → flight.Allows n x.progress
  foreign {n : Nat} {x : Caller K V ε} {i : SlotId} : w.callers[n]? = some x → x.call.key ≠ k →
    x.progress.slot? = some i → flight.slot? ≠ some i
  builder {i : SlotId} {b : Nat} {v : V} : flight = .full i b v → ∃ fp, calls[b]? = some (.build k fp (.ok v))

theorem Of.start (k : K) (f : String) (calls : List (Call K V ε)) : Flight.idle.Of k f calls (Crowd.start calls) where
  attended := .start calls
  made := by simp [Crowd.start, Function.comp_def]
  cache := ⟨rfl, nofun⟩
  allows hx _ := by
    rw [(Crowd.callers_start.mp hx).2]
    trivial
  foreign _ _ _ := nofun
  builder := nofun

section

variable (h : flight.Of k f calls w)
  (htame : ∀ {fp yields}, .build k fp yields ∈ calls → Fits f fp ∧ ∃ v, yields = .ok v)

include h htame

theorem Of.step [LawfulBEq K] (hstep : w.step n = some w') :
    ∃ flight' : Flight V, flight'.Of k f calls w' ∧ flight'.builders = flight.builders ++ w'.started k n ∧
      ∀ i b v, flight = .full i b v → flight' = .full i b v := by
  have hattended := h.attended.step hstep
  have hcalls := (Crowd.calls_step hstep).trans h.made
  obtain ⟨x, p, hx, hcallers, hs⟩ := Crowd.step_cases hstep
  have hself : w'.callers[n]? = some { x with progress := p } := by
    rw [hcallers, getElem?_set_same hx]
  -- A caller of the key may move the flight, and one of another key does not get in its way.
  by_cases hkey : x.call.key = k
  · have hcall := Crowd.call_of_made h.made hx
    obtain ⟨flight', hnext, hat, hallows, hb⟩ :=
      h.cache.own (h.allows hx hkey) hkey (fun he ↦ htame (he ▸ List.mem_of_getElem? hcall)) hs
    refine ⟨flight', ⟨hattended, hcalls, hat, fun {m y} hy hk ↦ ?_, fun {m y i} hy hk hi hf ↦ ?_,
      fun {i b v} hfull ↦ ?_⟩, ?_, fun i b v hfull ↦ Next.eq_of_full (hfull ▸ hnext)⟩
    · rw [hcallers] at hy
      obtain ⟨rfl, rfl⟩ | ⟨hm, hy⟩ := getElem?_set_cases hx hy
      · exact hallows
      · exact (h.allows hy hk).next hnext hm
    · rw [hcallers] at hy
      obtain ⟨rfl, rfl⟩ | ⟨hm, hy⟩ := getElem?_set_cases hx hy
      · exact hk hkey
      · obtain hslot | hslot := hnext.slot?_cases
        · exact h.foreign hy hk hi (hslot.symm.trans hf)
        · cases hslot.symm.trans hf
          exact Nat.lt_irrefl _ (h.attended.held hy hi)
    · cases hnext with
      | stay => exact h.builder hfull
      | link | start => cases hfull
      | @finish k' fp j u he =>
        cases hfull
        rw [he] at hkey hcall
        have hk : k' = k := hkey
        subst hk
        exact ⟨fp, hcall⟩
    · rw [hb]
      simp [Crowd.started, hself, hkey]
  · obtain ⟨hat, hslot⟩ := h.cache.foreign h.attended.sound hkey (fun i ↦ h.foreign hx hkey) hs
    refine ⟨flight, ⟨hattended, hcalls, hat, fun {m y} hy hk ↦ ?_, fun {m y i} hy hk hi ↦ ?_,
      h.builder⟩, ?_, fun _ _ _ hfull ↦ hfull⟩
    · rw [hcallers] at hy
      obtain ⟨rfl, rfl⟩ | ⟨-, hy⟩ := getElem?_set_cases hx hy
      · exact absurd hk hkey
      · exact h.allows hy hk
    · rw [hcallers] at hy
      obtain ⟨rfl, rfl⟩ | ⟨-, hy⟩ := getElem?_set_cases hx hy
      · exact hslot i hi
      · exact h.foreign hy hk hi
    · simp [Crowd.started, hself, hkey]

theorem Of.run [LawfulBEq K] (order : List Nat) : ∃ flight' : Flight V, flight'.Of k f calls (w.run order) ∧
      flight'.builders = flight.builders ++ w.builders k order ∧
      ∀ i b v, flight = .full i b v → flight' = .full i b v := by
  induction order generalizing w flight with
  | nil => exact ⟨flight, h, by simp [Crowd.builders], fun _ _ _ hfull ↦ hfull⟩
  | cons n order ih =>
    simp only [Crowd.run, List.foldl_cons, Crowd.builders]
    cases hn : w.step n with
    | none => exact ih h
    | some w' =>
      obtain ⟨flight₁, h₁, hb₁, hfull₁⟩ := h.step htame hn
      obtain ⟨flight₂, h₂, hb₂, hfull₂⟩ := ih h₁
      refine ⟨flight₂, h₂, ?_, fun i b v hfull ↦ hfull₂ i b v (hfull₁ i b v hfull)⟩
      rw [hb₂, hb₁, List.append_assoc]

end

def Hits (i : SlotId) (v : V) (p : Progress V ε) : Prop :=
  p = .waiting ∨ p = .peeking (some i) ∨ p = .looked (some v) ∨ p = .done (.found (some v))

theorem At.hits {c c' : Cache K V}
    {p p' : Progress V ε} (h : (Flight.full i b v).At k f c) (hfp : Fits f fp) (hp : Hits i v p)
    (hstep : (Call.look k fp).Step c p c' p') : Hits i v p' := by
  cases hstep with
  | find => exact .inr (.inl (congrArg _ h.slot))
  | @read _ _ o =>
    obtain hp | hp | hp | hp := hp <;> cases hp
    exact .inr (.inr (.inl (congrArg _ (h.freshValue? hfp))))
  | count =>
    obtain hp | hp | hp | hp := hp <;> cases hp
    exact .inr (.inr (.inr rfl))

theorem Of.hits [LawfulBEq K] (h : (Flight.full i b v).Of k f calls w)
    (htame : ∀ {fp yields}, .build k fp yields ∈ calls → Fits f fp ∧ ∃ v, yields = .ok v)
    (hfp : Fits f fp) (hw : w.callers[n]? = some ⟨.look k fp, .waiting⟩) (order : List Nat) :
    ∃ p, (w.run order).callers[n]? = some ⟨.look k fp, p⟩ ∧ Hits i v p := by
  have hrun : (Flight.full i b v).Of k f calls (w.run order) ∧
      ∃ p, (w.run order).callers[n]? = some ⟨.look k fp, p⟩ ∧ Hits i v p := by
    refine Crowd.run_induction (P := fun w ↦ (Flight.full i b v).Of k f calls w ∧
      ∃ p, w.callers[n]? = some ⟨.look k fp, p⟩ ∧ Hits i v p) ?_ ⟨h, .waiting, hw, .inl rfl⟩ order
    rintro u u' m hstep ⟨hu, p, hp, hits⟩
    obtain ⟨flight', hu', -, hfull⟩ := hu.step htame hstep
    rw [hfull i b v rfl] at hu'
    refine ⟨hu', ?_⟩
    obtain ⟨x, q, hx, hcallers, hs⟩ := Crowd.step_cases hstep
    rw [hcallers]
    by_cases hm : m = n
    · subst hm
      cases hx.symm.trans hp
      rw [getElem?_set_same hx]
      exact ⟨q, rfl, hu.cache.hits hfp hits hs⟩
    · rw [List.getElem?_set_ne hm]
      exact ⟨p, hp, hits⟩
  exact hrun.2

end Flight

def Yields (calls : List (Call K V ε)) (k : K) (builders : List Nat) (v : V) : Prop :=
  ∃ b fp, builders = [b] ∧ calls[b]? = some (.build k fp (.ok v))

variable [BEq K]

/-- From now on a value is found under a key by everybody who looks for it, and nobody who asks for it
to be built gets another one. -/
def Crowd.Keeps (k : K) (f : String) (v : V) (w : Crowd K V ε) : Prop :=
  ∀ later, (∀ fp, Fits f fp → (w.run later).cache.peek? k fp = some v) ∧
    (∀ (n : Nat) fp o, Fits f fp → w.callers[n]? = some ⟨.look k fp, .waiting⟩ →
      (w.run later).callers[n]? = some ⟨.look k fp, .done o⟩ → o = .found (some v)) ∧
    ∀ (n : Nat) fp yields u, (w.run later).callers[n]? = some ⟨.build k fp yields, .done (.value u)⟩ → u = v

variable [LawfulBEq K] {calls : List (Call K V ε)} {k : K} {f : String}

namespace Flight

variable {w : Crowd K V ε}

theorem Of.keeps (h : (Flight.full i b v).Of k f calls w)
    (htame : ∀ {fp yields}, .build k fp yields ∈ calls → Fits f fp ∧ ∃ v, yields = .ok v) :
    w.Keeps k f v := by
  intro later
  obtain ⟨flight, hlater, -, hfull⟩ := h.run htame later
  rw [hfull i b v rfl] at hlater
  refine ⟨fun fp hfp ↦ ?_, fun n fp o hfp hwaiting hdone ↦ ?_, fun n fp yields u hdone ↦ ?_⟩
  · rw [peek?, hlater.cache.slot]
    exact hlater.cache.freshValue? hfp
  · obtain ⟨p, hp, hits⟩ := h.hits htame hfp hwaiting later
    cases hp.symm.trans hdone
    obtain hp | hp | hp | hp := hits <;> cases hp
    rfl
  · obtain ⟨i', b', he⟩ : ∃ i' b', Flight.full i b v = .full i' b' u := hlater.allows hdone rfl
    cases he
    rfl

omit [LawfulBEq K] in
theorem Of.yields {flight : Flight V} (h : flight.Of k f calls w)
    (hfull : ∃ i b, flight = .full i b v) : Yields calls k flight.builders v := by
  obtain ⟨i, b, rfl⟩ := hfull
  obtain ⟨fp, hfp⟩ := h.builder rfl
  exact ⟨b, fp, rfl, hfp⟩

end Flight

/-- However the callers take turns: if nobody fails who builds under a key, and the fingerprints fit together,
at most one builder runs, and whoever asks for the value to be built gets what it yields. All of them come to
their end if they get their turns. -/
theorem single_flight (htame : ∀ fp yields, .build k fp yields ∈ calls → Fits f fp ∧ ∃ v, yields = .ok v)
    (order : List Nat) :
    ((Crowd.start calls).builders k order).length ≤ 1 ∧
    (∀ (n : Nat) fp yields o, ((Crowd.start calls).run order).callers[n]? = some ⟨.build k fp yields, .done o⟩ →
      ∃ v, o = .value v ∧ Yields calls k ((Crowd.start calls).builders k order) v ∧
        ((Crowd.start calls).run order).Keeps k f v) ∧
    (∀ (n : Nat) fp o, ((Crowd.start calls).run order).callers[n]? = some ⟨.look k fp, .done o⟩ → o = .found none ∨
        ∃ v, o = .found (some v) ∧ Yields calls k ((Crowd.start calls).builders k order) v) ∧
    ∀ rounds : List (List Nat), (∀ r ∈ rounds, ∀ n, n < calls.length → n ∈ r) →
      longestCall * calls.length ≤ rounds.length →
      ∀ x ∈ ((Crowd.start calls).run (order ++ rounds.flatten)).callers, x.outcome?.isSome := by
  have htame' {fp yields} := htame fp yields
  obtain ⟨flight, hof, hb, -⟩ := (Flight.Of.start k f calls).run htame' order
  have hb : flight.builders = (Crowd.start calls).builders k order := hb
  rw [← hb]
  refine ⟨?_, fun n fp yields o ho ↦ ?_, fun n fp o ho ↦ ?_, fun rounds hrounds hlen ↦ ?_⟩
  · cases flight <;> simp [Flight.builders]
  · have hallows := hof.allows ho rfl
    cases o with
    | value v =>
      have hyields := hof.yields hallows
      obtain ⟨i, b, rfl⟩ := hallows
      exact ⟨v, rfl, hyields, hof.keeps htame'⟩
    | failed => cases hallows
    | found => cases hof.attended.admits ho
  · have hallows := hof.allows ho rfl
    cases o with
    | found o =>
      cases o with
      | none => exact .inl rfl
      | some v => exact .inr ⟨v, rfl, hof.yields hallows⟩
    | _ => cases hof.attended.admits ho
  · have hlength : ((Crowd.start calls).run order).callers.length = calls.length := by
      rw [Crowd.length_run]
      exact List.length_map _
    rw [Crowd.run_append]
    refine hof.attended.done_of_rounds (fun r hr n hn ↦ hrounds r hr n (hlength ▸ hn)) ?_
    exact Nat.le_trans (Crowd.left_le _) (hlength ▸ hlen)

def fewCalls : List (Call Nat Nat Unit) :=
  [.build 1 none (.ok 10), .build 1 (some "f") (.ok 20), .look 1 (some "f"), .build 2 none (.error ())]

theorem single_flight_fewCalls : (∀ fp yields, .build 1 fp yields ∈ fewCalls → Fits "f" fp ∧ ∃ v, yields = .ok v) ∧
      ((Crowd.start fewCalls).run [0, 1, 1, 3, 0, 3, 1, 0, 3, 0]).callers[0]? =
        some ⟨.build 1 none (.ok 10), .done (.value 20)⟩ ∧
      Yields fewCalls 1 ((Crowd.start fewCalls).builders 1 [0, 1, 1, 3, 0, 3, 1, 0, 3, 0]) 20 ∧
      ((Crowd.start fewCalls).run [0, 1, 1, 3, 0, 3, 1, 0, 3, 0]).Keeps 1 "f" 20 := by
  have htame : ∀ fp yields, .build 1 fp yields ∈ fewCalls → Fits "f" fp ∧ ∃ v, yields = .ok v := by
    intro fp yields h
    simp only [fewCalls, List.mem_cons, Call.build.injEq, List.not_mem_nil, or_false] at h
    obtain ⟨-, rfl, rfl⟩ | ⟨-, rfl, rfl⟩ | h | ⟨h, -⟩ := h
    · exact ⟨.inl rfl, 10, rfl⟩
    · exact ⟨.inr rfl, 20, rfl⟩
    · cases h
    · cases h
  obtain ⟨-, hbuild, -⟩ := single_flight htame [0, 1, 1, 3, 0, 3, 1, 0, 3, 0]
  obtain ⟨v, hv, hyields, hkeeps⟩ := hbuild 0 none (.ok 10) (.value 20) rfl
  cases hv
  exact ⟨htame, rfl, hyields, hkeeps⟩

end AnalysisServer.Cache
