import AnalysisServer.Proofs.Cache.Slots
import Mathlib.Data.List.Basic

namespace AnalysisServer.Cache

open List

variable {K V ε : Type} {c c' : Cache K V} {k : K} {keys keys' : K → Prop}

structure KeyedBy (keys : K → Prop) (c : Cache K V) : Prop where
  nodup : (c.index.map Prod.fst).Nodup
  all : ∀ e ∈ c.index, keys e.1

namespace KeyedBy

theorem of_index (h : c.KeyedBy keys) (hi : c'.index = c.index) : c'.KeyedBy keys := by
  constructor
  · rw [hi]
    exact h.nodup
  · rw [hi]
    exact h.all

theorem mono (h : c.KeyedBy keys) (hle : ∀ k, keys k → keys' k) : c.KeyedBy keys' :=
  ⟨h.nodup, fun e he ↦ hle _ (h.all e he)⟩

theorem count (h : c.KeyedBy keys) (hit : Bool) : (c.count hit).KeyedBy keys := by
  cases hit <;> exact h.of_index rfl

end KeyedBy

theorem keys_sublist (c : Cache K V) : c.keys.Sublist (c.index.map Prod.fst) := by
  unfold keys entries
  induction c.index with
  | nil => exact .slnil
  | cons e es ih =>
    rw [filterMap_cons, map_cons]
    cases c.value? e.2 with
    | none => exact ih.cons _
    | some v => exact ih.cons_cons _

structure Settled (c : Cache K V) : Prop where
  keyed : c.KeyedBy fun _ ↦ True
  full : ∀ x ∈ c.index, ∃ e : CacheEntry V, c.slot? x.2 = some ⟨e.fingerprint, .full e⟩

namespace Settled

theorem empty : ({} : Cache K V).Settled :=
  ⟨⟨.nil, nofun⟩, nofun⟩

section

variable (h : c.Settled)

include h

theorem keep (hindex : c'.index.Sublist c.index) (hslots : c.slots <+: c'.slots) : c'.Settled where
  keyed := ⟨h.keyed.nodup.sublist (hindex.map _), fun _ _ ↦ trivial⟩
  full x hx := by
    obtain ⟨e, he⟩ := h.full x (hindex.subset hx)
    obtain ⟨more, hmore⟩ := hslots
    refine ⟨e, ?_⟩
    rw [slot?, ← hmore, List.getElem?_append_left (lt_of_getElem? he)]
    exact he

theorem count (hit : Bool) : (c.count hit).Settled := by
  cases hit <;> exact h.keep (.refl _) (prefix_refl _)

theorem clear : c.clear.Settled :=
  h.keep (nil_sublist _) (prefix_refl _)

theorem keys_eq : c.keys = c.index.map Prod.fst := by
  rw [keys, entries, map_filterMap, ← filterMap_eq_map]
  refine filterMap_congr fun x hx ↦ ?_
  obtain ⟨e, he⟩ := h.full x hx
  rw [value?, he]
  rfl

theorem size_eq : c.size = c.index.length := by
  rw [← length_map Prod.fst, ← h.keys_eq, keys, length_map, size]

end

end Settled

def begun (c : Cache K V) : Cache K V :=
  { c with builds := c.builds + 1 }

theorem Settled.begun (h : c.Settled) : c.begun.Settled :=
  h.keep (.refl _) (prefix_refl _)

section Keys

variable [BEq K]

@[simp] theorem peek?_count (c : Cache K V) (hit : Bool) (k : K) : (c.count hit).peek? k none = c.peek? k none := by
  cases hit <;> rfl

theorem getOrBuild_of_peek?_none (hk : c.peek? k none = none) (fp : Option String) (build : Unit → Except ε V) :
    (c.getOrBuild k fp build).1 = ⟨build (), true⟩ := by
  have hvalue : (c.acquire k fp).2.value? (c.acquire k fp).1 = none := by
    obtain ⟨i, s, he, hi, -⟩ | ⟨he, -⟩ := acquire_cases c k fp
    · rw [he, ← hk, peek?_none, hi]
      rfl
    · rw [he, value?_link, if_pos rfl]
      rfl
  simp only [getOrBuild, hvalue]
  cases build () <;> rfl

variable [LawfulBEq K]

theorem peek?_unlink (c : Cache K V) (k k' : K) :
    (c.unlink k).peek? k' none = if k' == k then none else c.peek? k' none := by
  simp only [peek?_none, slotOf?_unlink]
  split <;> rfl

namespace KeyedBy

theorem unlink (h : c.KeyedBy keys) (k : K) : (c.unlink k).KeyedBy fun k' ↦ keys k' ∧ k' ≠ k := by
  constructor
  · exact h.nodup.sublist (filter_sublist.map _)
  · intro e he
    obtain ⟨he, hne⟩ := mem_filter.mp he
    exact ⟨h.all e he, by simpa using hne⟩

theorem link (h : c.KeyedBy keys) (hk : keys k) (s : Slot V) : (c.link k s).KeyedBy keys := by
  have hrest := h.unlink k
  constructor
  · simp only [Cache.link, map_append, map_singleton]
    refine nodup_append.mpr ⟨hrest.nodup, by simp, ?_⟩
    rintro a ha b hb rfl
    obtain ⟨e, he, rfl⟩ := mem_map.mp ha
    exact (hrest.all e he).2 (mem_singleton.mp hb)
  · intro e he
    rcases mem_append.mp he with he | he
    · exact (hrest.all e he).1
    · rwa [mem_singleton.mp he]

theorem getOrBuild (h : c.KeyedBy keys) (hk : keys k) (fp : Option String) (build : Unit → Except ε V) :
    (c.getOrBuild k fp build).2.KeyedBy keys := by
  have hacquired : (c.acquire k fp).2.KeyedBy keys := by
    rcases acquire_cases c k fp with ⟨i, s, he, -⟩ | ⟨he, -⟩
    · rwa [he]
    · rw [he]
      exact h.link hk _
  rw [Cache.getOrBuild]
  rcases ha : c.acquire k fp with ⟨i, c₁⟩
  rw [ha] at hacquired
  dsimp only at hacquired ⊢
  split
  · exact hacquired.of_index rfl
  · split
    · exact hacquired.of_index rfl
    · unfold discard
      split
      · have hgiven : ((c₁.start i).giveUp i).KeyedBy keys := hacquired.of_index rfl
        exact (hgiven.unlink k).mono fun _ h ↦ h.1
      · exact hacquired.of_index rfl

end KeyedBy

end Keys

variable [DecidableEq K]

def stored? (c : Cache K V) (k : K) : Option (CacheEntry V) :=
  (c.slotOf? k).bind fun i ↦ (c.slot? i).bind (·.cell.stored?)

theorem getFresh_eq (c : Cache K V) (k : K) (fp : Option String) :
    (c.getFresh k fp).1 = ((c.stored? k).filter (·.isFresh fp)).map (·.value) := by
  simp only [getFresh, peek?, stored?]
  cases c.slotOf? k <;> rfl

theorem peek?_eq (c : Cache K V) (k : K) : c.peek? k none = (c.stored? k).map (·.value) := by
  simp only [peek?_none, stored?, Option.map_bind, Function.comp_def]
  rfl

theorem isSome_getFresh (c : Cache K V) (k : K) (fp : Option String) :
    (c.getFresh k fp).1.isSome = (c.stored? k).any (·.isFresh fp) := by
  rw [getFresh_eq]
  cases c.stored? k with
  | none => rfl
  | some e => cases he : e.isFresh fp <;> simp [he]

theorem stored?_unlink (c : Cache K V) (k : K) : (c.unlink k).stored? = Function.update c.stored? k none := by
  funext k'
  simp only [stored?, slotOf?_unlink, Function.update_apply, beq_iff_eq]
  split <;> rfl

theorem setCell_link (c : Cache K V) (k : K) (s : Slot V) (cell : Cell V) :
    (c.link k s).setCell c.slots.length cell = c.link k { s with cell } := by
  have hmodify (xs : List (Slot V)) (f : Slot V → Slot V) : (xs ++ [s]).modify xs.length f = xs ++ [f s] := by
    induction xs with
    | nil => rfl
    | cons x xs ih => exact congrArg (x :: ·) ih
  simp only [setCell, link, hmodify]

theorem start_link (c : Cache K V) (k : K) (fp : Option String) :
    (c.link k ⟨fp, .empty⟩).start c.slots.length = c.begun.link k ⟨fp, .running⟩ :=
  congrArg begun (setCell_link c k ⟨fp, .empty⟩ .running)

theorem finish_link (c : Cache K V) (k : K) (fp : Option String) (v : V) :
    (c.link k ⟨fp, .running⟩).finish c.slots.length v = c.set k fp v := by
  rw [finish, slot?_link, if_pos rfl]
  exact setCell_link c k _ _

theorem discard_link (c : Cache K V) (k : K) (fp : Option String) :
    ((c.link k ⟨fp, .running⟩).giveUp c.slots.length).discard k c.slots.length =
      (c.link k ⟨fp, .empty⟩).unlink k := by
  rw [giveUp, setCell_link, discard, if_pos]
  simp [slotOf?_link, value?_link, Cell.value?, Cell.stored?]

namespace Settled

section

variable (h : c.Settled)

include h

theorem unlink (k : K) : (c.unlink k).Settled :=
  h.keep filter_sublist (prefix_refl _)

theorem set (k : K) (fp : Option String) (v : V) : (c.set k fp v).Settled where
  keyed := h.keyed.link trivial _
  full x hx := by
    obtain hx | hx := mem_append.mp hx
    · obtain ⟨e, he⟩ := h.full x (mem_filter.mp hx).1
      exact ⟨e, by rw [Cache.set, slot?_link, if_neg (Nat.ne_of_lt (lt_of_getElem? he)), he]⟩
    · rw [mem_singleton.mp hx]
      exact ⟨⟨v, fp⟩, by rw [Cache.set, slot?_link, if_pos rfl]⟩

theorem failed (k : K) (fp : Option String) : ((c.link k ⟨fp, .empty⟩).unlink k).Settled := by
  have hindex : ((c.link k ⟨fp, .empty⟩).unlink k).index = (c.unlink k).index := by simp [link, Cache.unlink]
  exact h.keep (hindex ▸ filter_sublist) (prefix_append _ _)

theorem slot {i : SlotId} (hi : c.slotOf? k = some i) :
    ∃ e : CacheEntry V, c.slot? i = some ⟨e.fingerprint, .full e⟩ ∧ c.stored? k = some e := by
  obtain ⟨front, back, hindex, -⟩ := lookup_eq_some_iff.mp hi
  obtain ⟨e, he⟩ := h.full (k, i) (by simp [hindex])
  exact ⟨e, he, by rw [stored?, hi, Option.bind_some, he]; rfl⟩

theorem mem_keys (k : K) : k ∈ c.keys ↔ (c.stored? k).isSome := by
  rw [h.keys_eq]
  cases hi : c.slotOf? k with
  | none =>
    have hnone := lookup_eq_none_iff.mp hi
    rw [stored?, hi]
    refine ⟨fun hk ↦ ?_, nofun⟩
    obtain ⟨x, hx, rfl⟩ := mem_map.mp hk
    exact absurd (hnone x hx) (by simp)
  | some i =>
    obtain ⟨e, -, he⟩ := h.slot hi
    obtain ⟨front, back, hindex, -⟩ := lookup_eq_some_iff.mp hi
    simp [he, hindex]

theorem stored?_link (k : K) (s : Slot V) : (c.link k s).stored? = Function.update c.stored? k s.cell.stored? := by
  funext k'
  rw [stored?, slotOf?_link, Function.update_apply]
  by_cases hk : k' = k
  · simp [hk, slot?_link]
  · rw [if_neg (by simpa using hk), if_neg hk, stored?]
    cases hi : c.slotOf? k' with
    | none => rfl
    | some i =>
      obtain ⟨e, he, -⟩ := h.slot hi
      rw [Option.bind_some, Option.bind_some, slot?_link, if_neg (Nat.ne_of_lt (lt_of_getElem? he))]

theorem acquire (k : K) (fp : Option String) : match (c.getFresh k fp).1 with
    | some v => ∃ i, c.acquire k fp = (i, c) ∧ c.value? i = some v
    | none => c.acquire k fp = (c.slots.length, c.link k ⟨fp, .empty⟩) := by
  rw [getFresh_eq]
  obtain ⟨i, s, hacquire, hi, hs, hagrees⟩ | ⟨hacquire, hno⟩ := acquire_cases c k fp
  · obtain ⟨e, he, hentry⟩ := h.slot hi
    cases hs.symm.trans he
    rw [hentry, Option.filter_some, if_pos (show e.isFresh fp = true from hagrees)]
    exact ⟨i, hacquire, by rw [value?, he]; rfl⟩
  · have hstale : (c.stored? k).filter (·.isFresh fp) = none := by
      cases hi : c.slotOf? k with
      | none => rw [stored?, hi]; rfl
      | some i =>
        obtain ⟨e, he, hentry⟩ := h.slot hi
        rw [hentry, Option.filter_some, if_neg (by rw [CacheEntry.isFresh, hno i _ hi he]; decide)]
    rw [hstale]
    exact hacquire

theorem getOrBuild (k : K) (fp : Option String) (build : Unit → Except ε V) :
    c.getOrBuild k fp build = match (c.getFresh k fp).1, build () with
      | some v, _ => (⟨.ok v, false⟩, c.countHit)
      | none, .ok v => (⟨.ok v, true⟩, (c.begun.set k fp v).countMiss)
      | none, .error e => (⟨.error e, true⟩, (c.begun.link k ⟨fp, .empty⟩).unlink k) := by
  have hacquire := h.acquire k fp
  rw [Cache.getOrBuild]
  cases hv : (c.getFresh k fp).1 with
  | some v =>
    rw [hv] at hacquire
    obtain ⟨i, hi, hvalue⟩ := hacquire
    simp only [hi, hvalue]
  | none =>
    rw [hv] at hacquire
    simp only [hacquire, value?_link, if_pos, Cell.value?, Cell.stored?, Option.map_none, start_link]
    cases build () with
    | ok v =>
      dsimp only
      rw [← finish_link]
      rfl
    | error e =>
      dsimp only
      rw [← discard_link]
      rfl

theorem built {fp : Option String} (hstale : (c.getFresh k fp).1 = none) (build : Unit → Except ε V) :
    (c.getOrBuild k fp build).2.Settled ∧
      (c.getOrBuild k fp build).2.stored? = Function.update c.stored? k ((build ()).toOption.map (⟨·, fp⟩)) := by
  rw [h.getOrBuild, hstale]
  cases build () with
  | ok v => exact ⟨(h.begun.set k fp v).count false, h.begun.stored?_link k _⟩
  | error e =>
    refine ⟨h.begun.failed k fp, ?_⟩
    rw [stored?_unlink, h.begun.stored?_link, Function.update_idem]
    rfl

theorem peek?_built (hk : c.peek? k none = none) (fp : Option String) (build : Unit → Except ε V) :
    (c.getOrBuild k fp build).2.Settled ∧ ∀ k', (c.getOrBuild k fp build).2.peek? k' none =
      if k' == k then (build ()).toOption else c.peek? k' none := by
  have hstale : (c.getFresh k fp).1 = none := by
    rw [peek?_eq, Option.map_eq_none_iff] at hk
    rw [getFresh_eq, hk]
    rfl
  obtain ⟨hsettled, hentry⟩ := h.built hstale build
  refine ⟨hsettled, fun k' ↦ ?_⟩
  rw [peek?_eq, hentry, peek?_eq, Function.update_apply, apply_ite (Option.map _), Option.map_map]
  simp [Function.comp_def]

end

end Settled

end AnalysisServer.Cache
