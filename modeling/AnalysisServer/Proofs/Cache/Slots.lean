import AnalysisServer.Cache.Basic
import AnalysisServer.Proofs.Lists

namespace AnalysisServer.Cache

variable {K V : Type} {c : Cache K V} {i : SlotId}

@[simp] theorem slots_count (c : Cache K V) (hit : Bool) : (c.count hit).slots = c.slots := by
  cases hit <;> rfl

@[simp] theorem slot?_count (c : Cache K V) (hit : Bool) (i : SlotId) : (c.count hit).slot? i = c.slot? i := by
  cases hit <;> rfl

theorem slot?_setCell (c : Cache K V) (i j : SlotId) (cell : Cell V) : (c.setCell i cell).slot? j =
      if i = j then (c.slot? j).map fun s ↦ { s with cell } else c.slot? j := by
  simp only [setCell, slot?, List.getElem?_modify]
  split <;> simp

@[simp] theorem slots_setCell (c : Cache K V) (i : SlotId) (cell : Cell V) :
    (c.setCell i cell).slots.length = c.slots.length := by
  simp [setCell]

theorem isFresh_none (e : CacheEntry V) : e.isFresh none = true := by
  unfold CacheEntry.isFresh
  cases e.fingerprint <;> rfl

theorem freshValue?_none (c : Cache K V) (i : SlotId) : c.freshValue? i none = c.value? i := by
  have hfilter (o : Option (CacheEntry V)) : o.filter (·.isFresh none) = o := by
    cases o <;> simp [isFresh_none]
  rw [freshValue?, hfilter, Option.map_bind]
  rfl

variable [BEq K]

@[simp] theorem slotOf?_count (c : Cache K V) (hit : Bool) (k : K) : (c.count hit).slotOf? k = c.slotOf? k := by
  cases hit <;> rfl

@[simp] theorem slotOf?_setCell (c : Cache K V) (i : SlotId) (cell : Cell V) (k : K) :
    (c.setCell i cell).slotOf? k = c.slotOf? k := rfl

theorem slots_link (c : Cache K V) (k : K) (s : Slot V) : (c.link k s).slots = c.slots ++ [s] := rfl

theorem slot?_link (c : Cache K V) (k : K) (s : Slot V) (i : SlotId) :
    (c.link k s).slot? i = if i = c.slots.length then some s else c.slot? i := by
  simp only [slot?, slots_link]
  by_cases hi : i < c.slots.length
  · rw [List.getElem?_append_left hi, if_neg (Nat.ne_of_lt hi)]
  · rw [List.getElem?_append_right (Nat.le_of_not_lt hi)]
    by_cases he : i = c.slots.length
    · simp [he]
    · have hlt : c.slots.length < i := Nat.lt_of_le_of_ne (Nat.le_of_not_lt hi) (Ne.symm he)
      rw [if_neg he, List.getElem?_eq_none (Nat.sub_pos_of_lt hlt), List.getElem?_eq_none (Nat.le_of_lt hlt)]

theorem value?_link (c : Cache K V) (k : K) (s : Slot V) (i : SlotId) :
    (c.link k s).value? i = if i = c.slots.length then s.cell.value? else c.value? i := by
  simp only [value?, slot?_link]
  split <;> rfl

theorem peek?_none (c : Cache K V) (k : K) : c.peek? k none = (c.slotOf? k).bind c.value? := by
  simp only [peek?, freshValue?_none]

variable [LawfulBEq K]

theorem lookup_filter_key (es : List (K × SlotId)) (k k' : K) :
    (es.filter fun e ↦ !(e.1 == k)).lookup k' = if k' == k then none else es.lookup k' := by
  induction es with
  | nil => simp
  | cons e es ih =>
    obtain ⟨a, i⟩ := e
    by_cases ha : a = k
    · subst ha
      simp only [beq_self_eq_true, Bool.not_true, Bool.false_eq_true, not_false_eq_true,
        List.filter_cons_of_neg, ih, List.lookup_cons]
      cases k' == a <;> rfl
    · have hf : (a == k) = false := by simpa using ha
      simp only [hf, Bool.not_false, List.filter_cons_of_pos, List.lookup_cons, ih]
      by_cases hk : k' = a
      · subst hk; simp [hf]
      · have : (k' == a) = false := by simpa using hk
        simp [this]

theorem slotOf?_unlink (c : Cache K V) (k k' : K) :
    (c.unlink k).slotOf? k' = if k' == k then none else c.slotOf? k' :=
  lookup_filter_key c.index k k'

theorem slotOf?_link (c : Cache K V) (k k' : K) (s : Slot V) :
    (c.link k s).slotOf? k' = if k' == k then some c.slots.length else c.slotOf? k' := by
  have h := slotOf?_unlink c k k'
  simp only [slotOf?] at h
  simp only [slotOf?, link, List.lookup_append, h]
  by_cases hk : k' = k
  · subst hk; simp
  · have : (k' == k) = false := by simpa using hk
    simp [this, List.lookup_cons]

omit [LawfulBEq K] in
theorem acquire_cases (c : Cache K V) (k : K) (fp : Option String) :
    (∃ i s, c.acquire k fp = (i, c) ∧ c.slotOf? k = some i ∧ c.slot? i = some s ∧ agrees s.fingerprint fp) ∨
    (c.acquire k fp = (c.slots.length, c.link k ⟨fp, .empty⟩) ∧
      ∀ i s, c.slotOf? k = some i → c.slot? i = some s → agrees s.fingerprint fp = false) := by
  cases hk : c.slotOf? k with
  | none => exact .inr ⟨by simp [acquire, hk], by simp⟩
  | some i =>
    cases hs : c.slot? i with
    | none =>
      refine .inr ⟨by simp [acquire, hk, hs, Option.filter], ?_⟩
      rintro j t hj ht
      cases hj
      cases hs.symm.trans ht
    | some s =>
      cases ha : agrees s.fingerprint fp with
      | false =>
        refine .inr ⟨by simp [acquire, hk, hs, ha, Option.filter], ?_⟩
        rintro j t hj ht
        cases hj
        cases hs.symm.trans ht
        exact ha
      | true => exact .inl ⟨i, s, by simp [acquire, hk, hs, ha, Option.filter], rfl, hs, ha⟩

/-- Every key leads to a slot that is there, and no two keys to the same one. -/
structure Sound (c : Cache K V) : Prop where
  inRange : ∀ {k i}, c.slotOf? k = some i → i < c.slots.length
  own : ∀ {k k' i}, c.slotOf? k = some i → c.slotOf? k' = some i → k = k'

namespace Sound

omit [LawfulBEq K] in
theorem empty : Sound ({} : Cache K V) :=
  ⟨fun h ↦ by simp [slotOf?] at h, fun h ↦ by simp [slotOf?] at h⟩

omit [LawfulBEq K] in
theorem of_eq {c c' : Cache K V} (h : Sound c) (hk : ∀ k, c'.slotOf? k = c.slotOf? k)
    (hl : c'.slots.length = c.slots.length) : Sound c' := by
  constructor
  · intro k i hi
    rw [hl]
    exact h.inRange (hk k ▸ hi)
  · intro k k' i hi hi'
    exact h.own (hk k ▸ hi) (hk k' ▸ hi')

omit [LawfulBEq K] in
theorem count {c : Cache K V} (h : Sound c) (hit : Bool) : Sound (c.count hit) :=
  h.of_eq (slotOf?_count c hit) (by simp)

omit [LawfulBEq K] in
theorem setCell (h : Sound c) (i : SlotId) (cell : Cell V) : Sound (c.setCell i cell) :=
  h.of_eq (slotOf?_setCell c i cell) (by simp)

omit [LawfulBEq K] in
theorem start {c : Cache K V} (h : Sound c) (i : SlotId) : Sound (c.start i) :=
  (h.setCell i .running).of_eq (fun _ ↦ rfl) rfl

theorem unlink (h : Sound c) (k : K) : Sound (c.unlink k) := by
  constructor
  · intro k' i hk
    rw [slotOf?_unlink] at hk
    split at hk
    · cases hk
    · exact h.inRange hk
  · intro k₁ k₂ i h₁ h₂
    rw [slotOf?_unlink] at h₁ h₂
    split at h₁
    · cases h₁
    · split at h₂
      · cases h₂
      · exact h.own h₁ h₂

theorem link (h : Sound c) (k : K) (s : Slot V) : Sound (c.link k s) := by
  constructor
  · intro k' i hk
    rw [slotOf?_link] at hk
    rw [slots_link, List.length_append, List.length_singleton]
    split at hk
    · cases hk
      exact Nat.lt_succ_self _
    · exact Nat.lt_succ_of_lt (h.inRange hk)
  · intro k₁ k₂ i h₁ h₂
    rw [slotOf?_link] at h₁ h₂
    -- An old slot is in range and the new one is not, so the two never meet.
    split at h₁ <;> split at h₂
    · simp_all
    · cases h₁
      exact absurd (h.inRange h₂) (Nat.lt_irrefl _)
    · cases h₂
      exact absurd (h.inRange h₁) (Nat.lt_irrefl _)
    · exact h.own h₁ h₂

theorem acquire {c : Cache K V} (h : Sound c) (k : K) (fp : Option String) : Sound (c.acquire k fp).2 := by
  rcases acquire_cases c k fp with ⟨i, s, he, _⟩ | ⟨he, _⟩
  · rw [he]; exact h
  · rw [he]; exact h.link k _

end Sound

end AnalysisServer.Cache
