namespace AnalysisServer

open List

variable {α β γ : Type} {l l' : List α} {f : α → β} {g : α → α} {a b c : α} {i j : Nat}

section

variable (h : l[i]? = some a)

include h

theorem lt_of_getElem? : i < l.length :=
  (List.getElem?_eq_some_iff.mp h).1

theorem getElem?_set_of (j : Nat) : (l.set i b)[j]? = if i = j then some b else l[j]? := by
  rw [List.getElem?_set, if_pos (lt_of_getElem? h)]

theorem getElem?_set_same : (l.set i b)[i]? = some b :=
  List.getElem?_set_self (lt_of_getElem? h)

theorem getElem?_set_cases (hc : (l.set i b)[j]? = some c) : j = i ∧ c = b ∨ j ≠ i ∧ l[j]? = some c := by
  rw [getElem?_set_of h] at hc
  split at hc
  · rename_i hij
    cases hc
    exact .inl ⟨hij.symm, rfl⟩
  · rename_i hij
    exact .inr ⟨Ne.symm hij, hc⟩

end

theorem getElem?_concat_cases (h : (l ++ [a])[i]? = some b) : l[i]? = some b ∨ (i = l.length ∧ b = a) := by
  rcases Nat.lt_trichotomy i l.length with hi | hi | hi
  · rw [List.getElem?_append_left hi] at h
    exact .inl h
  · subst hi
    rw [List.getElem?_concat_length] at h
    cases h
    exact .inr ⟨rfl, rfl⟩
  · rw [List.getElem?_eq_none (length_append ▸ hi)] at h
    cases h

theorem modify_eq_set (h : l[i]? = some a) (g : α → α) : l.modify i g = l.set i (g a) := by
  refine ext_getElem? fun j ↦ ?_
  rw [getElem?_set_of h, List.getElem?_modify]
  split
  · rename_i hij
    subst hij
    rw [h]
    rfl
  · cases l[j]? <;> rfl

theorem modify_set_of (h : l[i]? = some a) (g : α → α) : (l.set i b).modify i g = l.set i (g b) := by
  rw [modify_eq_set (getElem?_set_same h), set_set]

theorem map_modify {k : β → β} (hg : ∀ a, f (g a) = k (f a)) (i : Nat) :
    (l.modify i g).map f = (l.map f).modify i k := by
  refine ext_getElem? fun j ↦ ?_
  simp only [List.getElem?_map, List.getElem?_modify]
  cases l[j]? with
  | none => rfl
  | some a => by_cases hj : i = j <;> simp [hj, hg a]

theorem map_modify_same (hg : ∀ a, f (g a) = f a) (i : Nat) : (l.modify i g).map f = l.map f := by
  rw [map_modify (k := id) (f := f) hg, modify_id]

theorem map_set_same (h : l[i]? = some a) (hf : f b = f a) : (l.set i b).map f = l.map f := by
  obtain ⟨hlt, rfl⟩ := List.getElem?_eq_some_iff.mp h
  rw [map_set, hf, ← getElem_map f (h := by simpa using hlt), set_getElem_self]

theorem foldl_same {op : β → α → β} (k : β → γ) (h : ∀ x a, k (op x a) = k x) (l : List α) (x : β) :
    k (l.foldl op x) = k x :=
  foldlRecOn (motive := fun y ↦ k y = k x) l op rfl fun y hy a _ ↦ (h y a).trans hy

theorem getElem?_of_map (h : l'.map f = l.map f) (ha : l'[i]? = some a) : ∃ b, l[i]? = some b ∧ f b = f a := by
  have hi : (l.map f)[i]? = some (f a) := by rw [← h, List.getElem?_map, ha, Option.map_some]
  rw [List.getElem?_map] at hi
  exact Option.map_eq_some_iff.mp hi

theorem lookup_of_mem [BEq α] [LawfulBEq α] {es : List (α × β)} (h : (es.map Prod.fst).Nodup) {b : β}
    (hmem : (a, b) ∈ es) : es.lookup a = some b := by
  induction es with
  | nil => cases hmem
  | cons e es ih =>
    obtain ⟨a', b'⟩ := e
    rw [map_cons, nodup_cons] at h
    obtain he | hmem := mem_cons.mp hmem
    · cases he
      simp
    · have hne : a ≠ a' := fun he ↦ h.1 (mem_map.mpr ⟨_, hmem, he⟩)
      rw [lookup_cons, beq_false_of_ne hne]
      exact ih h.2 hmem

theorem mem_of_lookup [BEq α] [LawfulBEq α] {es : List (α × β)} {b : β} (h : es.lookup a = some b) : (a, b) ∈ es := by
  induction es with
  | nil => cases h
  | cons e es ih =>
    rw [lookup_cons] at h
    split at h
    · rename_i he
      cases h
      rw [eq_of_beq he]
      exact mem_cons_self
    · exact .tail _ (ih h)

theorem toOption_bind {ε : Type} (x : Except ε α) (f : α → Except ε β) :
    (x >>= f).toOption = x.toOption.bind fun a ↦ (f a).toOption := by
  cases x <;> rfl

end AnalysisServer
