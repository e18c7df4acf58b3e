import AnalysisServer.Json.Reader
import AnalysisServer.Proofs.Json.Fields

namespace AnalysisServer

namespace Json

mutual

def isUnmarked : Json → Bool
  | arr items => unmarkedItems items
  | obj fields => !isMarked fields && unmarkedFields fields
  | _ => true

def unmarkedItems : List Json → Bool
  | [] => true
  | j :: js => isUnmarked j && unmarkedItems js

def unmarkedFields : Fields → Bool
  | [] => true
  | (_, j) :: fs => isUnmarked j && unmarkedFields fs

end

theorem isSome_lookup_foldl_insert {fields acc : Fields} {n : String}
    (h : n ∈ fields.map Prod.fst ∨ (acc.lookup n).isSome) :
    ((fields.foldl (fun acc f ↦ insert f.1 f.2 acc) acc).lookup n).isSome := by
  induction fields generalizing acc with
  | nil => simpa using h
  | cons f rest ih =>
    refine ih ?_
    rw [lookup_insert]
    grind

variable {fields : Fields}

theorem eq_of_ofFields_eq_single {n : String} {v : Json}
    (h : ofFields fields = obj [(n, v)]) {f : String × Json} (hf : f ∈ fields) : f.1 = n := by
  have hfound := @isSome_lookup_foldl_insert fields [] f.1 (.inl (List.mem_map_of_mem hf))
  rw [obj.inj h, lookup_cons_eq_ite] at hfound
  by_contra hne
  rw [if_neg hne] at hfound
  cases hfound

end Json

open Json (textMark)

namespace Document

variable {read : String → Option Json}

theorem value?_obj (read : String → Option Json) (depth : Nat) (fs : List (List Char × Document)) :
    value? (some read) (depth + 1) (.obj fs) =
      if isMarked fs then (soleText? fs).bind read
      else (fields? (some read) depth fs).map Json.ofFields := by
  simp only [value?]
  cases isMarked fs <;> rfl

theorem exists_name_ne_of_fields? {inner : Option (String → Option Json)} {depth : Nat}
    {fs : List (List Char × Document)} {fields : Json.Fields} (hm : isMarked fs = false)
    (h : fields? inner depth fs = some fields) (hne : fields ≠ []) : ∃ f ∈ fields, f.1 ≠ textMark := by
  cases fs with
  | nil =>
    simp only [fields?, Option.some.injEq] at h
    exact absurd h.symm hne
  | cons f fs =>
    simp only [fields?, Option.bind_eq_bind, Option.bind_eq_some_iff, Option.some.injEq] at h
    obtain ⟨name, hname, value, -, rest, -, rfl⟩ := h
    refine ⟨(name, value), List.mem_cons_self, ?_⟩
    rintro rfl
    rw [isMarked, hname] at hm
    exact absurd hm (by simp)

-- An object that begins with the mark gives way to the value of its text, and one that does not has
-- another name.
theorem value?_ne_marked (h : ∀ text v, read text ≠ some (.obj [(textMark, v)])) (depth : Nat)
    (d : Document) (v : Json) : value? (some read) depth d ≠ some (.obj [(textMark, v)]) := by
  intro heq
  cases d with
  | null | bool | num | str => simp [value?] at heq
  | arr items => cases depth <;> simp [value?] at heq
  | obj fs =>
    cases depth with
    | zero => simp [value?] at heq
    | succ depth =>
      rw [value?_obj] at heq
      split at heq
      · obtain ⟨text, -, htext⟩ := Option.bind_eq_some_iff.mp heq
        exact h text v htext
      · rename_i hm
        obtain ⟨fields, hfields, hof⟩ := Option.map_eq_some_iff.mp heq
        have hne : fields ≠ [] := by
          rintro rfl
          cases hof
        obtain ⟨f, hf, hname⟩ := exists_name_ne_of_fields? (Bool.eq_false_iff.mpr hm) hfields hne
        exact hname (Json.eq_of_ofFields_eq_single hof hf)

end Document

namespace Json

theorem ofTextWithin_ne_marked (levels : Nat) (text : String) (v : Json) :
    ofTextWithin levels text ≠ some (obj [(textMark, v)]) := by
  induction levels generalizing text v with
  | zero => nofun
  | succ levels ih =>
    intro h
    obtain ⟨d, -, hd⟩ := Option.bind_eq_some_iff.mp h
    exact Document.value?_ne_marked ih _ d v hd

theorem bind_soleText?_ne_self (h : isMarked fields) : (soleText? fields).bind ofText? ≠ some (obj fields) := by
  intro heq
  obtain ⟨text, htext, hread⟩ := Option.bind_eq_some_iff.mp heq
  unfold soleText? at htext
  split at htext
  · rw [isMarked, beq_iff_eq] at h
    subst h
    exact ofTextWithin_ne_marked _ text _ hread
  · cases htext

mutual

theorem any?_eq_self_iff : (j : Json) → (any? j = some j ↔ isUnmarked j)
  | null | bool _ | num _ | str _ => by simp [any?, isUnmarked]
  | arr items => by simp [any?, isUnmarked, anyItems?_eq_self_iff items]
  | obj fields => by
    rw [any?, isUnmarked]
    cases hm : isMarked fields with
    | true => simpa using bind_soleText?_ne_self hm
    | false => simp [anyFields?_eq_self_iff fields]

theorem anyItems?_eq_self_iff : (js : List Json) → (anyItems? js = some js ↔ unmarkedItems js)
  | [] => by simp [anyItems?, unmarkedItems]
  | j :: js => by
    simp [anyItems?, unmarkedItems, ← any?_eq_self_iff j, ← anyItems?_eq_self_iff js, Option.bind_eq_some_iff]

theorem anyFields?_eq_self_iff : (fs : Fields) → (anyFields? fs = some fs ↔ unmarkedFields fs)
  | [] => by simp [anyFields?, unmarkedFields]
  | (n, j) :: fs => by
    simp [anyFields?, unmarkedFields, ← any?_eq_self_iff j, ← anyFields?_eq_self_iff fs, Option.bind_eq_some_iff]

end

end Json

end AnalysisServer
