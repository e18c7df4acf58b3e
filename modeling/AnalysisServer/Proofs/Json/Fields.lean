import AnalysisServer.Json.Basic
import Mathlib.Data.List.Basic

namespace AnalysisServer.Json

theorem lookup_cons_eq_ite (n name : String) (value : Json) (fields : Fields) :
    List.lookup n ((name, value) :: fields) = if n = name then some value else fields.lookup n := by
  rw [List.lookup_cons]
  split <;> simp_all

theorem lookup_insert (n name : String) (value : Json) (fields : Fields) :
    (insert name value fields).lookup n = if n = name then some value else fields.lookup n := by
  induction fields with
  | nil => exact lookup_cons_eq_ite n name value []
  | cons f rest ih =>
    obtain ⟨name', v⟩ := f
    simp only [insert]
    split
    · exact lookup_cons_eq_ite n name value _
    · split
      · rename_i heq
        subst heq
        grind [lookup_cons_eq_ite]
      · grind [lookup_cons_eq_ite]

theorem get?_ofFields_concat (fields : Fields) (name n : String) (value : Json) :
    (ofFields (fields ++ [(name, value)])).get? n =
      if n = name then some value else (ofFields fields).get? n := by
  simp only [ofFields, List.foldl_append, get?]
  exact lookup_insert n name value _

theorem lookup_optionalField {α : Type} (n name : String) (f : α → Json) (o : Option α) :
    (optionalField name f o).lookup n = if n = name then o.map f else none := by
  cases o with
  | none => simp [optionalField]
  | some a => exact lookup_cons_eq_ite n name (f a) []

variable {fields : Fields}

theorem perm_insert {name : String} (h : name ∉ fields.map Prod.fst) (value : Json) :
    (insert name value fields).Perm ((name, value) :: fields) := by
  induction fields with
  | nil => exact .refl _
  | cons f rest ih =>
    obtain ⟨hne, hrest⟩ := not_or.mp (mt List.mem_cons.mpr h)
    rw [insert, if_neg hne]
    split
    · exact .refl _
    · exact ((ih hrest).cons f).trans (.swap _ _ _)

theorem exists_ofFields (h : (fields.map Prod.fst).Nodup) :
    ∃ kept, ofFields fields = obj kept ∧ kept.Perm fields := by
  have hfold (fields acc : Fields) (h : ((acc ++ fields).map Prod.fst).Nodup) :
      (fields.foldl (fun acc f ↦ insert f.1 f.2 acc) acc).Perm (acc ++ fields) := by
    induction fields generalizing acc with
    | nil => simp
    | cons f rest ih =>
      have hmove : (insert f.1 f.2 acc ++ rest).Perm (acc ++ f :: rest) := by
        refine ((perm_insert (fun hf ↦ ?_) f.2).append_right rest).trans List.perm_middle.symm
        rw [List.map_append] at h
        exact (List.nodup_append.mp h).2.2 _ hf _ (List.mem_map_of_mem (.head _)) rfl
      exact (ih _ ((hmove.map Prod.fst).nodup_iff.mpr h)).trans hmove
  exact ⟨_, rfl, hfold fields [] h⟩

end AnalysisServer.Json
