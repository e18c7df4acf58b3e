import AnalysisServer.Proofs.Source.Lexing

namespace AnalysisServer.Source

open List

inductive Role where
  | comment
  | blank
  | code
  | skipped
deriving DecidableEq

def templateRoles : List Char → List (Char × Role)
  | [] => []
  | ['\x60'] => [('\x60', .skipped)]
  | '\\' :: c :: cs => ('\\', .skipped) :: (c, .skipped) :: templateRoles cs
  | c :: cs => (c, if c = '\n' then .blank else .code) :: templateRoles cs

def Lexeme.roles : Lexeme → List (Char × Role)
  | .literal ('\x60' :: cs) => ('\x60', .code) :: templateRoles cs
  | .literal text => text.map (·, .code)
  | .other c => [(c, if Text.isBlank c then .blank else .code)]
  | l => l.text.map (·, .comment)

def noted : Nat → List (Char × Role) → List Nat
  | _, [] => []
  | line, (c, r) :: ps => (if r = .code then [line] else []) ++ noted (line + Text.newlines [c]) ps

/-- A character stands on a line and counts as something. -/
def On (ps : List (Char × Role)) (n : Nat) (c : Char) (r : Role) : Prop :=
  ∃ before after, ps = before ++ (c, r) :: after ∧ n = 1 + Text.newlines (before.map Prod.fst)

section Characters

variable {c : Char} {cs : List Char} {ps : List (Char × Role)} {l : Lexeme} {r : Role}

theorem newlines_of_ne (h : c ≠ '\n') : Text.newlines [c] = 0 :=
  count_eq_zero_of_not_mem (by simpa using h.symm)

theorem templateRoles_plain (hc : c ≠ '\\') (hquote : c ≠ '\x60') (cs : List Char) :
    templateRoles (c :: cs) = (c, if c = '\n' then .blank else .code) :: templateRoles cs := by
  rw [templateRoles]
  · exact fun h _ ↦ hquote h
  · exact fun _ _ h ↦ absurd h hc

theorem templateRoles_append {b : Bool} {u : List Char} (h : Span .template false u b) (more : List Char) :
    templateRoles (u ++ more) = templateRoles u ++ templateRoles more := by
  generalize ha : false = a at h
  induction h with
  | nil => rfl
  | @plain _ _ _ c _ hc hnext _ ih =>
    subst ha
    obtain ⟨hquote, rfl⟩ : c ≠ '\x60' ∧ _ := by
      simpa [LiteralKind.next, LiteralKind.template, LiteralKind.stops] using hnext
    rw [cons_append, templateRoles_plain (hc rfl) hquote, ih rfl, templateRoles_plain (hc rfl) hquote]
    rfl
  | escape _ _ _ ih => simp only [cons_append, templateRoles, ih ha]

theorem fst_templateRoles (cs : List Char) : (templateRoles cs).map Prod.fst = cs := by
  fun_induction templateRoles cs <;> simp_all

theorem Lexeme.fst_roles (l : Lexeme) : l.roles.map Prod.fst = l.text := by
  fun_cases roles l <;> simp [text, fst_templateRoles, Function.comp_def]

theorem noted_append (line : Nat) (ps qs : List (Char × Role)) :
    noted line (ps ++ qs) = noted line ps ++ noted (line + Text.newlines (ps.map Prod.fst)) qs := by
  induction ps generalizing line with
  | nil => rfl
  | cons p ps ih =>
    rw [cons_append, noted, ih, noted, append_assoc, map_cons, Text.newlines_cons p.1 (ps.map _), Nat.add_assoc]

theorem mem_noted_iff {line n : Nat} : n ∈ noted line ps ↔
    ∃ before c after, ps = before ++ (c, .code) :: after ∧ n = line + Text.newlines (before.map Prod.fst) := by
  constructor
  · intro h
    induction ps generalizing line with
    | nil => cases h
    | cons p ps ih =>
      rw [noted, mem_append] at h
      obtain h | h := h
      · obtain ⟨c, r⟩ := p
        split at h
        · rename_i hr
          exact ⟨[], c, ps, by rw [nil_append, ← hr], mem_singleton.mp h⟩
        · cases h
      · obtain ⟨before, c, after, rfl, hn⟩ := ih h
        refine ⟨p :: before, c, after, rfl, ?_⟩
        rw [hn, map_cons, Text.newlines_cons p.1 (before.map _), Nat.add_assoc]
  · rintro ⟨before, c, after, rfl, rfl⟩
    rw [noted_append]
    exact mem_append_right _ (mem_append_left _ (by simp))

theorem mem_noted_line {line n : Nat} (hcs : '\n' ∉ cs) : n ∈ noted line (cs.map (·, .code)) ↔ cs ≠ [] ∧ n = line := by
  induction cs with
  | nil => simp [noted]
  | cons c cs ih =>
    obtain ⟨hc, hcs⟩ := not_or.mp (mt mem_cons.mpr hcs)
    simp only [map_cons, noted, newlines_of_ne (Ne.symm hc), Nat.add_zero, mem_append, ih hcs]
    simp +contextual [or_iff_left_of_imp]

theorem role_of_mem_templateRoles (h : (c, r) ∈ templateRoles cs) : r = .code ∨ r = .skipped ∨ c = '\n' := by
  fun_induction templateRoles cs <;> grind

theorem Lexeme.role_of_mem (h : (c, r) ∈ l.roles) (hblank : Text.isBlank c = false) (hr : r ≠ .comment) :
    r = .code ∨ r = .skipped := by
  revert h
  fun_cases roles l with
  | case1 cs =>
    intro h
    obtain h | h := mem_cons.mp h
    · cases h
      exact .inl rfl
    · obtain h | h | rfl := role_of_mem_templateRoles h
      · exact .inl h
      · exact .inr h
      · cases hblank
  | case2 text =>
    intro h
    obtain ⟨_, -, h⟩ := mem_map.mp h
    cases h
    exact .inl rfl
  | case3 c' =>
    intro h
    cases mem_singleton.mp h
    simp [hblank]
  | case4 =>
    intro h
    obtain ⟨_, -, h⟩ := mem_map.mp h
    cases h
    exact absurd rfl hr

end Characters

end AnalysisServer.Source
