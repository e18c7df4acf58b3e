import AnalysisServer.Proofs.Source.Brackets
import AnalysisServer.Proofs.Source.Roles

/-!
The scanner goes through a source lexeme by lexeme: after each one it is between two lexemes again, with the
brackets on its stack that are open, and has noted the lines with code.
-/

namespace AnalysisServer.Source

open List

open Lexeme (comment literal mark other roles)

open Text (isAsciiLetter isBlank newlines newlines_cons startsWith)

open LiteralKind (lexeme regex stops template)

def Notes (before ns after : List Nat) : Prop :=
  ∀ n, n ∈ after ↔ n ∈ before ∨ n ∈ ns

theorem Notes.refl (before : List Nat) : Notes before [] before := by
  simp [Notes]

theorem Notes.trans {a b c ns ms : List Nat} (h : Notes a ns b) (h' : Notes b ms c) : Notes a (ns ++ ms) c := by
  intro n
  rw [h', h, mem_append, or_assoc]

theorem Notes.congr {a b ns ms : List Nat} (h : Notes a ns b) (he : ∀ n, n ∈ ns ↔ n ∈ ms) : Notes a ms b := by
  intro n
  rw [h, he]

theorem Notes.of_mem {before ns : List Nat} (h : ∀ n ∈ ns, n ∈ before) : Notes before ns before :=
  fun n ↦ (or_iff_left_of_imp (h n)).symm

theorem State.exists_addLine (s : State) :
    ∃ codeLines, s.addLine = { s with codeLines } ∧ Notes s.codeLines [s.line] codeLines := by
  unfold addLine
  split
  · rename_i h
    exact ⟨s.codeLines, rfl, .of_mem (by simpa using mem_of_mem_head? h)⟩
  · exact ⟨_, rfl, fun n ↦ by simp [or_comm]⟩

theorem State.exists_code (s : State) (c : Char) :
    ∃ codeLines, s.code c = { s with codeLines, last := some c } ∧ Notes s.codeLines [s.line] codeLines := by
  obtain ⟨codeLines, h, hnotes⟩ := s.exists_addLine
  exact ⟨codeLines, by rw [code, h], hnotes⟩

theorem State.advance_eq (s : State) (c : Char) : s.advance c = { s with line := s.line + newlines [c] } := by
  unfold advance
  split
  · rename_i h
    rw [h]
    rfl
  · rename_i h
    rw [newlines_of_ne h]
    rfl

def Grammar.dialect (g : Grammar) : Dialect :=
  if g.script then .script else .style

section Steps

variable {g : Grammar} {last : Option Char} {s s' : State} {c : Char} {cs rest : List Char}

theorem run_cons (h : step g.dialect s c rest = .ok s') : run g.dialect s (c :: rest) = run g.dialect s' rest := by
  rw [run, h]

theorem regexMayFollow_eq (last : Option Char) : regexMayFollow last = last.all operators.contains := by
  cases last with
  | none => rfl
  | some c =>
    rfl

def otherStep (s : State) (c : Char) : Except AnalysisError State :=
  if isBlank c then .ok (s.advance c)
  else if isOpening c then .ok { s.code c with brackets := (c, s.line) :: s.brackets }
  else if isClosing c then (closeBracket s c).map (·.code c)
  else .ok (s.code c)

def LiteralKind.mode (k : LiteralKind) (line : Nat) (inClass : Bool) : Mode :=
  if k.classes then .regex inClass else if k.oneLine then .string k.quote else .template line

def openStep (s : State) (c : Char) : Opening → Except AnalysisError State
  | .lineComment => .ok { s with mode := .lineComment s.line [], skip := 1 }
  | .blockComment => .ok { s with mode := .blockComment s.line [], skip := 1 }
  | .literal k => .ok { s.code k.quote with mode := k.mode s.line false }
  | .other => otherStep s c

theorem startsWith_iff (front cs : List Char) : startsWith front cs = true ↔ front <+: cs := by
  unfold startsWith
  fun_induction Text.dropFront? front cs with
  | case1 cs | case2 p ps => simp
  | case3 ps c cs ih => rw [ih, cons_prefix_cons, eq_self, true_and]
  | case4 p ps c cs hne => simp [cons_prefix_cons, hne]

theorem not_startsWith_two {a b : Char} (h : ∀ tail, cs = a :: b :: tail → False) : startsWith [a, b] cs = false := by
  rw [← Bool.not_eq_true, startsWith_iff]
  rintro ⟨tail, rfl⟩
  exact h tail rfl

theorem codeStep_plain (hblock : ∀ tail, c :: rest = '/' :: '*' :: tail → False)
    (hline : ∀ tail, c :: rest = '/' :: '/' :: tail → False) :
    codeStep g.dialect s c rest = plainStep g.dialect s c := by
  unfold Grammar.dialect
  split <;>
    simp [codeStep, Dialect.script, Dialect.style, Option.filter, not_startsWith_two hblock, not_startsWith_two hline]

theorem codeStep_eq (hlast : regexMayFollow s.last = last.all operators.contains) :
    codeStep g.dialect s c rest = openStep s c (opening g last (c :: rest)) := by
  have hscript (h : g.script = true) : g.dialect = .script := if_pos h
  have hstyle (h : ¬ g.script = true) : g.dialect = .style := if_neg h
  generalize hcs : c :: rest = cs
  fun_cases opening g last cs with
  | case1 | case6 | case7 =>
    cases hcs
    unfold Grammar.dialect
    split <;> rfl
  | case2 tail h | case8 tail h =>
    cases hcs
    rw [hscript h]
    rfl
  | case3 tail h | case9 tail h =>
    cases hcs
    rw [hstyle h]
    rfl
  | case4 tail hblock hline h =>
    cases hcs
    rw [codeStep_plain (by simpa using hblock) (by simpa using hline)]
    rw [Bool.and_eq_true] at h
    rw [hscript h.1, plainStep, hlast, h.2]
    rfl
  | case5 tail hblock hline h =>
    cases hcs
    rw [codeStep_plain (by simpa using hblock) (by simpa using hline)]
    by_cases hs : g.script = true
    · rw [hs, Bool.true_and, Bool.not_eq_true] at h
      rw [hscript hs, plainStep, hlast, h]
      rfl
    · rw [hstyle hs]
      rfl
  | case10 _ hblock hline hslash hdouble hsingle htick =>
    subst hcs
    have hne {x} (h : ∀ tail, c :: rest = x :: tail → False) : (c == x) = false :=
      beq_false_of_ne fun hc ↦ h rest (hc ▸ rfl)
    rw [codeStep_plain hblock hline]
    unfold Grammar.dialect
    split <;>
      simp [plainStep, openStep, otherStep, Dialect.script, Dialect.style, hne hslash, hne hdouble, hne hsingle,
        hne htick]

end Steps

/-- The scanner in some mode, not between the two halves of a mark or an escape. -/
structure At (s : State) (mode : Mode) (line : Nat) (st : List (Char × Nat)) (last : Option Char) : Prop where
  mode : s.mode = mode
  skip : s.skip = 0
  line : s.line = line
  brackets : s.brackets = st
  last : s.last = last

/-- The scanner goes along with a literal that has begun at a line, and leaves it when the literal ends. -/
structure Follows (g : Grammar) (k : LiteralKind) (start : Nat) : Prop where
  plain : ∀ {s a a' c line st last} (rest : List Char), At s (k.mode start a) line st last →
    (a = true → k.classes = true) → c ≠ '\\' → k.next a c = some a' →
    ∃ s', step g.dialect s c rest = .ok s' ∧ At s' (k.mode start a') (line + newlines [c]) st last ∧
      Notes s.codeLines (if k.oneLine = true ∨ c = '\n' then [] else [line]) s'.codeLines
  escape : ∀ {s a c line st last} (rest : List Char), At s (k.mode start a) line st last → k.stops c = false →
    step g.dialect s '\\' (c :: rest) = .ok { s with skip := 1 }
  lone : ∀ {s a line st last} {rest : List Char}, At s (k.mode start a) line st last → StopsBefore k.stops rest →
    step g.dialect s '\\' rest = .ok { s with skip := if k.oneLine then 0 else 1 }
  close : ∀ {s line st} (rest : List Char), At s (k.mode start false) line st (some k.quote) → ∃ s' mode last,
    step g.dialect s k.quote rest = .ok s' ∧ At s' mode line st last ∧ s'.codeLines = s.codeLines ∧
      (mode = .code ∨ mode = .flags ∧ k.oneLine = true) ∧ regexMayFollow last = false

section Modes

variable {g : Grammar} {s : State} {mode : Mode} {line : Nat} {st : List (Char × Nat)}
  {last : Option Char} {c : Char} {rest : List Char} {k : LiteralKind} {start : Nat}

theorem step_skip (h : s.skip = 1) : step g.dialect s c rest = .ok { s.advance c with skip := 0 } := by
  unfold step
  rw [if_pos (by omega), h]

theorem escapeLength_cons (h : c ≠ '\n') (rest : List Char) : escapeLength (c :: rest) = 1 := by
  unfold escapeLength
  split
  · contradiction
  · rename_i heq
    exact absurd (List.cons.inj heq).1 h
  · rfl

theorem StopsBefore.endsLine (h : StopsBefore k.stops rest) : StopsBefore (· == '\n') rest :=
  fun c hc ↦ (Bool.and_eq_true_iff.mp (h c hc)).2

theorem escapeLength_endsLine (h : StopsBefore (· == '\n') rest) : escapeLength rest = 0 := by
  cases rest with
  | nil => rfl
  | cons c rest =>
    obtain rfl : c = '\n' := by simpa using h c rfl
    rfl

theorem LiteralKind.next_eq_some {a a' : Bool} (h : k.next a c = some a') :
    k.stops c = false ∧ ¬ (c = k.quote ∧ a = false) ∧
      a' = if k.classes = true ∧ c = '[' then true else if k.classes = true ∧ c = ']' then false else a := by
  simp only [next, Option.ite_none_left_eq_some, not_or, Bool.not_eq_true] at h
  obtain ⟨⟨hstops, hquote⟩, h⟩ := h
  refine ⟨hstops, hquote, ?_⟩
  split at h
  · rw [if_pos ‹_›]
    exact (Option.some.inj h).symm
  · rw [if_neg ‹_›]
    split at h
    · rw [if_pos ‹_›]
      exact (Option.some.inj h).symm
    · rw [if_neg ‹_›]
      exact (Option.some.inj h).symm

theorem follows_string (g : Grammar) {quote : Char} (hquote : quote ≠ '\n' ∧ quote ≠ '\\')
    (hregex : regexMayFollow (some quote) = false) (start : Nat) : Follows g { quote } start where
  plain {s a a' c line st last} rest hs ha hc hnext := by
    obtain ⟨hstops, hend, -⟩ := LiteralKind.next_eq_some hnext
    obtain rfl : a = false := Bool.eq_false_iff.mpr fun h ↦ nomatch ha h
    have hline : c ≠ '\n' := by simpa [stops] using hstops
    have hne : c ≠ quote := by simpa using hend
    have hmode : s.mode = .string quote := hs.mode
    refine ⟨s, ?_, ?_, .refl _⟩
    · simp [step, hs.skip, hmode, hline, hc, hne]
    · rwa [newlines_of_ne hline]
  escape {s a c line st last} rest hs hstops := by
    have hline : c ≠ '\n' := by simpa [stops] using hstops
    have hmode : s.mode = .string quote := hs.mode
    simp [step, hs.skip, hmode, escapeLength_cons hline]
  lone {s a line st last rest} hs hrest := by
    have hmode : s.mode = .string quote := hs.mode
    simp [step, hs.skip, hmode, escapeLength_endsLine hrest.endsLine]
  close {s line st} rest hs := by
    have hmode : s.mode = .string quote := hs.mode
    refine ⟨{ s with mode := .code }, .code, some quote, ?_, ⟨rfl, hs.skip, hs.line, hs.brackets, hs.last⟩, rfl,
      .inl rfl, hregex⟩
    simp [step, hs.skip, hmode, hquote.1, hquote.2]

theorem follows_template (g : Grammar) (start : Nat) : Follows g .template start where
  plain {s a a' c line st last} rest hs ha hc hnext := by
    obtain ⟨-, hend, -⟩ := LiteralKind.next_eq_some hnext
    obtain rfl : a = false := Bool.eq_false_iff.mpr fun h ↦ by cases ha h
    have hne : c ≠ '\x60' := by simpa [template] using hend
    have hmode : s.mode = .template start := hs.mode
    by_cases hline : c = '\n'
    · refine ⟨s.advance c, ?_, ?_⟩
      · simp [step, hs.skip, hmode, hline]
      · rw [s.advance_eq, if_pos (.inr hline)]
        exact ⟨⟨hs.mode, hs.skip, by rw [hs.line], hs.brackets, hs.last⟩, .refl _⟩
    · obtain ⟨codeLines, hadd, hnotes⟩ := s.exists_addLine
      refine ⟨s.addLine, ?_, ?_⟩
      · simp [step, hs.skip, hmode, hc, hne, hline]
      · rw [newlines_of_ne hline, hadd, if_neg (not_or.mpr ⟨by rintro ⟨⟩, hline⟩), ← hs.line]
        exact ⟨⟨hs.mode, hs.skip, rfl, hs.brackets, hs.last⟩, hnotes⟩
  escape {s a c line st last} rest hs hstops := by
    have hmode : s.mode = .template start := hs.mode
    simp [step, hs.skip, hmode]
  lone {s a line st last rest} hs hrest := by
    have hmode : s.mode = .template start := hs.mode
    simp [step, hs.skip, hmode, template]
  close {s line st} rest hs := by
    have hmode : s.mode = .template start := hs.mode
    refine ⟨{ s with mode := .code, last := some '\x60' }, .code, some '\x60', ?_,
      ⟨rfl, hs.skip, hs.line, hs.brackets, rfl⟩, rfl, .inl rfl, by decide⟩
    simp [step, hs.skip, hmode, template]

theorem follows_regex (g : Grammar) (start : Nat) : Follows g (.regex true) start where
  plain {s a a' c line st last} rest hs _ hc hnext := by
    obtain ⟨hstops, hend, rfl⟩ := LiteralKind.next_eq_some hnext
    have hline : c ≠ '\n' := by simpa [stops, regex] using hstops
    have hslash : ¬ (c = '/' ∧ a = false) := hend
    have hmode : s.mode = .regex a := hs.mode
    rw [newlines_of_ne hline]
    by_cases hopen : c = '['
    · refine ⟨{ s with mode := .regex true }, ?_, ⟨?_, hs.skip, hs.line, hs.brackets, hs.last⟩, .refl _⟩
      · simp [step, hs.skip, hmode, hopen]
      · rw [if_pos ⟨rfl, hopen⟩]
        rfl
    · by_cases hclose : c = ']'
      · refine ⟨{ s with mode := .regex false }, ?_, ⟨?_, hs.skip, hs.line, hs.brackets, hs.last⟩, .refl _⟩
        · simp [step, hs.skip, hmode, hclose]
        · rw [if_neg fun h ↦ hopen h.2, if_pos ⟨rfl, hclose⟩]
          rfl
      · rw [if_neg fun h ↦ hopen h.2, if_neg fun h ↦ hclose h.2]
        refine ⟨s, ?_, hs, .refl _⟩
        simp [step, hs.skip, hmode, hline, hc, hopen, hclose, hslash]
  escape {s a c line st last} rest hs hstops := by
    have hline : c ≠ '\n' := by simpa [stops, regex] using hstops
    have hmode : s.mode = .regex a := hs.mode
    simp [step, hs.skip, hmode, escapeLength_cons hline]
  lone {s a line st last rest} hs hrest := by
    have hmode : s.mode = .regex a := hs.mode
    simp [step, hs.skip, hmode, escapeLength_endsLine hrest.endsLine, regex]
  close {s line st} rest hs := by
    have hmode : s.mode = .regex false := hs.mode
    refine ⟨{ s with mode := .flags, last := some 'r' }, .flags, some 'r', ?_,
      ⟨rfl, hs.skip, hs.line, hs.brackets, rfl⟩, rfl, .inr ⟨rfl, rfl⟩, by decide⟩
    simp [step, hs.skip, hmode, regex]

def kinds : List LiteralKind :=
  [{ quote := '"' }, { quote := '\'' }, .template, .regex true]

theorem follows_of_mem (hk : k ∈ kinds) (g : Grammar) (start : Nat) : Follows g k start := by
  simp only [kinds, mem_cons, not_mem_nil, or_false] at hk
  obtain rfl | rfl | rfl | rfl := hk
  · exact follows_string g (by decide) (by decide) start
  · exact follows_string g (by decide) (by decide) start
  · exact follows_template g start
  · exact follows_regex g start

/-- What is inside a literal, where it is not all on the line of the first quote. -/
def LiteralKind.inside (k : LiteralKind) (text : List Char) : List (Char × Role) :=
  if k.oneLine then [] else templateRoles text

theorem LiteralKind.noted_inside {a a' : Bool} (line : Nat)
    (hk : k.oneLine = true ∨ k = .template) (ha : a = true → k.classes = true) (hc : c ≠ '\\')
    (hnext : k.next a c = some a') (cs : List Char) :
    noted line (k.inside (c :: cs)) =
      (if k.oneLine = true ∨ c = '\n' then [] else [line]) ++ noted (line + newlines [c]) (k.inside cs) := by
  obtain hk | rfl := hk
  · simp [inside, hk, noted]
  · obtain rfl : a = false := Bool.eq_false_iff.mpr fun h ↦ by cases ha h
    have hquote : c ≠ '\x60' := fun h ↦ (next_eq_some hnext).2.1 ⟨h, rfl⟩
    have hinside (cs : List Char) : inside .template cs = templateRoles cs := rfl
    rw [hinside, hinside, templateRoles_plain hc hquote, noted]
    by_cases hline : c = '\n' <;> simp [hline, template]

theorem run_span (hfollows : Follows g k start) (hk : k.escapes = true)
    (hkind : k.oneLine = true ∨ k = .template) {a b : Bool} {u : List Char} (h : Span k a u b)
    (ha : a = true → k.classes = true) (hs : At s (k.mode start a) line st last) (rest : List Char) :
    ∃ s', run g.dialect s (u ++ rest) = run g.dialect s' rest ∧ At s' (k.mode start b) (line + newlines u) st last ∧
      Notes s.codeLines (noted line (k.inside u)) s'.codeLines := by
  induction h generalizing s line with
  | nil a =>
    refine ⟨s, rfl, hs, ?_⟩
    rw [show noted line (k.inside []) = [] by unfold LiteralKind.inside; split <;> rfl]
    exact .refl _
  | @plain _ _ _ c cs hc hnext _ ih =>
    obtain ⟨s₁, hstep, hs₁, hnotes⟩ := hfollows.plain (cs ++ rest) hs ha (hc hk) hnext
    have hnoted := LiteralKind.noted_inside line hkind ha (hc hk) hnext cs
    obtain ⟨-, -, rfl⟩ := LiteralKind.next_eq_some hnext
    obtain ⟨s', hrun, hs', hnotes'⟩ := ih (by grind) hs₁
    refine ⟨s', (run_cons hstep).trans hrun, ?_, hnoted ▸ hnotes.trans hnotes'⟩
    rw [newlines_cons, ← Nat.add_assoc]
    exact hs'
  | @escape a _ c cs _ hc _ ih =>
    have hstep := hfollows.escape (cs ++ rest) hs hc
    have hs₁ : At { State.advance { s with skip := 1 } c with skip := 0 } (k.mode start a)
        (line + newlines [c]) st last := by
      rw [State.advance_eq]
      exact ⟨hs.mode, rfl, by rw [hs.line], hs.brackets, hs.last⟩
    obtain ⟨s', hrun, hs', hnotes⟩ := ih ha hs₁
    refine ⟨s', (run_cons hstep).trans ((run_cons (step_skip rfl)).trans hrun), ?_, ?_⟩
    · rw [newlines_cons, newlines_cons c, newlines_of_ne (by decide), Nat.zero_add, ← Nat.add_assoc]
      exact hs'
    · rw [State.advance_eq] at hnotes
      have hnoted : noted line (k.inside ('\\' :: c :: cs)) = noted (line + newlines [c]) (k.inside cs) := by
        unfold LiteralKind.inside
        split
        · rfl
        · simp [templateRoles, noted, newlines_of_ne]
      exact hnoted ▸ hnotes

variable {body : List Char} {ls : List Lexeme}

theorem run_lineComment {text : List Char} (hbody : '\n' ∉ body)
    (hs : At s (.lineComment start text) line st last) (rest : List Char) : ∃ s' text',
    run g.dialect s (body ++ rest) = run g.dialect s' rest ∧ At s' (.lineComment start text') line st last ∧
      s'.codeLines = s.codeLines := by
  induction body generalizing s text with
  | nil => exact ⟨s, text, rfl, hs, rfl⟩
  | cons c cs ih =>
    obtain ⟨hc, hcs⟩ := not_or.mp (mt mem_cons.mpr hbody)
    have hstep : step g.dialect s c (cs ++ rest) = .ok { s with mode := .lineComment start (c :: text) } := by
      simp [step, hs.skip, hs.mode, Ne.symm hc]
    have hs₁ : At { s with mode := .lineComment start (c :: text) } (.lineComment start (c :: text)) line st last :=
      ⟨rfl, hs.skip, hs.line, hs.brackets, hs.last⟩
    obtain ⟨s', text', hrun, hs'⟩ := ih hcs hs₁
    exact ⟨s', text', (run_cons hstep).trans hrun, hs'⟩

theorem blockComment_dialect (g : Grammar) : g.dialect.blockComment = some (['/', '*'], endMark) := by
  unfold Grammar.dialect
  split <;> rfl

theorem run_blockComment {start : Nat} {text body : List Char} (rest : List Char)
    (hbody : ¬ endMark <:+: body ++ rest.take 1) (hs : At s (.blockComment start text) line st last) : ∃ s' text',
    run g.dialect s (body ++ rest) = run g.dialect s' rest ∧
      At s' (.blockComment start text') (line + newlines body) st last ∧ s'.codeLines = s.codeLines := by
  induction body generalizing s text line with
  | nil => exact ⟨s, text, rfl, hs, rfl⟩
  | cons c cs ih =>
    rw [cons_append, infix_cons_iff, not_or] at hbody
    have hmark : startsWith endMark (c :: (cs ++ rest)) = false := by
      rw [← Bool.not_eq_true, startsWith_iff]
      intro hfront
      refine hbody.1 ?_
      match cs, rest with
      | [], [] => exact hfront
      | [], _ :: _ => simpa [cons_prefix_cons] using hfront
      | _ :: _, _ => simpa [cons_prefix_cons] using hfront
    have hstep : step g.dialect s c (cs ++ rest) =
        .ok { s.advance c with mode := .blockComment start (c :: text) } := by
      simp [step, hs.skip, hs.mode, blockComment_dialect, hmark]
    have hs₁ : At { s.advance c with mode := .blockComment start (c :: text) } (.blockComment start (c :: text))
        (line + newlines [c]) st last := by
      rw [State.advance_eq]
      exact ⟨rfl, hs.skip, by rw [hs.line], hs.brackets, hs.last⟩
    obtain ⟨s', text', hrun, hs', hlines⟩ := ih hbody.2 hs₁
    refine ⟨s', text', (run_cons hstep).trans hrun, ?_, ?_⟩
    · rw [newlines_cons, ← Nat.add_assoc]
      exact hs'
    · rw [hlines, State.advance_eq]

end Modes

/-- A mode between two lexemes. One that lasts to the end of the line is over there. -/
inductive Resting : Mode → List Char → Prop
  | code {rest} : Resting .code rest
  | flags {rest} : Resting .flags rest
  | lineComment {start text rest} (h : StopsBefore (· == '\n') rest) : Resting (.lineComment start text) rest
  | string {quote rest} (h : StopsBefore (· == '\n') rest) : Resting (.string quote) rest
  | regex {inClass rest} (h : StopsBefore (· == '\n') rest) : Resting (.regex inClass) rest

structure Between (last : Option Char) (line : Nat) (st : List (Char × Nat)) (rest : List Char) (s : State) :
    Prop where
  skip : s.skip = 0
  mode : Resting s.mode rest
  line : s.line = line
  brackets : s.brackets = st
  last : regexMayFollow s.last = last.all operators.contains
  flags : s.mode = .flags → regexMayFollow s.last = false ∧ s.line ∈ s.codeLines

section Lexemes

variable {g : Grammar} {s : State} {line : Nat} {st : List (Char × Nat)} {last : Option Char}
  {c : Char} {l : Lexeme} {rest : List Char} {last₀ : Option Char} {cs : List Char}

/-- What follows a lexeme, as the scanner sees it: it is between two lexemes again, or has found a fault. -/
def Passes (g : Grammar) (last : Option Char) (line : Nat) (st : List (Char × Nat)) (l : Lexeme) (rest : List Char)
    (s : State) : Prop :=
  match act line st l with
  | .ok st' => ∃ s', run g.dialect s (l.text ++ rest) = run g.dialect s' rest ∧
      Between (l.mark.or last) (lineAfter line [l]) st' rest s' ∧ Notes s.codeLines (noted line l.roles) s'.codeLines
  | .error e => (run g.dialect s (l.text ++ rest) >>= finish) = .error e

theorem lineAfter_one (line : Nat) (l : Lexeme) : lineAfter line [l] = line + newlines l.text := by
  rw [lineAfter, flatMap_singleton]

theorem At.between {mode : Mode} (h : At s mode line st last₀) (hmode : Resting mode rest)
    (hlast : regexMayFollow last₀ = last.all operators.contains)
    (hflags : mode = .flags → regexMayFollow last₀ = false ∧ s.line ∈ s.codeLines) : Between last line st rest s :=
  ⟨h.skip, h.mode ▸ hmode, h.line, h.brackets, h.last ▸ hlast, fun hm ↦ h.last ▸ hflags (h.mode ▸ hm)⟩

namespace Between

theorem step_eq (h : Between last line st (c :: rest) s) (hc : c ≠ '\n')
    (hflag : s.mode = .flags → isAsciiLetter c = false) :
    ∃ s₀, At s₀ .code line st s.last ∧ s₀.codeLines = s.codeLines ∧
      step g.dialect s c rest = codeStep g.dialect s₀ c rest := by
  refine ⟨{ s with mode := .code }, ⟨rfl, h.skip, h.line, h.brackets, rfl⟩, rfl, ?_⟩
  have hmode := h.mode
  generalize hm : s.mode = m at hmode
  cases hmode with
  | code =>
    have hs : { s with mode := .code } = s := by rw [← hm]
    rw [hs]
    simp [step, h.skip, hm]
  | flags => simp [step, h.skip, hm, hflag hm]
  | lineComment hends | string hends | regex hends => exact absurd (beq_iff_eq.mp (hends c rfl)) hc

theorem step_newline (h : Between last line st ('\n' :: rest) s) :
    ∃ s', step g.dialect s '\n' rest = .ok s' ∧ At s' .code (line + 1) st s.last ∧ s'.codeLines = s.codeLines := by
  have hcode {s₀} (hs₀ : At s₀ .code line st s.last) : ∃ s',
      codeStep g.dialect s₀ '\n' rest = .ok s' ∧ At s' .code (line + 1) st s.last ∧ s'.codeLines = s₀.codeLines := by
    refine ⟨s₀.advance '\n', ?_, ⟨hs₀.mode, hs₀.skip, congrArg (· + 1) hs₀.line, hs₀.brackets, hs₀.last⟩, rfl⟩
    have hlast : regexMayFollow s₀.last = last.all operators.contains := by rw [hs₀.last, h.last]
    rw [codeStep_eq hlast]
    rfl
  have hmode := h.mode
  generalize hm : s.mode = m at hmode
  cases hmode with
  | code =>
    have hstep : step g.dialect s '\n' rest = codeStep g.dialect s '\n' rest := by simp [step, h.skip, hm]
    rw [hstep]
    exact hcode ⟨hm, h.skip, h.line, h.brackets, rfl⟩
  | flags =>
    have hstep : step g.dialect s '\n' rest = codeStep g.dialect { s with mode := .code } '\n' rest := by
      simp [step, h.skip, hm, show isAsciiLetter '\n' = false by decide]
    rw [hstep]
    exact hcode ⟨rfl, h.skip, h.line, h.brackets, rfl⟩
  | @lineComment start text =>
    refine ⟨(s.addComment start text).advance '\n', ?_, ⟨rfl, h.skip, congrArg (· + 1) h.line, h.brackets, rfl⟩, rfl⟩
    simp [step, h.skip, hm]
  | string | regex =>
    refine ⟨{ s.advance '\n' with mode := .code }, ?_, ⟨rfl, h.skip, congrArg (· + 1) h.line, h.brackets, rfl⟩, rfl⟩
    simp [step, h.skip, hm]

end Between

theorem not_isBlank_of_letter (h : isAsciiLetter c = true) : isBlank c = false := by
  have hrange : 65 ≤ c.toNat ∧ c.toNat ≤ 122 := by
    simp only [isAsciiLetter, Bool.or_eq_true, Bool.and_eq_true, decide_eq_true_eq, Char.le_def,
      UInt32.le_iff_toNat_le] at h
    have hnat : c.val.toNat = c.toNat := rfl
    have ha : 'a'.val.toNat = 97 := rfl
    have hz : 'z'.val.toNat = 122 := rfl
    have hA : 'A'.val.toNat = 65 := rfl
    have hZ : 'Z'.val.toNat = 90 := rfl
    omega
  simp only [isBlank, Bool.or_eq_false_iff, Bool.and_eq_false_iff, decide_eq_false_iff_not, beq_eq_false_iff_ne]
  omega

theorem plain_of_letter (h : isAsciiLetter c = true) :
    isOpening c = false ∧ isClosing c = false ∧ operators.contains c = false := by
  have hbrackets : (['(', '[', '\x7b', ')', ']', '\x7d'] ++ operators).all (!isAsciiLetter ·) = true := by decide
  have hne {x} (hx : x ∈ ['(', '[', '\x7b', ')', ']', '\x7d'] ++ operators) : c ≠ x := by
    rintro rfl
    exact absurd (all_eq_true.mp hbrackets c hx) (by simp [h])
  refine ⟨?_, ?_, ?_⟩
  · simp [isOpening, hne (x := '(') (by decide), hne (x := '[') (by decide), hne (x := '\x7b') (by decide)]
  · simp [isClosing, hne (x := ')') (by decide), hne (x := ']') (by decide), hne (x := '\x7d') (by decide)]
  · rw [← Bool.not_eq_true, contains_iff_mem]
    exact fun hmem ↦ hne (mem_append_right _ hmem) rfl

theorem not_isBlank_of_bracket (h : isOpening c = true ∨ isClosing c = true) : isBlank c = false ∧ c ≠ '\n' := by
  simp only [isOpening, isClosing, Bool.or_eq_true, beq_iff_eq] at h
  obtain ((rfl | rfl) | rfl) | ((rfl | rfl) | rfl) := h <;> decide

theorem act_plain (line : Nat) (st : List (Char × Nat)) (hopening : isOpening c = false)
    (hclosing : isClosing c = false) : act line st (.other c) = .ok st := by
  simp [act, hopening, hclosing]

theorem noted_other (line : Nat) (h : isBlank c = false) : noted line (other c).roles = [line] := by
  simp [roles, noted, h]

theorem passes_code {s₁ : State} {st' : List (Char × Nat)} (hc : c ≠ '\n') (hblank : isBlank c = false)
    (hact : act line st (.other c) = .ok st') (hstep : step g.dialect s c rest = .ok s₁)
    (hs₁ : At s₁ .code line st' (some c)) (hnotes : Notes s.codeLines [line] s₁.codeLines) :
    Passes g last line st (.other c) rest s := by
  rw [Passes, hact]
  refine ⟨s₁, run_cons hstep, ?_, noted_other line hblank ▸ hnotes⟩
  rw [lineAfter_one, Lexeme.text, newlines_of_ne hc, mark, hblank]
  exact hs₁.between .code (regexMayFollow_eq _) (by simp)

theorem passes_flag (h : Between last line st (c :: rest) s) (hmode : s.mode = .flags)
    (hletter : isAsciiLetter c = true) : Passes g last line st (.other c) rest s := by
  obtain ⟨hopening, hclosing, hoperator⟩ := plain_of_letter hletter
  have hc : c ≠ '\n' := by
    rintro rfl
    cases hletter
  have hstep : step g.dialect s c rest = .ok s := by simp [step, h.skip, hmode, hletter]
  rw [Passes, act_plain line st hopening hclosing]
  refine ⟨s, run_cons hstep, ?_, ?_⟩
  · rw [lineAfter_one, Lexeme.text, newlines_of_ne hc, mark, not_isBlank_of_letter hletter]
    refine ⟨h.skip, hmode ▸ .flags, h.line, h.brackets, ?_, h.flags⟩
    rw [(h.flags hmode).1]
    exact hoperator.symm
  · rw [noted_other line (not_isBlank_of_letter hletter)]
    exact .of_mem (by simpa [h.line] using (h.flags hmode).2)

theorem passes_closing {s₀ : State} (hc : c ≠ '\n') (hblank : isBlank c = false)
    (hopening : isOpening c = false) (hclosing : isClosing c = true) (hs₀ : At s₀ .code line st last₀)
    (hlines : s₀.codeLines = s.codeLines) (hstep : step g.dialect s c rest = (closeBracket s₀ c).map (·.code c)) :
    Passes g last line st (.other c) rest s := by
  have hfails {e} (hact : act line st (.other c) = .error e) (hclose : closeBracket s₀ c = .error e) :
      Passes g last line st (.other c) rest s := by
    rw [Passes, hact, Lexeme.text, singleton_append, run, hstep, hclose]
    rfl
  cases st with
  | nil =>
    refine hfails (by simp only [act, hopening, hclosing, Bool.false_eq_true, if_false, if_true]; rfl) ?_
    rw [closeBracket, hs₀.brackets, hs₀.line]
  | cons b st =>
    by_cases hpair : closing b.1 = c
    · have hact : act line (b :: st) (.other c) = .ok st := by simp [act, hopening, hclosing, hpair]
      have hclose : closeBracket s₀ c = .ok { s₀ with brackets := st } := by
        rw [closeBracket, hs₀.brackets]
        exact if_pos hpair
      obtain ⟨codeLines, hcode, hnotes⟩ := State.exists_code { s₀ with brackets := st } c
      rw [hclose] at hstep
      exact passes_code hc hblank hact (hstep.trans (congrArg Except.ok hcode)) ⟨hs₀.mode, hs₀.skip, hs₀.line, rfl, rfl⟩
        (hs₀.line ▸ hlines ▸ hnotes)
    · refine hfails (by simp only [act, hopening, hclosing, hpair, Bool.false_eq_true, if_false, if_true]; rfl) ?_
      rw [closeBracket, hs₀.brackets, hs₀.line]
      exact if_neg hpair

theorem passes_other (h : Between last line st (c :: rest) s) (ho : opening g last (c :: rest) = .other) :
    Passes g last line st (.other c) rest s := by
  by_cases hc : c = '\n'
  · subst hc
    obtain ⟨s', hstep, hs', hlines⟩ := h.step_newline (g := g)
    exact ⟨s', run_cons hstep, hs'.between .code h.last nofun, hlines ▸ .refl _⟩
  by_cases hflag : s.mode = .flags ∧ isAsciiLetter c = true
  · exact passes_flag h hflag.1 hflag.2
  obtain ⟨s₀, hs₀, hlines, hcodeStep⟩ := h.step_eq (g := g) hc fun hm ↦ Bool.not_eq_true _ ▸ fun hl ↦ hflag ⟨hm, hl⟩
  have hlast : regexMayFollow s₀.last = last.all operators.contains := by rw [hs₀.last, h.last]
  have hstep : step g.dialect s c rest = otherStep s₀ c := by
    rw [hcodeStep, codeStep_eq hlast, ho, openStep]
  obtain ⟨codeLines, hcode, hnotes⟩ := s₀.exists_code c
  rw [hs₀.line, hlines] at hnotes
  cases hblank : isBlank c with
  | true =>
    have hplain : isOpening c = false ∧ isClosing c = false := by
      constructor <;> rw [← Bool.not_eq_true] <;> intro hb
      · cases hblank.symm.trans (not_isBlank_of_bracket (.inl hb)).1
      · cases hblank.symm.trans (not_isBlank_of_bracket (.inr hb)).1
    rw [otherStep, if_pos hblank, State.advance_eq] at hstep
    rw [Passes, act_plain line st hplain.1 hplain.2]
    refine ⟨_, run_cons hstep, ?_, ?_⟩
    · rw [lineAfter_one, Lexeme.text, newlines_of_ne hc, mark, hblank]
      exact ⟨hs₀.skip, hs₀.mode ▸ .code, hs₀.line, hs₀.brackets, hlast, fun hm ↦ nomatch hs₀.mode.symm.trans hm⟩
    · rw [show noted line (other c).roles = [] by simp [roles, noted, hblank], hlines]
      exact .refl _
  | false =>
    rw [otherStep, if_neg (by rw [hblank]; decide)] at hstep
    cases hopening : isOpening c with
    | true =>
      have hact : act line st (.other c) = .ok ((c, line) :: st) := by simp [act, hopening]
      rw [if_pos hopening, hcode] at hstep
      refine passes_code hc hblank hact hstep ⟨hs₀.mode, hs₀.skip, hs₀.line, ?_, rfl⟩ hnotes
      rw [hs₀.line, hs₀.brackets]
    | false =>
      rw [if_neg (by rw [hopening]; decide)] at hstep
      cases hclosing : isClosing c with
      | false =>
        rw [if_neg (by rw [hclosing]; decide), hcode] at hstep
        exact passes_code hc hblank (act_plain line st hopening hclosing) hstep
          ⟨hs₀.mode, hs₀.skip, hs₀.line, hs₀.brackets, rfl⟩ hnotes
      | true =>
        rw [if_pos hclosing] at hstep
        exact passes_closing hc hblank hopening hclosing hs₀ hlines hstep

theorem mem_of_opening (h : opening g last (c :: rest) ≠ .other) : c ∈ ['/', '"', '\'', '\x60'] := by
  refine Decidable.byContradiction fun hc ↦ h ?_
  unfold opening
  split <;> simp_all

theorem Between.step_opening (h : Between last line st (c :: rest) s) (ho : opening g last (c :: rest) ≠ .other) :
    ∃ s₀, At s₀ .code line st s.last ∧ s₀.codeLines = s.codeLines ∧
      regexMayFollow s₀.last = last.all operators.contains ∧
      step g.dialect s c rest = codeStep g.dialect s₀ c rest := by
  have hplain : ['/', '"', '\'', '\x60'].all (fun x ↦ decide (x ≠ '\n' ∧ isAsciiLetter x = false)) = true := by
    decide
  obtain ⟨hc, hletter⟩ := of_decide_eq_true (all_eq_true.mp hplain c (mem_of_opening ho))
  obtain ⟨s₀, hs₀, hlines, hstep⟩ := h.step_eq hc fun _ ↦ hletter
  exact ⟨s₀, hs₀, hlines, by rw [hs₀.last, h.last], hstep⟩

theorem noted_comment (line : Nat) (text : List Char) : noted line (comment text).roles = [] := by
  refine eq_nil_iff_forall_not_mem.mpr fun n hn ↦ ?_
  obtain ⟨before, c, after, hroles, -⟩ := mem_noted_iff.mp hn
  have hmem : (c, Role.code) ∈ (comment text).roles := hroles ▸ mem_append_right _ (.head _)
  obtain ⟨_, -, he⟩ := mem_map.mp hmem
  cases he

theorem passes_lineComment (h : Between last line st ('/' :: '/' :: (body ++ rest)) s)
    (ho : opening g last ('/' :: '/' :: (body ++ rest)) = .lineComment) (hbody : '\n' ∉ body)
    (hrest : StopsBefore (· == '\n') rest) :
    Passes g last line st (.comment ('/' :: '/' :: body)) rest s := by
  obtain ⟨s₀, hs₀, hlines, hlast, hstep⟩ := h.step_opening (by rw [ho]; simp)
  rw [codeStep_eq hlast, ho] at hstep
  have hs₁ : At { s₀ with mode := .lineComment s₀.line [], skip := 0 } (.lineComment s₀.line []) line st s.last :=
    ⟨rfl, rfl, hs₀.line, hs₀.brackets, hs₀.last⟩
  obtain ⟨s', text', hrun, hs', hlines'⟩ := run_lineComment hbody hs₁ rest
  refine ⟨s', (run_cons hstep).trans ((run_cons (step_skip rfl)).trans hrun), ?_, ?_⟩
  · have hnewlines : newlines ('/' :: '/' :: body) = 0 := count_eq_zero_of_not_mem (by simpa using hbody)
    rw [lineAfter_one, Lexeme.text, hnewlines]
    exact hs'.between (.lineComment hrest) h.last (by simp)
  · rw [noted_comment, hlines', ← hlines]
    exact .refl _

theorem run_openComment (h : Between last line st ('/' :: '*' :: rest) s)
    (ho : opening g last ('/' :: '*' :: rest) = .blockComment) : ∃ s₁,
    run g.dialect s ('/' :: '*' :: rest) = run g.dialect s₁ rest ∧ At s₁ (.blockComment line []) line st s.last ∧
      s₁.codeLines = s.codeLines := by
  obtain ⟨s₀, hs₀, hlines, hlast, hstep⟩ := h.step_opening (by rw [ho]; nofun)
  rw [codeStep_eq hlast] at hstep
  exact ⟨_, (run_cons hstep).trans (run_cons (step_skip rfl)),
    ⟨by rw [hs₀.line]; rfl, rfl, hs₀.line, hs₀.brackets, hs₀.last⟩, hlines⟩

theorem run_closeComment {start : Nat} {text : List Char} (hs : At s (.blockComment start text) line st last)
    (rest : List Char) : ∃ s', run g.dialect s (endMark ++ rest) = run g.dialect s' rest ∧
      At s' .code line st last ∧ s'.codeLines = s.codeLines := by
  have hmark : startsWith endMark ('*' :: '/' :: rest) = true := rfl
  have hstep : step g.dialect s '*' ('/' :: rest) = .ok { s.addComment start text with skip := 1 } := by
    simp [step, hs.skip, hs.mode, blockComment_dialect, hmark]
  exact ⟨_, (run_cons hstep).trans (run_cons (step_skip rfl)), ⟨rfl, rfl, hs.line, hs.brackets, hs.last⟩, rfl⟩

theorem passes_blockComment (h : Between last line st ('/' :: '*' :: (body ++ endMark ++ rest)) s)
    (ho : opening g last ('/' :: '*' :: (body ++ endMark ++ rest)) = .blockComment)
    (hbody : ¬ endMark <:+: body ++ ['*']) :
    Passes g last line st (.comment ('/' :: '*' :: body ++ endMark)) rest s := by
  obtain ⟨s₁, hrun₁, hs₁, hlines₁⟩ := run_openComment h ho
  rw [append_assoc] at hrun₁
  obtain ⟨s₂, text, hrun₂, hs₂, hlines₂⟩ := run_blockComment (g := g) (endMark ++ rest) hbody hs₁
  obtain ⟨s₃, hrun₃, hs₃, hlines₃⟩ := run_closeComment (g := g) hs₂ rest
  refine ⟨s₃, ?_, ?_, ?_⟩
  · rw [Lexeme.text, cons_append, cons_append, cons_append, cons_append, append_assoc]
    exact hrun₁.trans (hrun₂.trans hrun₃)
  · rw [lineAfter_one, Lexeme.text, Text.newlines_append, newlines_cons, newlines_cons '*']
    have hmarks : newlines ['/'] + (newlines ['*'] + newlines body) + newlines endMark = newlines body := by
      rw [newlines_of_ne (by decide), newlines_of_ne (by decide), Nat.zero_add, Nat.zero_add]
      rfl
    rw [hmarks]
    exact hs₃.between .code h.last (by simp)
  · rw [noted_comment, hlines₃, hlines₂, hlines₁]
    exact .refl _

theorem passes_unclosedComment (h : Between last line st ('/' :: '*' :: body) s)
    (ho : opening g last ('/' :: '*' :: body) = .blockComment) (hbody : ¬ endMark <:+: body) :
    Passes g last line st (.unclosedComment ('/' :: '*' :: body)) [] s := by
  obtain ⟨s₁, hrun₁, hs₁, -⟩ := run_openComment h ho
  obtain ⟨s₂, text, hrun₂, hs₂, -⟩ := run_blockComment (g := g) [] (by rwa [take_nil, append_nil]) hs₁
  rw [append_nil] at hrun₂
  rw [Passes, act, Lexeme.text, append_nil, hrun₁, hrun₂, run]
  simp only [bind, Except.bind, finish, hs₂.mode]

section Literals

variable {k : LiteralKind} {body tail : List Char} {b : Bool}

theorem mem_kinds_of_opening (hg : g.regexEscapes = true) (ho : opening g last cs = .literal k) : k ∈ kinds := by
  revert ho
  fun_cases opening g last cs <;> simp +contextual [kinds, hg, eq_comm]

theorem kinds_spec : ∀ k ∈ kinds, k.quote ≠ '\n' ∧ k.quote ≠ '\\' ∧ k.escapes = true ∧
    regexMayFollow (some k.quote) = false ∧ (k.oneLine = true ∧ k.quote ≠ '\x60' ∨ k = .template) := by
  decide

theorem LiteralKind.ne_newline (hk : k.oneLine = true) (h : k.stops c = false) : c ≠ '\n' := by
  simpa [stops, hk] using h

theorem Span.newline_not_mem {a : Bool} (h : Span k a body b) (hk : k.oneLine = true) : '\n' ∉ body := by
  induction h with
  | nil => exact not_mem_nil
  | plain _ hnext _ ih =>
    have hc := k.ne_newline hk (LiteralKind.next_eq_some hnext).1
    simpa [Ne.symm hc] using ih
  | escape _ hc _ ih =>
    have hc := k.ne_newline hk hc
    simpa [Ne.symm hc] using ih

theorem mem_noted_literal (hk : k ∈ kinds) (hbody : Span k false body b) (htail : Tail k b tail rest)
    (hclosed : k.oneLine = true ∨ tail = [k.quote]) (n : Nat) :
    n ∈ [line] ++ noted line (k.inside body) ↔ n ∈ noted line (literal (k.quote :: body ++ tail)).roles := by
  obtain ⟨hline, -, -, -, ⟨honeLine, hquote⟩ | rfl⟩ := kinds_spec k hk
  · have htext : '\n' ∉ k.quote :: body ++ tail := by
      rw [cons_append, mem_cons, mem_append, not_or, not_or]
      refine ⟨hline.symm, hbody.newline_not_mem honeLine, ?_⟩
      cases htail with
      | closed => simpa using hline.symm
      | broken => exact not_mem_nil
      | lone => decide
    have hroles : (literal (k.quote :: body ++ tail)).roles = (k.quote :: body ++ tail).map (·, .code) := by
      rw [roles]
      rintro cs h
      exact hquote (List.cons.inj h).1
    rw [hroles, mem_noted_line htext]
    simp [LiteralKind.inside, honeLine, noted]
  · obtain rfl : tail = ['\x60'] := hclosed.resolve_left (by rintro ⟨⟩)
    have hinside : LiteralKind.inside .template body = templateRoles body := rfl
    have hroles : (literal ('\x60' :: body ++ ['\x60'])).roles =
        ('\x60', .code) :: (templateRoles body ++ [('\x60', .skipped)]) := by
      rw [cons_append, roles, templateRoles_append hbody]
      rfl
    rw [show template.quote = '\x60' from rfl, hroles, hinside, noted, noted_append]
    simp [noted, newlines_of_ne]

theorem resting_mode (hk : k.oneLine = true) (h : StopsBefore (· == '\n') rest) (line : Nat) (b : Bool) :
    Resting (k.mode line b) rest ∧ k.mode line b ≠ .flags := by
  unfold LiteralKind.mode
  split
  · exact ⟨.regex h, nofun⟩
  · exact ⟨.string h, nofun⟩

theorem passes_broken {s' : State} (hk : k ∈ kinds) (htail : tail ≠ [k.quote]) (hrest : StopsBefore k.stops rest)
    (hrun : run g.dialect s (k.quote :: body ++ tail ++ rest) = run g.dialect s' rest) (hmode : s'.mode = k.mode line b)
    (hs' : k.oneLine = true → At s' (k.mode line b) (line + newlines (k.quote :: body ++ tail)) st (some k.quote) ∧
      Notes s.codeLines (noted line (literal (k.quote :: body ++ tail)).roles) s'.codeLines) :
    Passes g last line st (k.lexeme tail (k.quote :: body ++ tail)) rest s := by
  obtain ⟨-, -, -, -, ⟨honeLine, -⟩ | rfl⟩ := kinds_spec k hk
  · rw [lexeme, if_pos (.inl honeLine)]
    refine ⟨s', hrun, ?_, (hs' honeLine).2⟩
    obtain ⟨hresting, hflags⟩ := resting_mode honeLine hrest.endsLine line b
    rw [lineAfter_one]
    exact (hs' honeLine).1.between hresting (regexMayFollow_eq _) fun hm ↦ absurd hm hflags
  · rw [lexeme, if_neg (not_or.mpr ⟨nofun, htail⟩)]
    cases rest with
    | nil =>
      rw [Passes, Lexeme.text, hrun, run]
      simp only [bind, Except.bind, finish, hmode, LiteralKind.mode, template]
      rfl
    | cons c rest => cases hrest c rfl

theorem passes_literal (hk : k ∈ kinds) (h : Between last line st (k.quote :: (body ++ (tail ++ rest))) s)
    (ho : opening g last (k.quote :: (body ++ (tail ++ rest))) = .literal k) (hbody : Span k false body b)
    (htail : Tail k b tail rest) : Passes g last line st (k.lexeme tail (k.quote :: body ++ tail)) rest s := by
  obtain ⟨hline, hbackslash, hescapes, hregex, hkind⟩ := kinds_spec k hk
  have hfollows := follows_of_mem hk g line
  obtain ⟨s₀, hs₀, hlines, hlast, hstep⟩ := h.step_opening (by rw [ho]; simp)
  obtain ⟨codeLines, hcode, hfirst⟩ := s₀.exists_code k.quote
  rw [hlines, hs₀.line] at hfirst
  rw [codeStep_eq hlast, ho, openStep, hcode] at hstep
  have hs₁ : At { s₀ with codeLines, last := some k.quote, mode := k.mode s₀.line false } (k.mode line false) line st
      (some k.quote) :=
    ⟨congrArg (k.mode · false) hs₀.line, hs₀.skip, hs₀.line, hs₀.brackets, rfl⟩
  obtain ⟨s₂, hspan, hs₂, hinside⟩ := run_span hfollows hescapes (hkind.imp_left And.left) hbody (by simp) hs₁
    (tail ++ rest)
  have hnotes (hclosed : k.oneLine = true ∨ tail = [k.quote]) := (hfirst.trans hinside).congr
    (mem_noted_literal hk hbody htail hclosed)
  have hrun : run g.dialect s (k.quote :: body ++ tail ++ rest) = run g.dialect s₂ (tail ++ rest) := by
    rw [append_assoc]
    exact (run_cons hstep).trans hspan
  have hnewlines (tail : List Char) : newlines (k.quote :: body ++ tail) = newlines body + newlines tail := by
    rw [Text.newlines_append, newlines_cons, newlines_of_ne hline, Nat.zero_add]
  cases htail with
  | closed =>
    obtain ⟨s', mode, last', hclose, hs', hlines', hmode, hlast'⟩ := hfollows.close rest hs₂
    rw [lexeme, if_pos (.inr rfl)]
    refine ⟨s', hrun.trans (run_cons hclose), ?_, hlines' ▸ hnotes (.inr rfl)⟩
    rw [lineAfter_one, Lexeme.text, hnewlines, newlines_of_ne hline]
    refine hs'.between ?_ ?_ fun hflags ↦ ⟨hlast', ?_⟩
    · obtain rfl | ⟨rfl, -⟩ := hmode
      · exact .code
      · exact .flags
    · rw [hlast', ← hregex]
      exact regexMayFollow_eq (some k.quote)
    · -- a literal with flags is all on the line of its first quote, which is noted
      have honeLine := (hmode.resolve_left (by rw [hflags]; simp)).2
      have hbodyLine : newlines body = 0 := count_eq_zero_of_not_mem (hbody.newline_not_mem honeLine)
      rw [hlines', hs'.line, hbodyLine]
      exact ((hfirst.trans hinside) line).mpr (.inr (.head _))
  | broken hrest =>
    refine passes_broken hk (by simp) hrest hrun hs₂.mode fun honeLine ↦ ⟨?_, hnotes (.inl honeLine)⟩
    rwa [hnewlines]
  | lone _ hrest =>
    have htail : ['\\'] ≠ [k.quote] := fun he ↦ hbackslash (List.cons.inj he).1.symm
    refine passes_broken hk htail hrest (hrun.trans (run_cons (hfollows.lone hs₂ hrest))) hs₂.mode fun honeLine ↦
      ⟨?_, hnotes (.inl honeLine)⟩
    rw [hnewlines]
    exact ⟨hs₂.mode, if_pos honeLine, hs₂.line, hs₂.brackets, hs₂.last⟩

end Literals

theorem Between.passes (hg : g.regexEscapes = true) (h : Between last line st (l.text ++ rest) s)
    (hl : Extends (opening g last (l.text ++ rest)) l rest) : Passes g last line st l rest s := by
  generalize ho : opening g last (l.text ++ rest) = o at hl
  cases hl with
  | lineComment hbody hrest => exact passes_lineComment h ho hbody hrest
  | blockComment hbody => exact passes_blockComment h ho hbody
  | unclosedComment hbody =>
    rw [append_nil] at h ho
    exact passes_unclosedComment h ho hbody
  | literal hbody htail =>
    rw [text_lexeme, append_assoc] at h ho
    exact passes_literal (mem_kinds_of_opening hg ho) h ho hbody htail
  | other => exact passes_other h ho

/-- A scan ends as is said of it. If it finds no fault, it has noted some lines more. -/
def Ends (before ns : List Nat) (result : Except AnalysisError State) : Except AnalysisError Unit → Prop
  | .ok _ => ∃ s, result = .ok s ∧ Notes before ns s.codeLines
  | .error e => result = .error e

theorem finish_between (h : Between last line st [] s) : Ends s.codeLines [] (finish s) (verdict line st []) := by
  have hmode := h.mode
  have hbrackets := h.brackets
  unfold finish
  generalize s.mode = m at hmode ⊢
  rw [hbrackets]
  cases st with
  | nil => cases hmode <;> exact ⟨_, rfl, .refl _⟩
  | cons b st => cases hmode <;> rfl

theorem run_lexes (hg : g.regexEscapes = true) (h : Lexes g last cs ls) (hs : Between last line st cs s) :
    Ends s.codeLines (noted line (ls.flatMap roles)) (run g.dialect s cs >>= finish) (verdict line st ls) := by
  induction h generalizing s line st with
  | nil => exact finish_between hs
  | @cons last l rest ls hl hls ih =>
    have hpasses := hs.passes hg hl
    rw [Passes] at hpasses
    rw [verdict]
    cases hact : act line st l with
    | ok st' =>
      rw [hact] at hpasses
      obtain ⟨s', hrun, hs', hnotes⟩ := hpasses
      have hends := ih hs'
      dsimp only
      rw [hrun, flatMap_cons, noted_append, Lexeme.fst_roles, ← lineAfter_one]
      cases hverdict : verdict (lineAfter line [l]) st' ls with
      | ok _ =>
        rw [hverdict] at hends
        obtain ⟨s'', hfinish, hnotes'⟩ := hends
        exact ⟨s'', hfinish, hnotes.trans hnotes'⟩
      | error e =>
        rwa [hverdict] at hends
    | error e =>
      rwa [hact] at hpasses

end Lexemes

def Grammar.ofLanguage? : Language → Option Grammar
  | .js => some { script := true }
  | .ts => some { script := true }
  | .css => some { script := false }
  | _ => none

theorem parse_eq (language : Language) (source : String) : parse language source =
    (run (.ofLanguage language) {} source.toList >>= finish).map fun s ↦ s.parsed source.toList := by
  rw [parse]
  cases run (.ofLanguage language) {} source.toList with
  | error e => rfl
  | ok s =>
    cases finish s <;> rfl

theorem parse_lexes {language : Language} {g : Grammar} {source : String}
    (hg : Grammar.ofLanguage? language = some g) (h : Lexes g none source.toList ls) :
    (parse language source).map (fun _ ↦ ()) = verdict 1 [] ls ∧
      ∀ p, parse language source = .ok p → ∀ n, n ∈ p.codeLines ↔ n ∈ noted 1 (ls.flatMap roles) := by
  have hlanguage : g.regexEscapes = true ∧ Dialect.ofLanguage language = g.dialect := by
    cases language <;> cases hg <;> exact ⟨rfl, rfl⟩
  have hstart : Between none 1 [] source.toList {} := ⟨rfl, .code, rfl, rfl, rfl, nofun⟩
  have hends := run_lexes hlanguage.1 h hstart
  cases hverdict : verdict 1 [] ls with
  | ok _ =>
    rw [hverdict] at hends
    obtain ⟨s, hs, hnotes⟩ := hends
    rw [parse_eq, hlanguage.2, hs]
    refine ⟨rfl, fun p hp n ↦ ?_⟩
    cases hp
    simpa [State.parsed] using hnotes n
  | error e =>
    rw [hverdict] at hends
    rw [parse_eq, hlanguage.2, hends]
    exact ⟨rfl, nofun⟩

/-- A source has just one lexing, and it is parsed just if its comments and templates are closed and its brackets are
balanced. Otherwise its first fault is told. -/
theorem parse_decides_brackets {language : Language} {g : Grammar} (hg : Grammar.ofLanguage? language = some g)
    (source : String) : ∃ ls, Lexes g none source.toList ls ∧ (∀ ls', Lexes g none source.toList ls' → ls' = ls) ∧
    ((∃ parsed, parse language source = .ok parsed) ↔
      (∀ l ∈ ls, l.isClosed = true) ∧ Balanced (word (brackets 1 ls))) ∧
    ∀ e, parse language source = .error e ↔ FirstFault ls e := by
  obtain ⟨ls, hls⟩ := exists_lexes g none source.toList
  have hverdict := (parse_lexes hg hls).1
  refine ⟨ls, hls, fun ls' hls' ↦ hls'.unique hls, ?_, fun e ↦ ?_⟩
  · rw [← verdict_ok_iff, ← hverdict]
    cases parse language source with
    | ok parsed => exact ⟨fun _ ↦ rfl, fun _ ↦ ⟨parsed, rfl⟩⟩
    | error e => exact ⟨fun ⟨_, h⟩ ↦ (nomatch h), nofun⟩
  · rw [← verdict_error_iff, ← hverdict]
    cases parse language source with
    | ok parsed => exact ⟨nofun, nofun⟩
    | error e' => exact ⟨fun h ↦ (by cases h; rfl), fun h ↦ (by cases h; rfl)⟩

theorem parse_decides_brackets_mixed : Grammar.ofLanguage? .ts = some { script := true } ∧
    ∃ ls, Lexes { script := true } none "f(/[)/\\]]/g / 2, \x60)\x60) // \x7b\n".toList ls ∧
      (∀ ls', Lexes { script := true } none "f(/[)/\\]]/g / 2, \x60)\x60) // \x7b\n".toList ls' → ls' = ls) ∧
      ((∃ parsed, parse .ts "f(/[)/\\]]/g / 2, \x60)\x60) // \x7b\n" = .ok parsed) ↔
        (∀ l ∈ ls, l.isClosed = true) ∧ Balanced (word (brackets 1 ls))) ∧
      ∀ e, parse .ts "f(/[)/\\]]/g / 2, \x60)\x60) // \x7b\n" = .error e ↔ FirstFault ls e :=
  ⟨rfl, parse_decides_brackets rfl _⟩

/-- Without escapes the regular expression would end after the backslash, before a bracket that has no partner. -/
theorem escaped_slash_stays_in_regex : ∃ ls, Lexes { script := true, regexEscapes := false } none "/\\/)/".toList ls ∧
    FirstFault ls (.parsing "Unexpected token ')'" (some 1)) ∧ (parse .js "/\\/)/").isOk = true := by
  refine ⟨[.literal ['/', '\\', '/'], .other ')', .other '/'], ?_, verdict_error_iff.mp rfl, by decide +kernel⟩
  have hslash : Lexes { script := true, regexEscapes := false } (some ')') ['/'] [.other '/'] :=
    @Lexes.cons _ _ (.other '/') [] _ .other .nil
  have hbracket : Lexes { script := true, regexEscapes := false } (some '/') [')', '/'] [.other ')', .other '/'] :=
    @Lexes.cons _ _ (.other ')') ['/'] _ .other hslash
  have hregex : Span (.regex false) false ['\\'] false := .plain nofun rfl (.nil _)
  exact @Lexes.cons _ _ (.literal ['/', '\\', '/']) [')', '/'] _ (.literal hregex .closed) hbracket

end AnalysisServer.Source
