import AnalysisServer.Proofs.Source.LineSets
import AnalysisServer.Proofs.Source.Positions
import AnalysisServer.Session.Analysis

namespace AnalysisServer

def Comment.moved (k : Nat) (c : Comment) : Comment :=
  { c with line := c.line + k, endLine := c.endLine + k }

/-- A source further down, where it ends after another number of lines. -/
def ParsedSource.moved (k lineCount : Nat) (p : ParsedSource) : ParsedSource :=
  { lineCount, codeLines := p.codeLines.map (· + k), comments := p.comments.map (Comment.moved k) }

namespace Source

def padded (k : Nat) (source : String) : String :=
  String.ofList (List.replicate k '\n' ++ source.toList)

def movedResult {α : Type} (k : Nat) (f : α → α) : Except AnalysisError α → Except AnalysisError α
  | .ok a => .ok (f a)
  | .error e => .error (Session.shiftError k e)

def Mode.moved (k : Nat) : Mode → Mode
  | .lineComment line text => .lineComment (line + k) text
  | .blockComment line text => .blockComment (line + k) text
  | .template line => .template (line + k)
  | mode => mode

/-- A scanner further down, which has also what was found above. -/
def State.below (e : State) (k : Nat) (s : State) : State :=
  { s with
    mode := s.mode.moved k
    line := s.line + k
    codeLines := s.codeLines.map (· + k) ++ e.codeLines
    comments := s.comments.map (Comment.moved k) ++ e.comments
    brackets := s.brackets.map fun b ↦ (b.1, b.2 + k)
    last := s.last.or e.last }

variable {d : Dialect} {k : Nat} {s e : State} {c : Char} {rest : List Char}

section Below

variable (hlast : d.regexes = true → e.last = none) (hlines : ∀ n ∈ e.codeLines, n < s.line + k)

include hlines in
theorem State.addLine_below : (e.below k s).addLine = e.below k s.addLine := by
  have hhead : (s.codeLines.map (· + k) ++ e.codeLines).head? = some (s.line + k) ↔
      s.codeLines.head? = some s.line := by
    cases s.codeLines with
    | cons m ms => simp
    | nil =>
      refine iff_of_false (fun hhead ↦ ?_) (by simp)
      exact Nat.lt_irrefl _ (hlines _ (List.mem_of_mem_head? hhead))
  unfold addLine
  simp only [below, hhead]
  split <;> rfl

include hlines in
theorem State.code_below : (e.below k s).code c = e.below k (s.code c) := by
  rw [code, addLine_below hlines]
  rfl

theorem State.advance_below : (e.below k s).advance c = e.below k (s.advance c) := by
  simp only [advance_eq, below, Nat.add_right_comm]

include hlines in
theorem closeBracket_below : (closeBracket (e.below k s) c).map (·.code c) =
    movedResult k (e.below k) ((closeBracket s c).map (·.code c)) := by
  simp only [closeBracket, State.below]
  cases s.brackets with
  | nil => rfl
  | cons b brackets =>
    by_cases h : closing b.1 = c
    · simp only [List.map_cons, if_pos h]
      exact congrArg Except.ok (State.code_below (s := { s with brackets }) hlines)
    · simp only [List.map_cons, if_neg h]
      rfl

include hlast hlines

theorem plainStep_below : plainStep d (e.below k s) c = movedResult k (e.below k) (plainStep d s c) := by
  have hregex : (d.regexes && c == '/' && regexMayFollow (e.below k s).last) =
      (d.regexes && c == '/' && regexMayFollow s.last) := by
    cases h : d.regexes with
    | false => rfl
    | true => rw [State.below, hlast h, Option.or_none]
  simp only [plainStep, hregex, State.code_below hlines, State.advance_below, closeBracket_below hlines,
    apply_ite (movedResult k (e.below k))]
  rfl

theorem codeStep_below : codeStep d (e.below k s) c rest = movedResult k (e.below k) (codeStep d s c rest) := by
  unfold codeStep
  cases d.lineComment.filter fun mark ↦ Text.startsWith mark (c :: rest) with
  | some mark => rfl
  | none =>
    cases d.blockComment.filter fun marks ↦ Text.startsWith marks.1 (c :: rest) with
    | some marks => rfl
    | none => exact plainStep_below hlast hlines

theorem step_below : step d (e.below k s) c rest = movedResult k (e.below k) (step d s c rest) := by
  unfold step
  by_cases hskip : s.skip > 0
  · rw [if_pos hskip, if_pos (show (e.below k s).skip > 0 from hskip), State.advance_below]
    rfl
  · rw [if_neg hskip, if_neg (show ¬ (e.below k s).skip > 0 from hskip),
      show (e.below k s).mode = s.mode.moved k from rfl]
    cases s.mode with
    | code => exact codeStep_below hlast hlines
    | flags =>
      have hcode := @codeStep_below d k { s with mode := .code } e c rest hlast hlines
      simp only [apply_ite (movedResult k (e.below k)), ← hcode]
      rfl
    | lineComment line text =>
      have hadd : (e.below k s).addComment (line + k) text = e.below k (s.addComment line text) := rfl
      simp only [Mode.moved, hadd, State.advance_below, apply_ite (movedResult k (e.below k))]
      rfl
    | _ =>
      simp only [Mode.moved, State.advance_below, State.addLine_below hlines, apply_ite (movedResult k (e.below k))]
      rfl

theorem run_below (hd : d.Regular) (h : Ordered rest s) :
    run d (e.below k s) rest = movedResult k (e.below k) (run d s rest) := by
  induction rest generalizing s with
  | nil => rfl
  | cons c rest ih =>
    rw [run, run, step_below hlast hlines]
    cases hstep : step d s c rest with
    | error e => rfl
    | ok s' =>
      have hgoes := step_goes hd h.skip hstep
      exact ih (fun n hn ↦ Nat.lt_of_lt_of_le (hlines n hn) (Nat.add_le_add_right hgoes.line k)) (h.goes hgoes)

end Below

theorem finish_below : finish (e.below k s) = movedResult k (e.below k) (finish s) := by
  obtain ⟨mode, skip, line, codeLines, comments, brackets, last⟩ := s
  cases mode <;> cases brackets <;> rfl

theorem codeStep_newline (hd : d.Regular) (s : State) (rest : List Char) :
    codeStep d s '\n' rest = .ok (s.advance '\n') := by
  have hmark {mark : List Char} (h : IsMark mark) : Text.startsWith mark ('\n' :: rest) = false :=
    Bool.eq_false_iff.mpr fun hfront ↦ (h.take hfront).1 rfl
  have hline : (d.lineComment.filter fun mark ↦ Text.startsWith mark ('\n' :: rest)) = none :=
    Option.filter_eq_none_iff.mpr fun mark h ↦ by simp [hmark (hd.line mark h)]
  have hblock : (d.blockComment.filter fun marks ↦ Text.startsWith marks.1 ('\n' :: rest)) = none :=
    Option.filter_eq_none_iff.mpr fun marks h ↦ by simp [hmark (hd.block marks h).1]
  rw [codeStep, hline, hblock]
  rfl

theorem run_newlines (hd : d.Regular) (n k : Nat) (cs : List Char) :
    run d (State.below {} n {}) (List.replicate k '\n' ++ cs) = run d (State.below {} (n + k) {}) cs := by
  induction k generalizing n with
  | zero => rfl
  | succ k ih =>
    have hstep : step d (State.below {} n {}) '\n' (List.replicate k '\n' ++ cs) = .ok (State.below {} (n + 1) {}) :=
      codeStep_newline hd (State.below {} n {}) _
    rw [List.replicate_succ, List.cons_append, run, hstep]
    refine (ih (n + 1)).trans ?_
    rw [Nat.add_assoc, Nat.add_comm 1 k]

theorem parse_padded (language : Language) (source : String) (k : Nat) : parse language (padded k source) =
    movedResult k (ParsedSource.moved k (lineCount (padded k source).toList)) (parse language source) := by
  have hrun := run_newlines (Dialect.regular_ofLanguage language) 0 k source.toList
  rw [Nat.zero_add] at hrun
  rw [parse_eq, parse_eq, padded, String.toList_ofList]
  have hrun : run (.ofLanguage language) {} (List.replicate k '\n' ++ source.toList) = _ :=
    hrun.trans (run_below (fun _ ↦ rfl) nofun (Dialect.regular_ofLanguage language) (.start _ 1))
  rw [hrun]
  cases run (.ofLanguage language) {} source.toList with
  | error e => rfl
  | ok s =>
    show (finish (State.below {} k s)).map _ = movedResult _ _ ((finish s).map _)
    rw [finish_below]
    cases finish s with
    | error e => rfl
    | ok s' => simp [movedResult, Except.map, State.parsed, State.below, ParsedSource.moved]

theorem nosonarLines_moved (k lineCount : Nat) (p : ParsedSource) :
    nosonarLines (p.moved k lineCount) = (nosonarLines p).map (· + k) := by
  have hsilences : silences ∘ Comment.moved k = silences := rfl
  simp only [nosonarLines, ParsedSource.moved, List.filter_map, hsilences, List.map_map, ← ascending_add]
  rfl

end Source

end AnalysisServer
