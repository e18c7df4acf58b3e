import AnalysisServer.Proofs.Source.Moving

namespace AnalysisServer.Source

open List

variable {d : Dialect} {k : Nat} {s s' e : State} {c : Char} {rest more : List Char}

theorem startsWith_join {mark : List Char} (h : '\n' ∉ mark) (cs more : List Char) :
    Text.startsWith mark (cs ++ '\n' :: more) = Text.startsWith mark cs := by
  unfold Text.startsWith
  induction mark generalizing cs with
  | nil => rfl
  | cons m mark ih =>
    obtain ⟨hm, hmark⟩ := not_or.mp (mt mem_cons.mpr h)
    cases cs with
    | nil => simp [Text.dropFront?, Ne.symm hm]
    | cons c cs =>
      simp only [cons_append, Text.dropFront?]
      split
      · exact ih hmark cs
      · rfl

theorem codeStep_join (hd : d.Regular) : codeStep d s c (rest ++ '\n' :: more) = codeStep d s c rest := by
  have hline : (d.lineComment.filter fun mark ↦ Text.startsWith mark (c :: rest ++ '\n' :: more)) =
      d.lineComment.filter fun mark ↦ Text.startsWith mark (c :: rest) := by
    cases h : d.lineComment with
    | none => rfl
    | some mark => rw [Option.filter_some, Option.filter_some, startsWith_join (hd.line mark h).2]
  have hblock : (d.blockComment.filter fun marks ↦ Text.startsWith marks.1 (c :: rest ++ '\n' :: more)) =
      d.blockComment.filter fun marks ↦ Text.startsWith marks.1 (c :: rest) := by
    cases h : d.blockComment with
    | none => rfl
    | some marks => rw [Option.filter_some, Option.filter_some, startsWith_join (hd.block marks h).1.2]
  rw [codeStep, ← cons_append, hline, hblock, codeStep]

theorem escapeLength_join : escapeLength (rest ++ '\n' :: more) = escapeLength rest := by
  cases rest with
  | nil => rfl
  | cons c rest =>
    by_cases h : c = '\n'
    · subst h
      rfl
    · simp [escapeLength]

theorem step_join (hd : d.Regular) : step d s c (rest ++ '\n' :: more) = step d s c rest := by
  have hclose : Text.startsWith ((d.blockComment.map (·.2)).getD []) (c :: rest ++ '\n' :: more) =
      Text.startsWith ((d.blockComment.map (·.2)).getD []) (c :: rest) := by
    cases h : d.blockComment with
    | none => rfl
    | some marks => exact startsWith_join (hd.block marks h).2.2 _ _
  rw [cons_append] at hclose
  simp only [step, codeStep_join hd, escapeLength_join, hclose]

theorem run_join (hd : d.Regular) : run d s (rest ++ '\n' :: more) = run d s rest >>= (run d · ('\n' :: more)) := by
  induction rest generalizing s with
  | nil => rfl
  | cons c rest ih =>
    rw [cons_append, run, run, step_join hd]
    cases step d s c rest with
    | ok s' => exact ih
    | error e => rfl

theorem step_newline (hd : d.Regular) (hskip : s.skip = 0) (h : finish s = .ok e) (rest : List Char) :
    step d s '\n' rest = .ok (e.below s.line {}) := by
  obtain ⟨mode, skip, line, codeLines, comments, brackets, last⟩ := s
  obtain rfl : skip = 0 := hskip
  cases brackets with
  | cons b brackets => cases mode <;> cases h
  | nil =>
    have hcode {last : Option Char} : codeStep d ⟨.code, 0, line, codeLines, comments, [], last⟩ '\n' rest =
        .ok ⟨.code, 0, line + 1, codeLines, comments, [], last⟩ := codeStep_newline hd _ rest
    cases mode with
    | blockComment => cases h
    | template => cases h
    | _ =>
      obtain rfl := Except.ok.inj h
      simp [step, hcode, State.below, Mode.moved, State.advance, State.addComment, Text.isAsciiLetter, Nat.add_comm]

theorem lineCount_join (cs : List Char) {more : List Char} (h : more ≠ []) :
    lineCount (cs ++ '\n' :: more) = 1 + Text.newlines cs + lineCount more := by
  have hlines : (Text.lines (cs ++ '\n' :: more)).length = 1 + Text.newlines cs + (Text.lines more).length := by
    induction cs with
    | nil => exact length_lines_cons '\n' h
    | cons c cs ih =>
      rw [cons_append, length_lines_cons c (by simp), ih, Text.newlines_cons c cs]
      omega
  obtain ⟨c, more, rfl⟩ := exists_cons_of_ne_nil h
  have hpos := length_pos_iff.mpr (lines_ne_nil c more)
  rw [lineCount, lineCount, hlines]
  omega

/-- What was found in two sources, in the one with the second below the first. -/
def joined (k : Nat) (p q : ParsedSource) : ParsedSource :=
  { lineCount := k + q.lineCount
    codeLines := p.codeLines ++ q.codeLines.map (· + k)
    comments := p.comments ++ q.comments.map (Comment.moved k) }

/-- A source of which no line depends on another one can be read in two parts. -/
theorem parse_joined {language : Language} (hlanguage : language ∈ [.css, .html, .yaml]) {source below : String}
    (hbelow : below ≠ "") {p q : ParsedSource} (hp : parse language source = .ok p)
    (hq : parse language below = .ok q) :
    parse language (source ++ "\n" ++ below) = .ok (joined (1 + Text.newlines source.toList) p q) := by
  have hd := Dialect.regular_ofLanguage language
  have hregexes : (Dialect.ofLanguage language).regexes = false := by
    simp only [mem_cons, not_mem_nil, or_false] at hlanguage
    obtain rfl | rfl | rfl := hlanguage <;> rfl
  obtain ⟨s, e, hrun, hfinish, rfl⟩ := exists_of_parse hp
  obtain ⟨t, f, hrun', hfinish', rfl⟩ := exists_of_parse hq
  have hline : s.line = 1 + Text.newlines source.toList := by
    have hsound := run_steps hd (.start (.ofLanguage language) source.toList)
    rw [hrun] at hsound
    exact hsound.line
  have hordered := run_ordered hd (.start source.toList 1) hrun
  obtain ⟨hskip, hlines⟩ := finish_ordered hordered hfinish
  have habove : ∀ n ∈ e.codeLines, n < 1 + s.line := by
    intro n hn
    have hle := hordered.below n (hlines ▸ hn)
    exact Nat.lt_of_le_of_lt hle (Nat.lt_add_of_pos_left Nat.one_pos)
  have hrunJoined : run (.ofLanguage language) {} (source.toList ++ '\n' :: below.toList) =
      .ok (e.below s.line t) := by
    rw [run_join hd, hrun]
    show run _ s ('\n' :: below.toList) = _
    rw [run, step_newline hd hskip hfinish]
    show run _ (e.below s.line {}) below.toList = _
    rw [run_below (by simp [hregexes]) habove hd (.start _ 1), hrun']
    rfl
  have hfinishJoined : finish (e.below s.line t) = .ok (e.below s.line f) := by
    rw [finish_below, hfinish']
    rfl
  have hmore : below.toList ≠ [] := by simpa using hbelow
  have hsource : (source ++ "\n" ++ below).toList = source.toList ++ '\n' :: below.toList := by simp
  rw [parse_eq, hsource, hrunJoined]
  show (finish (e.below s.line t)).map _ = _
  rw [hfinishJoined, hline]
  simp [Except.map, State.parsed, joined, State.below, lineCount_join _ hmore]

theorem parse_joined_open_string :
    parse .css "a\"\\" = .ok ⟨1, [1], []⟩ ∧ parse .css "b/*\n*/\r" = .ok ⟨2, [1], [⟨1, 2, "\n"⟩]⟩ ∧
    parse .css ("a\"\\" ++ "\n" ++ "b/*\n*/\r") = .ok ⟨3, [1, 2], [⟨2, 3, "\n"⟩]⟩ := by
  have hp : parse .css "a\"\\" = .ok ⟨1, [1], []⟩ := rfl
  have hq : parse .css "b/*\n*/\r" = .ok ⟨2, [1], [⟨1, 2, "\n"⟩]⟩ := rfl
  exact ⟨hp, hq, parse_joined (by decide) (by decide) hp hq⟩

end AnalysisServer.Source
