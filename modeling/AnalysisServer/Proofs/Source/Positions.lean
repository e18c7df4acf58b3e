import AnalysisServer.Proofs.Source.Scanning

namespace AnalysisServer.Source

open List

def HasLine (source : List Char) (n : Nat) : Prop :=
  ∃ before c after, source = before ++ c :: after ∧ c ≠ '\n' ∧ n = 1 + Text.newlines before

/-- A comment as it is written, with its marks; one that starts with a line mark has no end. -/
inductive Dialect.Writes (d : Dialect) (text : List Char) : List Char → Prop
  | line {mark} (h : d.lineComment = some mark) (htext : '\n' ∉ text) : Writes d text (mark ++ text)
  | block {marks} (h : d.blockComment = some marks) : Writes d text (marks.1 ++ text ++ marks.2)

/-- Comments that follow each other in a source, the last one in front, with the lines they begin and end at. -/
inductive Found (d : Dialect) : List Char → List Comment → Prop
  | none {source} : Found d source []
  | next {before written c cs} (after : List Char) (h : Found d before cs)
      (hwritten : d.Writes c.text.toList written) (hline : c.line = 1 + Text.newlines before)
      (hend : c.endLine = c.line + Text.newlines c.text.toList) : Found d (before ++ written ++ after) (c :: cs)

theorem Found.extent {d : Dialect} {source : List Char} {cs : List Comment} (h : Found d source cs) :
    ∀ c ∈ cs, 1 ≤ c.line ∧ c.endLine = c.line + Text.newlines c.text.toList := by
  induction h with
  | none => simp
  | next after _ _ hline hend ih =>
    refine forall_mem_cons.mpr ⟨⟨?_, hend⟩, ih⟩
    rw [hline]
    exact Nat.le_add_right _ _

def IsMark (mark : List Char) : Prop :=
  mark ≠ [] ∧ '\n' ∉ mark

structure Dialect.Regular (d : Dialect) : Prop where
  line : ∀ mark ∈ d.lineComment, IsMark mark
  block : ∀ marks ∈ d.blockComment, IsMark marks.1 ∧ IsMark marks.2

theorem Dialect.regular_ofLanguage (language : Language) : (ofLanguage language).Regular := by
  cases language <;> constructor <;> simp [ofLanguage, script, style, markup, yaml, IsMark]

section Lines

variable {source more mark : List Char} {n : Nat}

theorem HasLine.append (h : HasLine source n) (more : List Char) : HasLine (source ++ more) n := by
  obtain ⟨before, c, after, rfl, hc, hn⟩ := h
  exact ⟨before, c, after ++ more, by simp, hc, hn⟩

theorem IsMark.newlines (h : IsMark mark) : Text.newlines mark = 0 :=
  count_eq_zero_of_not_mem h.2

theorem IsMark.hasLine (h : IsMark mark) (before after : List Char) :
    HasLine (before ++ (mark ++ after)) (1 + Text.newlines before) := by
  obtain ⟨c, rest, rfl⟩ := exists_cons_of_ne_nil h.1
  refine ⟨before, c, rest ++ after, by simp, ?_, rfl⟩
  rintro rfl
  exact h.2 (.head _)

theorem lines_ne_nil (c : Char) (cs : List Char) : Text.lines (c :: cs) ≠ [] := by
  generalize hall : c :: cs = all
  fun_cases Text.lines all with
  | case1 => cases hall
  | _ => simp

theorem length_lines_cons (c : Char) {cs : List Char} (h : cs ≠ []) :
    (Text.lines (c :: cs)).length = Text.newlines [c] + (Text.lines cs).length := by
  generalize hall : c :: cs = all
  fun_cases Text.lines all with
  | case1 => cases hall
  | case2 tail =>
    cases hall
    simp [Text.newlines, Nat.add_comm]
  | case3 tail =>
    cases hall
    simp [Text.lines, newlines_of_ne]
  | case4 c' cs' hnewline hreturn hlines =>
    cases hall
    obtain ⟨c', cs', rfl⟩ := exists_cons_of_ne_nil h
    exact absurd hlines (lines_ne_nil c' cs')
  | case5 c' cs' hnewline hreturn l ls hlines =>
    cases hall
    simp [newlines_of_ne hnewline, hlines]

theorem HasLine.bounds (h : HasLine source n) : 1 ≤ n ∧ n ≤ lineCount source := by
  obtain ⟨before, c, after, rfl, hc, rfl⟩ := h
  refine ⟨Nat.le_add_right _ _, Nat.le_trans ?_ (Nat.le_max_right _ _)⟩
  induction before with
  | nil => exact length_pos_iff.mpr (lines_ne_nil c after)
  | cons c' before ih =>
    rw [cons_append, Text.newlines_cons, length_lines_cons c' (by simp)]
    omega

end Lines

section Comments

variable {d : Dialect} {source before : List Char} {cs : List Comment}

theorem Found.append (h : Found d source cs) (more : List Char) : Found d (source ++ more) cs := by
  cases h with
  | none => exact .none
  | next after h hwritten hline hend =>
    rw [append_assoc _ after]
    exact .next (after ++ more) h hwritten hline hend

theorem Found.add {text written : List Char} {line endLine : Nat} (h : Found d before cs)
    (hwritten : d.Writes text written) (hline : line = 1 + Text.newlines before)
    (hend : endLine = line + Text.newlines text) (after : List Char) :
    Found d (before ++ written ++ after) (⟨line, endLine, String.ofList text⟩ :: cs) := by
  refine .next after h ?_ hline ?_ <;> rwa [String.toList_ofList]

theorem Dialect.Writes.newlines {text written : List Char} (hd : d.Regular) (h : d.Writes text written) :
    Text.newlines written = Text.newlines text := by
  cases h with
  | line h => rw [Text.newlines_append, (hd.line _ h).newlines, Nat.zero_add]
  | block h =>
    obtain ⟨hopen, hclose⟩ := hd.block _ h
    rw [Text.newlines_append, Text.newlines_append, hopen.newlines, hclose.newlines, Nat.zero_add, Nat.add_zero]

section

variable (hd : d.Regular) (h : Found d source cs)

include hd h

theorem Found.endLine_le : ∀ c ∈ cs, c.endLine ≤ 1 + Text.newlines source := by
  induction h with
  | none => exact nofun
  | @next before written c cs after _ hwritten hline hend ih =>
    rw [Text.newlines_append, Text.newlines_append, hwritten.newlines hd]
    intro c' hc'
    obtain rfl | hc' := mem_cons.mp hc'
    · omega
    · have := ih c' hc'
      omega

theorem Found.pairwise : cs.Pairwise fun c c' ↦ c'.endLine ≤ c.line := by
  induction h with
  | none => exact .nil
  | next after h hwritten hline hend ih => exact .cons (hline ▸ h.endLine_le hd) ih

theorem Found.hasLine : ∀ c ∈ cs, HasLine source c.endLine := by
  induction h with
  | none => exact nofun
  | @next before written c cs after _ hwritten hline hend ih =>
    intro c' hc'
    obtain rfl | hc' := mem_cons.mp hc'
    · refine .append ?_ after
      rw [hend, hline]
      cases hwritten with
      | line h htext =>
        rw [show Text.newlines c'.text.toList = 0 from count_eq_zero_of_not_mem htext]
        exact (hd.line _ h).hasLine before _
      | @block marks h =>
        have hline := (hd.block _ h).2.hasLine (before ++ (marks.1 ++ c'.text.toList)) []
        rw [Text.newlines_append, Text.newlines_append, (hd.block _ h).1.newlines, ← Nat.add_assoc] at hline
        simpa using hline
    · rw [append_assoc]
      exact (ih c' hc').append _

end

end Comments

section Scanner

variable {d : Dialect} {source seen rest reached : List Char} {s s' : State} {c : Char}

def Traced (d : Dialect) (source reached : List Char) (comments : List Comment) : Mode → Prop
  | .lineComment line text => ∃ before mark, d.lineComment = some mark ∧ reached = before ++ mark ++ text.reverse ∧
      '\n' ∉ text ∧ line = 1 + Text.newlines before ∧ Found d before comments
  | .blockComment line text => ∃ before marks, d.blockComment = some marks ∧
      reached = before ++ marks.1 ++ text.reverse ∧ line = 1 + Text.newlines before ∧ Found d before comments
  | .template line => HasLine source line ∧ Found d reached comments
  | _ => Found d reached comments

/-- The scanner has read a part of a source. -/
structure Sound (d : Dialect) (source seen rest : List Char) (s : State) : Prop where
  split : source = seen ++ rest
  line : s.line = 1 + Text.newlines seen
  codeLines : ∀ n ∈ s.codeLines, HasLine source n
  brackets : ∀ b ∈ s.brackets, HasLine source b.2
  mode : Traced d source (seen ++ rest.take s.skip) s.comments s.mode

def Locates (source : List Char) (e : AnalysisError) : Prop :=
  ∃ message line, e = .parsing message (some line) ∧ HasLine source line

namespace Sound

section

variable (h : Sound d source seen (c :: rest) s)

include h

theorem hasLine (hc : c ≠ '\n') : HasLine source s.line :=
  ⟨seen, c, rest, h.split, hc, h.line⟩

/-- The scanner goes on by a character. What it does besides is to be told. -/
theorem next (hline : s'.line = s.line + Text.newlines [c])
    (hcode : ∀ n ∈ s'.codeLines, n ∈ s.codeLines ∨ n = s.line ∧ c ≠ '\n')
    (hbrackets : ∀ b ∈ s'.brackets, b ∈ s.brackets ∨ b.2 = s.line ∧ c ≠ '\n')
    (hmode : Traced d source (seen ++ c :: rest.take s'.skip) s'.comments s'.mode) :
    Sound d source (seen ++ [c]) rest s' where
  split := by rw [h.split, append_assoc, singleton_append]
  line := by rw [hline, h.line, Text.newlines_append, Nat.add_assoc]
  codeLines n hn := by
    obtain hn | ⟨rfl, hc⟩ := hcode n hn
    · exact h.codeLines n hn
    · exact h.hasLine hc
  brackets b hb := by
    obtain hb | ⟨hline, hc⟩ := hbrackets b hb
    · exact h.brackets b hb
    · exact hline ▸ h.hasLine hc
  mode := by rwa [append_assoc]

theorem mark (hfound : Found d seen s.comments) (hc : c ≠ '\n')
    {codeLines : List Nat} (hnotes : Notes s.codeLines [s.line] codeLines) {mode : Mode}
    (hmode : mode ∈ [.code, .string c, .template s.line, .regex false]) {brackets : List (Char × Nat)}
    (hbrackets : ∀ b ∈ brackets, b ∈ s.brackets ∨ b.2 = s.line) (last : Option Char) :
    Sound d source (seen ++ [c]) rest { s with codeLines, mode, brackets, last } := by
  refine h.next ?_ (fun n hn ↦ ?_) (fun b hb ↦ (hbrackets b hb).imp_right (⟨·, hc⟩)) ?_
  · rw [newlines_of_ne hc, Nat.add_zero]
  · exact ((hnotes n).mp hn).imp_right fun hn ↦ ⟨mem_singleton.mp hn, hc⟩
  · have hfound : Found d (seen ++ c :: rest.take s.skip) s.comments := hfound.append _
    simp only [mem_cons, not_mem_nil, or_false] at hmode
    obtain rfl | rfl | rfl | rfl := hmode
    · exact hfound
    · exact hfound
    · exact ⟨h.hasLine hc, hfound⟩
    · exact hfound

theorem pass (hfound : Found d seen s.comments) (mode : Mode)
    (hmode : ∀ reached, Found d reached s.comments → Traced d source reached s.comments mode) {line : Nat}
    (hline : line = s.line + Text.newlines [c]) (skip : Nat) (last : Option Char) :
    Sound d source (seen ++ [c]) rest { s with line, mode, skip, last } :=
  h.next hline (fun _ hn ↦ .inl hn) (fun _ hb ↦ .inl hb) (hmode _ (hfound.append _))

end

end Sound

theorem Sound.found_addComment (hd : d.Regular) (h : Sound d source seen rest s) {line : Nat} {text : List Char}
    (hmode : Traced d source seen s.comments (.lineComment line text)) (after : List Char) :
    Found d (seen ++ after) (s.addComment line text).comments := by
  obtain ⟨before, mark, hmark, hseen, htext, hline, hfound⟩ := hmode
  have hend : s.line = line + Text.newlines text.reverse := by
    rw [h.line, hseen, Text.newlines_append, Text.newlines_append, (hd.line mark hmark).newlines, hline, Nat.add_zero,
      Nat.add_assoc]
  have hfound' := hfound.add (.line hmark (by simpa using htext)) hline hend after
  rwa [← append_assoc, ← hseen] at hfound'

def Steps (d : Dialect) (source seen rest : List Char) : Except AnalysisError State → Prop
  | .ok s => Sound d source seen rest s
  | .error e => Locates source e

theorem plainStep_steps (h : Sound d source seen (c :: rest) s) (hmode : s.mode = .code)
    (hfound : Found d seen s.comments) : Steps d source (seen ++ [c]) rest (plainStep d s c) := by
  have hself : ∀ b ∈ s.brackets, b ∈ s.brackets ∨ b.2 = s.line := fun b hb ↦ .inl hb
  obtain ⟨codeLines, hcode, hnotes⟩ := s.exists_code c
  unfold plainStep
  rw [hcode]
  split
  · rw [State.advance_eq]
    refine h.next rfl (fun n hn ↦ .inl hn) (fun b hb ↦ .inl hb) ?_
    rw [hmode]
    exact hfound.append _
  rename_i hblank
  have hc : c ≠ '\n' := by
    rintro rfl
    exact hblank rfl
  split
  · exact h.mark hfound hc hnotes (by simp) hself _
  split
  · exact h.mark hfound hc hnotes (by simp) hself _
  split
  · exact h.mark hfound hc hnotes (by simp) hself _
  split
  · exact h.mark hfound hc hnotes (by simp [hmode]) (fun b hb ↦ (mem_cons.mp hb).symm.imp_right (congrArg Prod.snd)) _
  split
  · unfold closeBracket
    split
    · exact ⟨_, _, rfl, h.hasLine hc⟩
    · rename_i b _ brackets hbrackets
      split
      · obtain ⟨codeLines', hcode', hnotes'⟩ := State.exists_code { s with brackets } c
        rw [Except.map, hcode']
        refine h.mark hfound hc hnotes' (by simp [hmode]) (fun b' hb' ↦ .inl ?_) _
        rw [hbrackets]
        exact .tail _ hb'
      · exact ⟨_, _, rfl, h.hasLine hc⟩
  · exact h.mark hfound hc hnotes (by simp [hmode]) hself _

theorem IsMark.take {mark : List Char} (hmark : IsMark mark) (hfront : Text.startsWith mark (c :: rest) = true) :
    c ≠ '\n' ∧ c :: rest.take (mark.length - 1) = mark := by
  obtain ⟨c', mark, rfl⟩ := exists_cons_of_ne_nil hmark.1
  obtain ⟨rfl, hrest⟩ := cons_prefix_cons.mp ((startsWith_iff _ _).mp hfront)
  refine ⟨fun hc ↦ hmark.2 (hc ▸ mem_cons_self), ?_⟩
  rw [length_cons, Nat.add_sub_cancel, ← prefix_iff_eq_take.mp hrest]

theorem codeStep_steps (hd : d.Regular) (h : Sound d source seen (c :: rest) s) (hmode : s.mode = .code)
    (hfound : Found d seen s.comments) : Steps d source (seen ++ [c]) rest (codeStep d s c rest) := by
  unfold codeStep
  split
  · rename_i mark hmark
    obtain ⟨hmark, hfront⟩ := Option.filter_eq_some_iff.mp hmark
    obtain ⟨hc, htaken⟩ := (hd.line mark hmark).take hfront
    refine h.next ?_ (fun n hn ↦ .inl hn) (fun b hb ↦ .inl hb) ?_
    · rw [newlines_of_ne hc, Nat.add_zero]
    · exact ⟨seen, mark, hmark, by simp [htaken], not_mem_nil, h.line, hfound⟩
  · split
    · rename_i marks hmarks
      obtain ⟨hmarks, hfront⟩ := Option.filter_eq_some_iff.mp hmarks
      obtain ⟨hc, htaken⟩ := (hd.block marks hmarks).1.take hfront
      refine h.next ?_ (fun n hn ↦ .inl hn) (fun b hb ↦ .inl hb) ?_
      · rw [newlines_of_ne hc, Nat.add_zero]
      · exact ⟨seen, marks, hmarks, by simp [htaken], h.line, hfound⟩
    · exact plainStep_steps h hmode hfound

theorem step_steps (hd : d.Regular) (h : Sound d source seen (c :: rest) s) :
    Steps d source (seen ++ [c]) rest (step d s c rest) := by
  have hmode := h.mode
  unfold step
  split
  · rename_i hskip
    rw [State.advance_eq]
    refine h.next rfl (fun n hn ↦ .inl hn) (fun b hb ↦ .inl hb) ?_
    rwa [take_cons hskip] at hmode
  rename_i hskip
  rw [Nat.eq_zero_of_not_pos hskip, take_zero, append_nil] at hmode
  split
  case h_1 hm =>
    rw [hm] at hmode
    exact codeStep_steps hd h hm hmode
  case h_2 line text hm =>
    rw [hm] at hmode
    obtain ⟨before, mark, hmark, hseen, htext, hline, hfound⟩ := hmode
    split
    · rename_i hc
      subst hc
      refine h.next rfl (fun n hn ↦ .inl hn) (fun b hb ↦ .inl hb) ?_
      exact h.found_addComment hd ⟨before, mark, hmark, hseen, htext, hline, hfound⟩ _
    · rename_i hc
      refine h.next ?_ (fun n hn ↦ .inl hn) (fun b hb ↦ .inl hb) ?_
      · rw [newlines_of_ne hc, Nat.add_zero]
      · refine ⟨before, mark, hmark, ?_, ?_, hline, hfound⟩
        · simp [hseen, Nat.eq_zero_of_not_pos hskip]
        · simpa [Ne.symm hc] using htext
  case h_3 line text hm =>
    rw [hm] at hmode
    obtain ⟨before, marks, hmarks, hseen, hline, hfound⟩ := hmode
    obtain ⟨hopen, hclose⟩ := hd.block marks hmarks
    rw [hmarks]
    dsimp only
    split
    · rename_i hfront
      obtain ⟨hc, htaken⟩ := hclose.take hfront
      refine h.next ?_ (fun n hn ↦ .inl hn) (fun b hb ↦ .inl hb) ?_
      · rw [newlines_of_ne hc]
        rfl
      · have hend : s.line = line + Text.newlines text.reverse := by
          rw [h.line, hseen, Text.newlines_append, Text.newlines_append, hopen.newlines, hline, Nat.add_zero,
            Nat.add_assoc]
        have hfound' := hfound.add (.block hmarks) hline hend []
        show Found d (seen ++ c :: rest.take (marks.2.length - 1)) (⟨line, s.line, _⟩ :: s.comments)
        rw [htaken, hseen]
        simpa using hfound'
    · rw [State.advance_eq]
      refine h.next rfl (fun n hn ↦ .inl hn) (fun b hb ↦ .inl hb) ⟨before, marks, hmarks, ?_, hline, hfound⟩
      simp [hseen, Nat.eq_zero_of_not_pos hskip]
  case h_4 quote hm =>
    rw [hm] at hmode
    have hstays : ∀ reached, Found d reached s.comments → Traced d source reached s.comments s.mode := by
      rw [hm]
      exact fun _ h ↦ h
    split
    · rw [State.advance_eq]
      exact h.pass hmode .code (fun _ h ↦ h) rfl s.skip s.last
    rename_i hc
    have hline : s.line = s.line + Text.newlines [c] := by rw [newlines_of_ne hc, Nat.add_zero]
    split
    · exact h.pass hmode s.mode hstays hline _ s.last
    split
    · exact h.pass hmode .code (fun _ h ↦ h) hline s.skip s.last
    · exact h.pass hmode s.mode hstays hline s.skip s.last
  case h_5 start hm =>
    rw [hm] at hmode
    have hstays : ∀ reached, Found d reached s.comments → Traced d source reached s.comments s.mode := by
      rw [hm]
      exact fun _ h ↦ ⟨hmode.1, h⟩
    have hline (hc : c ≠ '\n') : s.line = s.line + Text.newlines [c] := by rw [newlines_of_ne hc, Nat.add_zero]
    split
    · rename_i hc
      exact h.pass hmode.2 s.mode hstays (hline (by rw [hc]; decide)) 1 s.last
    split
    · rename_i hc
      exact h.pass hmode.2 .code (fun _ h ↦ h) (hline (by rw [hc]; decide)) s.skip _
    split
    · rw [State.advance_eq]
      exact h.pass hmode.2 s.mode hstays rfl s.skip s.last
    · rename_i hc
      obtain ⟨codeLines, hadd, hnotes⟩ := s.exists_addLine
      rw [hadd]
      refine h.next (hline hc) (fun n hn ↦ ?_) (fun b hb ↦ .inl hb) (hstays _ (hmode.2.append _))
      exact ((hnotes n).mp hn).imp_right fun hn ↦ ⟨mem_singleton.mp hn, hc⟩
  case h_6 inClass hm =>
    rw [hm] at hmode
    have hregex (inClass : Bool) : ∀ reached, Found d reached s.comments →
        Traced d source reached s.comments (.regex inClass) := fun _ h ↦ h
    split
    · rw [State.advance_eq]
      exact h.pass hmode .code (fun _ h ↦ h) rfl s.skip s.last
    rename_i hc
    have hline : s.line = s.line + Text.newlines [c] := by rw [newlines_of_ne hc, Nat.add_zero]
    split
    · exact h.pass hmode s.mode (hm ▸ hregex inClass) hline _ s.last
    split
    · exact h.pass hmode (.regex true) (hregex true) hline s.skip s.last
    split
    · exact h.pass hmode (.regex false) (hregex false) hline s.skip s.last
    split
    · exact h.pass hmode .flags (fun _ h ↦ h) hline s.skip _
    · exact h.pass hmode s.mode (hm ▸ hregex inClass) hline s.skip s.last
  case h_7 hm =>
    rw [hm] at hmode
    split
    · rename_i hletter
      have hc : c ≠ '\n' := by
        rintro rfl
        cases hletter
      exact h.pass hmode s.mode (by rw [hm]; exact fun _ h ↦ h) (by rw [newlines_of_ne hc, Nat.add_zero]) s.skip s.last
    · exact codeStep_steps hd ⟨h.split, h.line, h.codeLines, h.brackets, hmode.append _⟩ rfl hmode

theorem run_steps (hd : d.Regular) (h : Sound d source seen rest s) : Steps d source source [] (run d s rest) := by
  induction rest generalizing seen s with
  | nil =>
    obtain rfl : source = seen := by rw [h.split, append_nil]
    exact h
  | cons c rest ih =>
    have hstep := step_steps hd h
    rw [run]
    cases hs : step d s c rest with
    | ok s' =>
      rw [hs] at hstep
      exact ih hstep
    | error e =>
      rw [hs] at hstep
      exact hstep

theorem Sound.start (d : Dialect) (source : List Char) : Sound d source [] source {} :=
  ⟨rfl, rfl, by simp, by simp, .none⟩

theorem finish_steps (hd : d.Regular) (h : Sound d source source [] s) :
    match finish s with
    | .ok s' => (∀ n ∈ s'.codeLines, HasLine source n) ∧ Found d source s'.comments
    | .error e => Locates source e := by
  have hmode := h.mode
  rw [take_nil, append_nil] at hmode
  unfold finish
  cases hm : s.mode with
  | blockComment line text =>
    rw [hm] at hmode
    obtain ⟨before, marks, hmarks, hsource, hline, -⟩ := hmode
    refine ⟨_, _, rfl, ?_⟩
    rw [hsource, hline, append_assoc]
    exact (hd.block marks hmarks).1.hasLine before _
  | template line =>
    rw [hm] at hmode
    exact ⟨_, _, rfl, hmode.1⟩
  | lineComment line text =>
    rw [hm] at hmode
    cases hb : s.brackets with
    | nil =>
      have hfound := h.found_addComment hd hmode []
      rw [append_nil] at hfound
      exact ⟨h.codeLines, hfound⟩
    | cons b bs => exact ⟨_, _, rfl, h.brackets b (hb ▸ mem_cons_self)⟩
  | _ =>
    rw [hm] at hmode
    cases hb : s.brackets with
    | nil => exact ⟨h.codeLines, hmode⟩
    | cons b bs => exact ⟨_, _, rfl, h.brackets b (hb ▸ mem_cons_self)⟩

theorem parse_steps (language : Language) (source : String) :
    match parse language source with
    | .ok p => p.lineCount = lineCount source.toList ∧ (∀ n ∈ p.codeLines, HasLine source.toList n) ∧
        Found (.ofLanguage language) source.toList p.comments.reverse
    | .error e => Locates source.toList e := by
  have hd := Dialect.regular_ofLanguage language
  have hrun := run_steps hd (.start (.ofLanguage language) source.toList)
  rw [parse_eq]
  cases hs : run (.ofLanguage language) {} source.toList with
  | error e =>
    rw [hs] at hrun
    exact hrun
  | ok s =>
    rw [hs] at hrun
    have hfinish := finish_steps hd hrun
    rw [show (Except.ok s >>= finish) = finish s from rfl]
    cases hf : finish s with
    | error e =>
      rw [hf] at hfinish
      exact hfinish
    | ok s' =>
      rw [hf] at hfinish
      refine ⟨rfl, fun n hn ↦ hfinish.1 n (mem_reverse.mp hn), ?_⟩
      rw [show (s'.parsed source.toList).comments = s'.comments.reverse from rfl, reverse_reverse]
      exact hfinish.2

end Scanner

section Order

variable {d : Dialect} {rest : List Char} {s s' : State} {c : Char}

theorem State.addLine_eq (s : State) : s.addLine = { s with codeLines := s.addLine.codeLines } := by
  unfold addLine
  split <;> rfl

theorem State.codeLines_addLine (s : State) : s.addLine.codeLines = s.codeLines ∨
    s.addLine.codeLines = s.line :: s.codeLines ∧ s.codeLines.head? ≠ some s.line := by
  unfold addLine
  split
  · exact .inl rfl
  · rename_i h
    exact .inr ⟨rfl, h⟩

theorem plainStep_cases (h : plainStep d s c = .ok s') : s' = s.advance c ∨
    ∃ mode brackets, s' = { s with mode, brackets, codeLines := s.addLine.codeLines, last := some c } := by
  have hcode : s.code c = { s with codeLines := s.addLine.codeLines, last := some c } := by
    rw [State.code, s.addLine_eq]
  unfold plainStep at h
  rw [hcode] at h
  split at h
  · exact .inl (Except.ok.inj h).symm
  refine .inr ?_
  split at h
  · exact ⟨_, _, (Except.ok.inj h).symm⟩
  split at h
  · exact ⟨_, _, (Except.ok.inj h).symm⟩
  split at h
  · exact ⟨_, _, (Except.ok.inj h).symm⟩
  split at h
  · exact ⟨_, _, (Except.ok.inj h).symm⟩
  split at h
  · unfold closeBracket at h
    split at h
    · cases h
    · rename_i b line brackets hb
      split at h
      · have hclosed : s' = State.code { s with brackets } c := (Except.ok.inj h).symm
        rw [State.code, State.addLine_eq] at hclosed
        refine ⟨s.mode, brackets, hclosed.trans ?_⟩
        unfold State.addLine
        split <;> rfl
      · cases h
  · exact ⟨_, _, (Except.ok.inj h).symm⟩

structure Goes (rest : List Char) (s s' : State) : Prop where
  line : s.line ≤ s'.line
  codeLines : s'.codeLines = s.codeLines ∨ s'.codeLines = s.line :: s.codeLines ∧ s.codeLines.head? ≠ some s.line
  skip : s'.skip ≤ rest.length ∨ ∃ line, s'.mode = .template line

theorem IsMark.length_le {mark : List Char} (hmark : IsMark mark) (hfront : Text.startsWith mark (c :: rest) = true) :
    mark.length - 1 ≤ rest.length := by
  have hlength := congrArg List.length (hmark.take hfront).2
  rw [length_cons, length_take] at hlength
  omega

theorem codeStep_goes (hd : d.Regular) (hskip : s.skip = 0) (h : codeStep d s c rest = .ok s') : Goes rest s s' := by
  have hsize : s.skip ≤ rest.length := hskip ▸ Nat.zero_le _
  unfold codeStep at h
  split at h
  · rename_i mark hfilter
    obtain ⟨hline, hfront⟩ := Option.filter_eq_some_iff.mp hfilter
    cases h
    exact ⟨Nat.le_refl _, .inl rfl, .inl ((hd.line mark hline).length_le hfront)⟩
  split at h
  · rename_i marks hfilter
    obtain ⟨hblock, hfront⟩ := Option.filter_eq_some_iff.mp hfilter
    cases h
    exact ⟨Nat.le_refl _, .inl rfl, .inl ((hd.block marks hblock).1.length_le hfront)⟩
  obtain rfl | ⟨mode, brackets, rfl⟩ := plainStep_cases h
  · rw [State.advance_eq]
    exact ⟨Nat.le_add_right _ _, .inl rfl, .inl hsize⟩
  · exact ⟨Nat.le_refl _, s.codeLines_addLine, .inl hsize⟩

theorem escapeLength_le (rest : List Char) : escapeLength rest ≤ rest.length := by
  unfold escapeLength
  split <;> simp

theorem step_goes (hd : d.Regular) (hsize : s.skip ≤ rest.length + 1 ∨ ∃ line, s.mode = .template line)
    (h : step d s c rest = .ok s') : Goes rest s s' := by
  simp only [step, State.advance_eq] at h
  split at h
  · cases h
    exact ⟨Nat.le_add_right _ _, .inl rfl, hsize.imp_left Nat.sub_le_of_le_add⟩
  rename_i hskip
  have hskip : s.skip = 0 := Nat.eq_zero_of_not_pos hskip
  -- where neither a mark nor an escape is met, no more is decided about
  have hstays {mode line codeLines comments last} (hline : s.line ≤ line)
      (hcode : codeLines = s.codeLines ∨ codeLines = s.line :: s.codeLines ∧ s.codeLines.head? ≠ some s.line) :
      Goes rest s { s with mode, line, codeLines, comments, last } :=
    ⟨hline, hcode, .inl (hskip ▸ Nat.zero_le _)⟩
  have hpasses := Nat.le_add_right s.line (Text.newlines [c])
  cases hm : s.mode with
  | code =>
    rw [hm] at h
    exact codeStep_goes hd hskip h
  | flags =>
    simp only [hm] at h
    split at h
    · cases h
      exact hstays (Nat.le_refl _) (.inl rfl)
    · obtain ⟨hline, hcode, hskip⟩ := codeStep_goes hd (s := { s with mode := .code }) hskip h
      exact ⟨hline, hcode, hskip⟩
  | lineComment line text =>
    simp only [hm] at h
    split at h <;> cases h
    · exact hstays hpasses (.inl rfl)
    · exact hstays (Nat.le_refl _) (.inl rfl)
  | blockComment line text =>
    simp only [hm] at h
    split at h <;> cases h
    · rename_i hfront
      refine ⟨Nat.le_refl _, .inl rfl, .inl ?_⟩
      cases hmarks : d.blockComment with
      | none => exact Nat.zero_le _
      | some marks =>
        rw [hmarks] at hfront
        exact (hd.block marks hmarks).2.length_le hfront
    · exact hstays hpasses (.inl rfl)
  | string quote =>
    simp only [hm] at h
    split at h
    · cases h
      exact hstays hpasses (.inl rfl)
    split at h
    · cases h
      exact ⟨Nat.le_refl _, .inl rfl, .inl (escapeLength_le rest)⟩
    split at h <;> cases h <;> exact hstays (Nat.le_refl _) (.inl rfl)
  | template start =>
    simp only [hm] at h
    split at h
    · cases h
      exact ⟨Nat.le_refl _, .inl rfl, .inr ⟨start, rfl⟩⟩
    split at h
    · cases h
      exact hstays (Nat.le_refl _) (.inl rfl)
    split at h
    · cases h
      exact hstays hpasses (.inl rfl)
    · cases h
      rw [s.addLine_eq]
      exact hstays (Nat.le_refl _) s.codeLines_addLine
  | regex inClass =>
    simp only [hm] at h
    split at h
    · cases h
      exact hstays hpasses (.inl rfl)
    split at h
    · cases h
      exact ⟨Nat.le_refl _, .inl rfl, .inl (escapeLength_le rest)⟩
    split at h
    · cases h
      exact hstays (Nat.le_refl _) (.inl rfl)
    split at h
    · cases h
      exact hstays (Nat.le_refl _) (.inl rfl)
    split at h <;> cases h <;> exact hstays (Nat.le_refl _) (.inl rfl)

structure Ordered (rest : List Char) (s : State) : Prop where
  skip : s.skip ≤ rest.length ∨ ∃ line, s.mode = .template line
  below : ∀ n ∈ s.codeLines, n ≤ s.line
  descends : s.codeLines.Pairwise (· > ·)

theorem Ordered.start (rest : List Char) (line : Nat) : Ordered rest { line } :=
  ⟨.inl (Nat.zero_le _), by simp, .nil⟩

theorem Ordered.goes (h : Ordered (c :: rest) s) (hgoes : Goes rest s s') : Ordered rest s' := by
  obtain ⟨hline, hcode | ⟨hcode, hhead⟩, hskip⟩ := hgoes
  · exact ⟨hskip, fun n hn ↦ Nat.le_trans (h.below n (hcode ▸ hn)) hline, hcode ▸ h.descends⟩
  -- a line that is not the last one noted is further down than all of them
  · have hbelow : ∀ n ∈ s.codeLines, n < s.line := by
      have hdescends := h.descends
      have hle := h.below
      cases hlines : s.codeLines with
      | nil => simp
      | cons m ms =>
        rw [hlines] at hhead hdescends hle
        have hm : m < s.line := Nat.lt_of_le_of_ne (hle m mem_cons_self) (by simpa using hhead)
        intro n hn
        obtain rfl | hn := mem_cons.mp hn
        · exact hm
        · exact Nat.lt_trans ((pairwise_cons.mp hdescends).1 n hn) hm
    refine ⟨hskip, fun n hn ↦ ?_, hcode ▸ .cons hbelow h.descends⟩
    rw [hcode] at hn
    obtain rfl | hn := mem_cons.mp hn
    · exact hline
    · exact Nat.le_trans (h.below n hn) hline

theorem run_ordered (hd : d.Regular) (h : Ordered rest s) (hrun : run d s rest = .ok s') : Ordered [] s' := by
  induction rest generalizing s with
  | nil => exact Except.ok.inj hrun ▸ h
  | cons c rest ih =>
    rw [run] at hrun
    split at hrun
    · rename_i t hstep
      exact ih (h.goes (step_goes hd h.skip hstep)) hrun
    · cases hrun

theorem finish_ordered (h : Ordered [] s) (hfinish : finish s = .ok s') : s.skip = 0 ∧ s'.codeLines = s.codeLines := by
  obtain ⟨mode, skip, line, codeLines, comments, brackets, last⟩ := s
  have hskip (hmode : ∀ line, mode ≠ .template line) : skip = 0 :=
    Nat.eq_zero_of_le_zero (h.skip.resolve_right (not_exists.mpr hmode))
  cases mode <;> cases brackets <;> cases hfinish <;> exact ⟨hskip (by simp), rfl⟩

theorem exists_of_parse {language : Language} {source : String} {p : ParsedSource} (h : parse language source = .ok p) :
    ∃ s e, run (.ofLanguage language) {} source.toList = .ok s ∧ finish s = .ok e ∧ p = e.parsed source.toList := by
  rw [parse_eq] at h
  cases hrun : run (.ofLanguage language) {} source.toList with
  | error e =>
    rw [hrun] at h
    cases h
  | ok s =>
    rw [hrun] at h
    cases hfinish : finish s with
    | error e =>
      rw [show (Except.ok s >>= finish) = finish s from rfl, hfinish] at h
      cases h
    | ok e =>
      rw [show (Except.ok s >>= finish) = finish s from rfl, hfinish] at h
      exact ⟨s, e, rfl, hfinish, (Except.ok.inj h).symm⟩

end Order

/-- Where the scanner says that something is, it is. Lines are those of the source; the comments follow each other in
it with their marks and lines; and where it fails, it tells one of the lines. -/
theorem positions_sound (language : Language) (source : String) :
    match parse language source with
    | .ok p => p.lineCount = max 1 (Text.lines source.toList).length ∧ (∀ n ∈ p.codeLines, 1 ≤ n ∧ n ≤ p.lineCount) ∧
        Found (.ofLanguage language) source.toList p.comments.reverse ∧
        (∀ c ∈ p.comments, c.endLine ≤ p.lineCount) ∧
        p.comments.Pairwise fun c c' ↦ c.endLine ≤ c'.line
    | .error e => ∃ message line, e = .parsing message (some line) ∧ 1 ≤ line ∧
        line ≤ max 1 (Text.lines source.toList).length := by
  have hd := Dialect.regular_ofLanguage language
  have hsteps := parse_steps language source
  cases h : parse language source with
  | error e =>
    rw [h] at hsteps
    obtain ⟨message, line, he, hline⟩ := hsteps
    exact ⟨message, line, he, hline.bounds⟩
  | ok p =>
    rw [h] at hsteps
    obtain ⟨hcount, hcodeLines, hfound⟩ := hsteps
    refine ⟨hcount, fun n hn ↦ hcount ▸ (hcodeLines n hn).bounds, hfound, fun c hc ↦ ?_, ?_⟩
    · exact hcount ▸ (hfound.hasLine hd c (mem_reverse.mpr hc)).bounds.2
    · exact pairwise_reverse.mp (hfound.pairwise hd)

end AnalysisServer.Source
