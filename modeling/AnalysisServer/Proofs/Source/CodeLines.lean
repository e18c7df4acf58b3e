import AnalysisServer.Proofs.Source.Scanning

namespace AnalysisServer.Source

open Lexeme (roles text)

variable {ls : List Lexeme} {n : Nat} {c : Char} {r : Role}

theorem role_of_on (h : On (ls.flatMap roles) n c r) (hblank : Text.isBlank c = false) (hr : r ≠ .comment) :
    r = .code ∨ r = .skipped := by
  obtain ⟨before, after, hls, -⟩ := h
  have hmem : (c, r) ∈ ls.flatMap roles := hls ▸ List.mem_append_right _ (.head _)
  obtain ⟨l, -, hl⟩ := List.mem_flatMap.mp hmem
  exact Lexeme.role_of_mem hl hblank hr

theorem fst_flatMap_roles (ls : List Lexeme) : (ls.flatMap roles).map Prod.fst = ls.flatMap text := by
  rw [List.map_flatMap]
  exact congrArg (ls.flatMap ·) (funext Lexeme.fst_roles)

theorem Lexes.flatMap_text {g : Grammar} {last : Option Char} {cs : List Char} (h : Lexes g last cs ls) :
    ls.flatMap text = cs := by
  induction h with
  | nil => rfl
  | cons _ _ ih => rw [List.flatMap_cons, ih]

theorem mem_noted_iff_on (ps : List (Char × Role)) (n : Nat) : n ∈ noted 1 ps ↔ ∃ c, On ps n c .code := by
  rw [mem_noted_iff]
  constructor
  · rintro ⟨before, c, after, hps, hn⟩
    exact ⟨c, before, after, hps, hn⟩
  · rintro ⟨c, before, after, hps, hn⟩
    exact ⟨before, c, after, hps, hn⟩

/-- The lines with code of a script are those of the characters that count as code. So no line is missed just if every
line with an escape or the end of a template has code besides. -/
theorem codeLines_complete_iff {language : Language} (hlanguage : language.isScript = true) {source : String}
    {p : ParsedSource} (h : parse language source = .ok p) : ∃ ls, Lexes { script := true } none source.toList ls ∧
      (ls.flatMap roles).map Prod.fst = source.toList ∧
      (∀ n, n ∈ p.codeLines ↔ ∃ c, On (ls.flatMap roles) n c .code) ∧
      ((∀ n c r, On (ls.flatMap roles) n c r → Text.isBlank c = false → r ≠ .comment → n ∈ p.codeLines) ↔
        ∀ n c, On (ls.flatMap roles) n c .skipped → Text.isBlank c = false →
          ∃ c', On (ls.flatMap roles) n c' .code) := by
  have hg : Grammar.ofLanguage? language = some { script := true } := by
    cases language <;> first | rfl | cases hlanguage
  obtain ⟨ls, hls⟩ := exists_lexes { script := true } none source.toList
  have hlines (n : Nat) : n ∈ p.codeLines ↔ ∃ c, On (ls.flatMap roles) n c .code := by
    rw [(parse_lexes hg hls).2 p h, mem_noted_iff_on]
  refine ⟨ls, hls, (fst_flatMap_roles ls).trans hls.flatMap_text, hlines, fun hall n c hc hblank ↦ ?_, ?_⟩
  · exact (hlines n).mp (hall n c _ hc hblank nofun)
  · intro hskipped n c r hc hblank hr
    rw [hlines]
    obtain rfl | rfl := role_of_on hc hblank hr
    · exact ⟨c, hc⟩
    · exact hskipped n c hc hblank

theorem codeLines_complete_iff_division : Language.ts.isScript = true ∧
    parse .ts "\x60a\n\\n\x60 / 2 // b" = .ok ⟨2, [1, 2], [⟨2, 2, " b"⟩]⟩ ∧
    ∃ ls, Lexes { script := true } none "\x60a\n\\n\x60 / 2 // b".toList ls ∧
      (∀ n, n ∈ [1, 2] ↔ ∃ c, On (ls.flatMap roles) n c .code) ∧
      ∀ n c r, On (ls.flatMap roles) n c r → Text.isBlank c = false → r ≠ .comment → n ∈ [1, 2] := by
  have hparse : parse .ts "\x60a\n\\n\x60 / 2 // b" = .ok ⟨2, [1, 2], [⟨2, 2, " b"⟩]⟩ := rfl
  obtain ⟨ls, hls, htext, hlines, hiff⟩ := codeLines_complete_iff rfl hparse
  refine ⟨rfl, hparse, ls, hls, hlines, hiff.mpr fun n c hc _ ↦ (hlines n).mp ?_⟩
  -- there are two lines, and both have code
  obtain ⟨before, after, hroles, rfl⟩ := hc
  have hcount := congrArg Text.newlines htext
  rw [hroles, List.map_append, Text.newlines_append] at hcount
  have htotal : Text.newlines "\x60a\n\\n\x60 / 2 // b".toList = 1 := rfl
  have hle : Text.newlines (before.map Prod.fst) ≤ 1 := by omega
  obtain h | h := Nat.le_one_iff_eq_zero_or_eq_one.mp hle <;> simp [h]

/-- A template that ends at the start of a line leaves that line out. -/
theorem closing_quote_is_missed : ∃ ls, Lexes { script := true } none "\x60\n\x60".toList ls ∧
    On (ls.flatMap roles) 2 '\x60' .skipped ∧ Text.isBlank '\x60' = false ∧
    parse .js "\x60\n\x60" = .ok ⟨2, [1], []⟩ := by
  refine ⟨[.literal ['\x60', '\n', '\x60']], ?_, ⟨[('\x60', .code), ('\n', .blank)], [], rfl, by decide⟩, by decide,
    rfl⟩
  have hbody : Span .template false ['\n'] false := .plain (fun _ ↦ by decide) rfl (.nil _)
  exact @Lexes.cons _ _ (.literal ['\x60', '\n', '\x60']) [] [] (.literal hbody .closed) .nil

end AnalysisServer.Source
