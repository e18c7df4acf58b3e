import AnalysisServer.Proofs.Path.Names
import AnalysisServer.Proofs.Source.LineSets
import AnalysisServer.Proofs.Source.Positions

namespace AnalysisServer.Source

open List

variable {language : Language} {source : String} {p : ParsedSource} {n : Nat}

theorem bounds_of_mem_contentLines {line : Nat} {segments : List (List Char)} (h : n ∈ contentLines line segments) :
    line ≤ n ∧ n < line + segments.length := by
  induction segments generalizing line with
  | nil => cases h
  | cons segment segments ih =>
    rw [contentLines] at h
    rw [length_cons]
    split at h
    · have := ih h
      omega
    · obtain rfl | h := mem_cons.mp h
      · omega
      · have := ih h
        omega

theorem Comment.bounds_of_mem_contentLines {c : Comment} (hend : c.endLine = c.line + Text.newlines c.text.toList)
    (h : n ∈ Comment.contentLines c) : c.line ≤ n ∧ n ≤ c.endLine := by
  have hbounds := Source.bounds_of_mem_contentLines h
  rw [Text.length_split] at hbounds
  rw [Text.newlines] at hend
  omega

theorem mem_commentLines {ignoreHeader : Bool} : n ∈ commentLines ignoreHeader p ↔ ∃ c ∈ p.comments,
    n ∈ Comment.contentLines c ∧ (ignoreHeader = true → p.codeLines.head?.getD noLine ≤ c.endLine) := by
  rw [commentLines, mem_ascending, mem_flatMap]
  refine exists_congr fun c ↦ ?_
  rw [mem_filter, and_assoc, and_comm (b := n ∈ _)]
  cases ignoreHeader <;> simp

theorem pairwise_codeLines (h : parse language source = .ok p) : p.codeLines.Pairwise (· < ·) := by
  obtain ⟨s, e, hrun, hfinish, rfl⟩ := exists_of_parse h
  have hordered := run_ordered (Dialect.regular_ofLanguage language) (.start source.toList 1) hrun
  rw [State.parsed, (finish_ordered hordered hfinish).2]
  exact pairwise_reverse.mpr hordered.descends

theorem head?_codeLines (h : parse language source = .ok p) {first : Nat} (hfirst : first ∈ p.codeLines)
    (hleast : ∀ n ∈ p.codeLines, first ≤ n) : p.codeLines.head? = some first := by
  have hsorted := pairwise_codeLines h
  cases hlines : p.codeLines with
  | nil => simp [hlines] at hfirst
  | cons m ms =>
    rw [hlines] at hsorted hfirst hleast
    obtain rfl | hmem := mem_cons.mp hfirst
    · rfl
    · have := (pairwise_cons.mp hsorted).1 first hmem
      have := hleast m mem_cons_self
      omega

/-- Without the comments at its head, a source has all of its comment lines but those above its first line with code
on which no other comment says something. -/
theorem commentLines_ignoreHeader (h : parse language source = .ok p) :
    (∀ ignoreHeader, (commentLines ignoreHeader p).Pairwise (· < ·) ∧
      ∀ n ∈ commentLines ignoreHeader p, 1 ≤ n ∧ n ≤ p.lineCount) ∧
    commentLines true p ⊆ commentLines false p ∧
    (∀ first ∈ p.codeLines, (∀ n ∈ p.codeLines, first ≤ n) → ∀ n ∈ commentLines false p,
      (first ≤ n → n ∈ commentLines true p) ∧
      (n < first → (n ∈ commentLines true p ↔ ∃ c ∈ p.comments, n ∈ Comment.contentLines c ∧ first ≤ c.endLine))) ∧
    (p.codeLines = [] → p.lineCount < noLine → commentLines true p = []) := by
  have hd := Dialect.regular_ofLanguage language
  have hsteps := parse_steps language source
  rw [h] at hsteps
  obtain ⟨hcount, -, hfound⟩ := hsteps
  have hextent (c : Comment) (hc : c ∈ p.comments) := hfound.extent c (mem_reverse.mpr hc)
  have hend (c : Comment) (hc : c ∈ p.comments) : c.endLine ≤ p.lineCount :=
    hcount ▸ (hfound.hasLine hd c (mem_reverse.mpr hc)).bounds.2
  have hbounds {c : Comment} (hc : c ∈ p.comments) {n : Nat} (hn : n ∈ Comment.contentLines c) :=
    Comment.bounds_of_mem_contentLines (hextent c hc).2 hn
  refine ⟨fun ignoreHeader ↦ ⟨pairwise_ascending _, fun n hn ↦ ?_⟩, fun n hn ↦ ?_, ?_, fun hcode hlarge ↦ ?_⟩
  · obtain ⟨c, hc, hn, -⟩ := mem_commentLines.mp hn
    exact ⟨Nat.le_trans (hextent c hc).1 (hbounds hc hn).1, Nat.le_trans (hbounds hc hn).2 (hend c hc)⟩
  · obtain ⟨c, hc, hn, -⟩ := mem_commentLines.mp hn
    exact mem_commentLines.mpr ⟨c, hc, hn, by simp⟩
  · intro first hfirst hleast n hn
    have hmem : n ∈ commentLines true p ↔ ∃ c ∈ p.comments, n ∈ Comment.contentLines c ∧ first ≤ c.endLine := by
      rw [mem_commentLines, head?_codeLines h hfirst hleast]
      simp
    refine ⟨fun hle ↦ hmem.mpr ?_, fun _ ↦ hmem⟩
    obtain ⟨c, hc, hn, -⟩ := mem_commentLines.mp hn
    exact ⟨c, hc, hn, Nat.le_trans hle (hbounds hc hn).2⟩
  · refine eq_nil_iff_forall_not_mem.mpr fun n hn ↦ ?_
    obtain ⟨c, hc, -, hlast⟩ := mem_commentLines.mp hn
    rw [hcode] at hlast
    have hlast : noLine ≤ c.endLine := hlast rfl
    have := hend c hc
    omega

/-- The second comment starts above the code and ends on its line. -/
theorem commentLines_ignoreHeader_shared_line : ∃ p, parse .js "//a\n/*b\n*/c//d" = .ok p ∧ 3 ∈ p.codeLines ∧
    2 ∈ commentLines false p ∧ (2 ∈ commentLines true p ↔ ∃ c ∈ p.comments, 2 ∈ Comment.contentLines c ∧ 3 ≤ c.endLine) ∧
    3 ∈ commentLines true p := by
  let p : ParsedSource := ⟨3, [3], [⟨1, 1, "a"⟩, ⟨2, 3, "b\n"⟩, ⟨3, 3, "d"⟩]⟩
  have hp : parse .js "//a\n/*b\n*/c//d" = .ok p := rfl
  obtain ⟨-, -, hlines, -⟩ := commentLines_ignoreHeader hp
  have hlines := hlines 3 (by decide) (by decide)
  exact ⟨p, hp, by decide, by decide, (hlines 2 (by decide)).2 (by decide), (hlines 3 (by decide)).1 (by decide)⟩

end AnalysisServer.Source
