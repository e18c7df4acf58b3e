import AnalysisServer.Proofs.Embedded.OwnLines
import AnalysisServer.Proofs.Embedded.Scripts
import AnalysisServer.Proofs.Session.Documents

namespace AnalysisServer

open List

namespace Source

theorem nosonarLines_bounds {language : Language} {source : String} {p : ParsedSource}
    (h : parse language source = .ok p) : ∀ n ∈ nosonarLines p, 1 ≤ n ∧ n ≤ 1 + Text.newlines source.toList := by
  have hsteps := parse_steps language source
  rw [h] at hsteps
  obtain ⟨-, -, hfound⟩ := hsteps
  intro n hn
  obtain ⟨c, hc, rfl⟩ := mem_map.mp (mem_ascending.mp hn)
  have hc := mem_reverse.mpr (mem_filter.mp hc).1
  obtain ⟨hfirst, hend⟩ := hfound.extent c hc
  exact ⟨hfirst, Nat.le_trans (hend ▸ Nat.le_add_right _ _)
    (hfound.endLine_le (Dialect.regular_ofLanguage language) c hc)⟩

end Source

theorem Html.Place.In.bottom {cs : List Char} {a : Html.Place} (h : a.In cs) :
    a.snippet.lineOffset + Text.newlines a.snippet.code.toList = Text.newlines (cs.take a.stop) := by
  have htake : cs.take a.start = (cs.take a.stop).take a.start := by rw [take_take, Nat.min_eq_left h.le]
  rw [h.offset, h.code, htake, ← Text.newlines_append, take_append_drop]

theorem Html.scripts_below (source : String) :
    (scripts source).Pairwise (fun x y ↦ x.lineOffset + Text.newlines x.code.toList ≤ y.lineOffset) ∧
    ∀ x ∈ scripts source, x.lineOffset + Text.newlines x.code.toList ≤ Text.newlines source.toList := by
  obtain ⟨places, hsnippets, hin, hpairs, -⟩ := exists_places 0 [] source.toList rfl
  have hin (a : Place) (ha : a ∈ places.filter (isScriptTag ·.attributes)) : a.In source.toList :=
    (hin a (mem_filter.mp ha).1).1
  rw [show scripts source = scriptsFrom 0 source.toList from rfl, ← hsnippets, pairwise_map]
  refine ⟨(hpairs.filter _).imp_of_mem fun {a b} ha hb h ↦ ?_, fun x hx ↦ ?_⟩
  · rw [(hin a ha).bottom, (hin b hb).offset]
    exact (take_sublist_take_left (Nat.le_of_lt h)).count_le _
  · obtain ⟨a, ha, rfl⟩ := mem_map.mp hx
    rw [(hin a ha).bottom]
    exact (take_sublist _ _).count_le _

theorem Text.length_lines_le (cs : List Char) : (lines cs).length ≤ newlines cs + 1 := by
  fun_induction lines cs <;> simp_all [newlines]

namespace Session

open Source (nosonarLines)

variable {σ : Type} {engine : RuleEngine σ} {s : Session σ} {u : SourceUnit} {out : FileOutput} {parts : List Part}

theorem Part.Of.bounds {x : Part} (h : x.Of engine s u) : ∀ n ∈ nosonarLines x.placed, x.snippet.lineOffset < n ∧
    n ≤ x.snippet.lineOffset + Text.newlines x.snippet.code.toList + 1 := by
  have hplaced := h.placed
  rw [Source.parse_padded, h.alone] at hplaced
  rw [← Except.ok.inj hplaced, Source.nosonarLines_moved]
  intro n hn
  obtain ⟨m, hm, rfl⟩ := mem_map.mp hn
  have := Source.nosonarLines_bounds h.alone m hm
  omega

theorem pairwise_words_iff {ns : List Nat} (h : ∀ n ∈ ns, n < 4294967296) :
    ((ns.map Nat.toUInt32).Pairwise (· < ·) ↔ ns.Pairwise (· < ·)) ∧
    ((ns.map Nat.toUInt32).Pairwise (· ≤ ·) ↔ ns.Pairwise (· ≤ ·)) := by
  have hword {n : Nat} (hn : n ∈ ns) : n.toUInt32.toNat = n := UInt32.toNat_ofNat_of_lt' (h n hn)
  rw [pairwise_map, pairwise_map]
  refine ⟨List.Pairwise.iff_of_mem fun ha hb ↦ ?_, List.Pairwise.iff_of_mem fun ha hb ↦ ?_⟩
  · rw [UInt32.lt_iff_toNat_lt, hword ha, hword hb]
  · rw [UInt32.le_iff_toNat_le, hword ha, hword hb]

theorem analyzeEmbedded_silenced {snippets : List Snippet} (h : analyzeEmbedded engine s u {} snippets = .ok out)
    (hpairs : snippets.Pairwise fun x y ↦ x.lineOffset + Text.newlines x.code.toList ≤ y.lineOffset)
    (hbounds : ∀ x ∈ snippets, x.lineOffset + Text.newlines x.code.toList < 4294967295) :
    ∃ parts : List Part, parts.map Part.snippet = snippets ∧ (∀ x ∈ parts, x.Of engine s u) ∧
      out.metrics.nosonarLines.Pairwise (· ≤ ·) ∧ (out.metrics.nosonarLines.Pairwise (· < ·) ↔
        parts.Pairwise fun x y ↦ ∀ n ∈ nosonarLines x.placed, n ∉ nosonarLines y.placed) := by
  obtain ⟨parts, rfl, hparts, hlines, -⟩ := analyzeEmbedded_ok h
  have hwords : parts.flatMap Part.silenced = (parts.flatMap (nosonarLines ·.placed)).map Nat.toUInt32 :=
    map_flatMap.symm
  have hsmall : ∀ n ∈ parts.flatMap (nosonarLines ·.placed), n < 4294967296 := by
    intro n hn
    obtain ⟨x, hx, hn⟩ := mem_flatMap.mp hn
    have hx₁ := hbounds _ (mem_map_of_mem hx)
    have hx₂ := (hparts x hx).bounds n hn
    omega
  have hle : parts.Pairwise fun x y ↦ ∀ n ∈ nosonarLines x.placed, ∀ m ∈ nosonarLines y.placed, n ≤ m :=
    (pairwise_map.mp hpairs).imp_of_mem fun {x y} hx hy hxy n hn m hm ↦ by
      have hn := (hparts x hx).bounds n hn
      have hm := (hparts y hy).bounds m hm
      omega
  refine ⟨parts, rfl, hparts, ?_, ?_⟩
  · rw [hlines, nil_append, hwords, (pairwise_words_iff hsmall).2, pairwise_flatMap]
    exact ⟨fun x _ ↦ (Source.pairwise_ascending _).imp Nat.le_of_lt, hle⟩
  · rw [hlines, nil_append, hwords, (pairwise_words_iff hsmall).1, pairwise_flatMap]
    refine ⟨fun ⟨_, hlt⟩ ↦ hlt.imp fun h n hn hn' ↦ Nat.lt_irrefl n (h n hn n hn'), fun hne ↦
      ⟨fun x _ ↦ Source.pairwise_ascending _, hle.imp₂ (fun x y hle hne n hn m hm ↦ ?_) hne⟩⟩
    exact Nat.lt_of_le_of_ne (hle n hn m hm) fun h ↦ hne n hn (h ▸ hm)

/-- The silenced lines of a file are in order, and no line is listed twice but where two scripts of a document silence
the rules on a line that they share. -/
theorem silenced_ascend_iff (h : analyzeUnit engine s u = .ok out)
    (hsize : Text.newlines u.content.toList + 1 < 4294967296) :
    (¬ IsDocument u → out.metrics.nosonarLines.Pairwise (· < ·)) ∧
    (IsDocument u → out.metrics.nosonarLines.Pairwise (· ≤ ·) ∧ ∃ parts : List Part,
      parts.map Part.snippet = Html.scripts u.content ∧ (∀ x ∈ parts, x.Of engine s u) ∧
      (out.metrics.nosonarLines.Pairwise (· < ·) ↔
        parts.Pairwise fun x y ↦ ∀ n ∈ nosonarLines x.placed, n ∉ nosonarLines y.placed)) := by
  refine ⟨fun hu ↦ ?_, fun hu ↦ ?_⟩
  · obtain ⟨hhtml, hvue⟩ := not_or.mp hu
    unfold analyzeUnit at h
    split at h
    · rename_i hlanguage
      exact absurd hlanguage hhtml
    · obtain ⟨hpairs, hbounds⟩ := Yaml.snippets_below u.content
      have hlines := Text.length_lines_le u.content.toList
      obtain ⟨parts, hsnippets, hparts, -, hascend⟩ :=
          analyzeEmbedded_silenced h (hpairs.imp Nat.le_of_lt) fun x hx ↦ by
        have := hbounds x hx
        omega
      rw [← hsnippets, pairwise_map] at hpairs
      refine hascend.mpr (hpairs.imp_of_mem fun {x y} hx hy hxy n hn hn' ↦ ?_)
      have hn := (hparts x hx).bounds n hn
      have hn' := (hparts y hy).bounds n hn'
      omega
    · rename_i hyaml
      rw [if_neg fun h ↦ hvue ⟨hyaml, h⟩] at h
      obtain ⟨_, p, _, hp, -, hlines⟩ := analyzeSource_ok h
      rw [hlines, (pairwise_words_iff fun n hn ↦ ?_).1]
      · exact Source.pairwise_ascending _
      · have := Source.nosonarLines_bounds hp n hn
        omega
  · rw [analyzeUnit_document hu] at h
    obtain ⟨hpairs, hbounds⟩ := Html.scripts_below u.content
    obtain ⟨parts, hsnippets, hparts, hle, hascend⟩ := analyzeEmbedded_silenced h hpairs fun x hx ↦ by
      have := hbounds x hx
      omega
    exact ⟨hle, parts, hsnippets, hparts, hascend⟩

/-- Two scripts that stand on different lines share none. -/
theorem silenced_ascend_iff_twoLines : ∃ (out : FileOutput) (parts : List Part),
    analyzeUnit .silent linted (markup "<script>//NOSONAR</script>\n<script>//NOSONAR</script>") = .ok out ∧
    out.metrics.nosonarLines = [1, 2] ∧ parts.map Part.snippet = [⟨"//NOSONAR", 0, .js⟩, ⟨"//NOSONAR", 1, .js⟩] ∧
    (out.metrics.nosonarLines.Pairwise (· < ·) ↔
      parts.Pairwise fun x y ↦ ∀ n ∈ nosonarLines x.placed, n ∉ nosonarLines y.placed) ∧
    parts.Pairwise fun x y ↦ ∀ n ∈ nosonarLines x.placed, n ∉ nosonarLines y.placed := by
  have hscripts : Html.scripts "<script>//NOSONAR</script>\n<script>//NOSONAR</script>" =
      [⟨"//NOSONAR", 0, .js⟩, ⟨"//NOSONAR", 1, .js⟩] := by decide +kernel
  obtain ⟨out, hout, hlines⟩ : ∃ out : FileOutput,
      analyzeUnit .silent linted (markup "<script>//NOSONAR</script>\n<script>//NOSONAR</script>") = .ok out ∧
      out.metrics.nosonarLines = [1, 2] := by
    rw [analyzeUnit_document (.inl rfl), markup, hscripts]
    exact ⟨_, rfl, rfl⟩
  obtain ⟨-, parts, hparts, -, hiff⟩ := (silenced_ascend_iff hout (by decide +kernel)).2 (.inl rfl)
  exact ⟨out, parts, hout, hlines, hparts.trans hscripts, hiff, hiff.mp (by rw [hlines]; decide)⟩

/-- Two scripts on one line, each of which silences the rules on it. -/
theorem shared_line_is_listed_twice : ∃ out : FileOutput,
    analyzeUnit .silent linted (markup "<script>//NOSONAR</script><script>//NOSONAR</script>") = .ok out ∧
    out.metrics.nosonarLines = [1, 1] := by
  have hscripts : Html.scripts "<script>//NOSONAR</script><script>//NOSONAR</script>" =
      [⟨"//NOSONAR", 0, .js⟩, ⟨"//NOSONAR", 0, .js⟩] := by decide +kernel
  rw [analyzeUnit_document (.inl rfl), markup, hscripts]
  exact ⟨_, rfl, rfl⟩

end Session

end AnalysisServer
