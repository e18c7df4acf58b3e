import AnalysisServer.Proofs.Source.Moving

namespace AnalysisServer.Session

open List

open Source (padded parse nosonarLines)

variable {σ : Type} {engine : RuleEngine σ} {s : Session σ} {u : SourceUnit} {total out : FileOutput}
  {snippets : List Snippet} {e : AnalysisError}

/-- Markup is a document, and so is a component with its script in markup. -/
def IsDocument (u : SourceUnit) : Prop :=
  u.language = .html ∨ u.language ≠ .yaml ∧ isVue u.path = true

theorem analyzeUnit_document (h : IsDocument u) :
    analyzeUnit engine s u = analyzeEmbedded engine s u {} (Html.scripts u.content) := by
  unfold analyzeUnit
  split
  · rfl
  · rename_i hyaml
    obtain h | h := h
    · cases hyaml.symm.trans h
    · exact absurd hyaml h.1
  · rename_i hhtml hyaml
    exact if_pos (h.resolve_left hhtml).2

/-- A script of a document: as it stands there, as it is by itself, and the issues that the rules find in it. -/
structure Part where
  snippet : Snippet
  placed : ParsedSource
  alone : ParsedSource
  issues : List Issue

/-- Nothing halts the analysis of the part. -/
structure Part.Of (engine : RuleEngine σ) (s : Session σ) (u : SourceUnit) (x : Part) : Prop where
  placed : parse (parseLanguage (snippetUnit u x.snippet)) (padded x.snippet.lineOffset x.snippet.code) = .ok x.placed
  alone : parse (parseLanguage (snippetUnit u x.snippet)) x.snippet.code = .ok x.alone
  issues : ∃ linter, s.linter = some linter ∧
    engine.evaluate s.engine (s.ruleContext linter (snippetUnit u x.snippet) x.alone) = .ok x.issues

def Part.silenced (x : Part) : List UInt32 :=
  (nosonarLines x.placed).map Nat.toUInt32

theorem content_snippetUnit (u : SourceUnit) (x : Snippet) : (snippetUnit u x).content = x.code :=
  rfl

theorem analyzeSource_ok {out : FileOutput} (h : analyzeSource engine s u = .ok out) :
    ∃ linter parsed, s.linter = some linter ∧ parse (parseLanguage u) u.content = .ok parsed ∧
      engine.evaluate s.engine (s.ruleContext linter u parsed) = .ok out.issues ∧
      out.metrics.nosonarLines = (nosonarLines parsed).map Nat.toUInt32 := by
  unfold analyzeSource at h
  split at h
  · cases h
  rename_i linter hlinter
  split at h
  · cases h
  rename_i parsed hparsed
  split at h
  · cases h
  rename_i issues hissues
  cases h
  refine ⟨linter, parsed, hlinter, hparsed, hissues, ?_⟩
  dsimp only
  unfold Source.metrics
  split <;> rfl

theorem analyzeSource_snippet {x : Snippet} {o : FileOutput} (h : analyzeSource engine s (snippetUnit u x) = .ok o) :
    ∃ part : Part, part.snippet = x ∧ part.Of engine s u ∧ o.issues = part.issues ∧
      o.metrics.nosonarLines.map (· + x.lineOffset.toUInt32) = part.silenced := by
  obtain ⟨linter, parsed, hlinter, hparsed, hissues, hlines⟩ := analyzeSource_ok h
  have hplaced := Source.parse_padded (parseLanguage (snippetUnit u x)) x.code x.lineOffset
  rw [content_snippetUnit] at hparsed
  rw [hparsed] at hplaced
  refine ⟨⟨x, parsed.moved x.lineOffset _, parsed, o.issues⟩, rfl, ⟨hplaced, hparsed, linter, hlinter, hissues⟩,
    rfl, ?_⟩
  dsimp only [Part.silenced]
  rw [Source.nosonarLines_moved, hlines, map_map, map_map]
  exact map_congr_left fun n _ ↦ (UInt32.ofNat_add n x.lineOffset).symm

theorem Part.Of.analyzeSource {x : Part} (h : x.Of engine s u) :
    ∃ o, analyzeSource engine s (snippetUnit u x.snippet) = .ok o := by
  obtain ⟨linter, hlinter, hissues⟩ := h.issues
  unfold Session.analyzeSource
  rw [hlinter]
  dsimp only
  rw [content_snippetUnit, h.alone]
  dsimp only
  rw [hissues]
  exact ⟨_, rfl⟩

theorem analyzeEmbedded_ok (h : analyzeEmbedded engine s u total snippets = .ok out) :
    ∃ parts : List Part, parts.map Part.snippet = snippets ∧ (∀ x ∈ parts, x.Of engine s u) ∧
      out.metrics.nosonarLines = total.metrics.nosonarLines ++ parts.flatMap Part.silenced ∧
      out.issues = total.issues ++
        parts.flatMap fun x ↦ x.issues.map (Issue.shift x.snippet.lineOffset.toUInt32) := by
  induction snippets generalizing total with
  | nil =>
    cases h
    exact ⟨[], rfl, nofun, by simp⟩
  | cons x rest ih =>
    simp only [analyzeEmbedded] at h
    split at h
    · cases h
    rename_i o ho
    obtain ⟨part, rfl, hof, hissues, hlines⟩ := analyzeSource_snippet ho
    obtain ⟨parts, rfl, hall, hsilenced, hfound⟩ := ih h
    refine ⟨part :: parts, rfl, forall_mem_cons.mpr ⟨hof, hall⟩, ?_, ?_⟩
    · rw [hsilenced, addSnippet, hlines, flatMap_cons, append_assoc]
    · rw [hfound, addSnippet, hissues, flatMap_cons, append_assoc]

theorem analyzeEmbedded_error {parts : List Part} {x : Snippet} {after : List Snippet} {h : Halt}
    (hparts : ∀ x ∈ parts, x.Of engine s u) (hx : analyzeSource engine s (snippetUnit u x) = .error h) :
    analyzeEmbedded engine s u total (parts.map Part.snippet ++ x :: after) = .error (shiftHalt x.lineOffset h) := by
  induction parts generalizing total with
  | nil => simp [analyzeEmbedded, hx]
  | cons part parts ih =>
    obtain ⟨hpart, hparts⟩ := forall_mem_cons.mp hparts
    obtain ⟨o, ho⟩ := hpart.analyzeSource
    simp only [map_cons, cons_append, analyzeEmbedded, ho]
    exact ih hparts

/-- The scripts of a document are reported where they stand: the lines that silence the rules and the issues are those
of one script after the other, and the fault is that of the first one at fault, if nothing else halts the analysis
before. For that, a source that is moved down is the same source further down. -/
theorem embedded_in_place (hu : IsDocument u) : (∀ out, analyzeUnit engine s u = .ok out → ∃ parts : List Part,
      parts.map Part.snippet = Html.scripts u.content ∧ (∀ x ∈ parts, x.Of engine s u) ∧
      out.metrics.nosonarLines = parts.flatMap (fun x ↦ (nosonarLines x.placed).map Nat.toUInt32) ∧
      out.issues = parts.flatMap fun x ↦ x.issues.map (Issue.shift x.snippet.lineOffset.toUInt32)) ∧
    (∀ (parts : List Part) (x : Snippet) (after : List Snippet) (e : AnalysisError),
      Html.scripts u.content = parts.map Part.snippet ++ x :: after → (∀ x ∈ parts, x.Of engine s u) →
      s.linter.isSome → parse (parseLanguage (snippetUnit u x)) (padded x.lineOffset x.code) = .error e →
      analyzeUnit engine s u = .error (.failed e)) ∧
    ∀ (language : Language) (source : String) (k : Nat), parse language (padded k source) =
      match parse language source with
      | .ok p => .ok { lineCount := Source.lineCount (padded k source).toList
                       codeLines := p.codeLines.map (· + k)
                       comments := p.comments.map fun c ↦ { c with line := c.line + k, endLine := c.endLine + k } }
      | .error (.parsing message line) => .error (.parsing message (line.map (· + k)))
      | .error e => .error e := by
  rw [analyzeUnit_document hu]
  refine ⟨fun out h ↦ ?_, fun parts x after e hscripts hparts hlinter he ↦ ?_, fun language source k ↦ ?_⟩
  · obtain ⟨parts, hsnippets, hall, hsilenced, hfound⟩ := analyzeEmbedded_ok h
    exact ⟨parts, hsnippets, hall, hsilenced, hfound⟩
  · obtain ⟨linter, hlinter⟩ := Option.isSome_iff_exists.mp hlinter
    rw [Source.parse_padded] at he
    cases hparse : parse (parseLanguage (snippetUnit u x)) x.code with
    | ok p =>
      rw [hparse] at he
      cases he
    | error e' =>
      rw [hparse] at he
      cases he
      have hx : analyzeSource engine s (snippetUnit u x) = .error (.failed e') := by
        unfold analyzeSource
        rw [hlinter]
        dsimp only
        rw [content_snippetUnit, hparse]
      rw [hscripts, analyzeEmbedded_error hparts hx]
      rfl
  · rw [Source.parse_padded]
    cases parse language source with
    | ok p => rfl
    | error e => cases e <;> rfl

def linted : Session (List Path) :=
  { Session.fresh .silent {} with linter := some { baseDir := ⟨"/"⟩ } }

def markup (content : String) : SourceUnit :=
  ⟨⟨"/a.html"⟩, content, .html, .main, false, false, none⟩

/-- The second of two scripts is at fault on the third line of the document. -/
theorem embedded_in_place_secondFault : IsDocument (markup "<script>//NOSONAR</script>\n<script>\n(</script>") ∧
    analyzeUnit .silent linted (markup "<script>//NOSONAR</script>\n<script>\n(</script>") =
      .error (.failed (.parsing "')' expected" (some 3))) := by
  have hu : IsDocument (markup "<script>//NOSONAR</script>\n<script>\n(</script>") := .inl rfl
  have hscripts : Html.scripts "<script>//NOSONAR</script>\n<script>\n(</script>" =
      [⟨"//NOSONAR", 0, .js⟩, ⟨"\n(", 1, .js⟩] := by decide +kernel
  let p : ParsedSource := ⟨1, [], [⟨1, 1, "NOSONAR"⟩]⟩
  have hplaced : parse .js (padded 0 "//NOSONAR") = .ok p := rfl
  have halone : parse .js "//NOSONAR" = .ok p := rfl
  refine ⟨hu, (embedded_in_place hu).2.1 [⟨⟨"//NOSONAR", 0, .js⟩, p, p, []⟩] ⟨"\n(", 1, .js⟩ [] _ hscripts ?_ rfl rfl⟩
  intro x hx
  obtain rfl := mem_singleton.mp hx
  exact ⟨hplaced, halone, _, rfl, rfl⟩

/-- Rules that fail on the first script hide the fault of the second one. -/
theorem failed_rules_hide_fault :
    ∃ (engine : RuleEngine (List Path)) (x y : Snippet) (p : ParsedSource) (e : AnalysisError),
    Html.scripts "<script>a</script><script>(</script>" = [x, y] ∧ parse .js (padded x.lineOffset x.code) = .ok p ∧
    parse .js (padded y.lineOffset y.code) = .error e ∧ linted.linter.isSome ∧
    analyzeUnit engine linted (markup "<script>a</script><script>(</script>") ≠ .error (.failed e) := by
  have hscripts : Html.scripts "<script>a</script><script>(</script>" = [⟨"a", 0, .js⟩, ⟨"(", 0, .js⟩] := by
    decide +kernel
  refine ⟨{ RuleEngine.silent with evaluate := fun _ _ ↦ .error (.failed (.validation "rule")) }, _, _, _, _, hscripts,
    rfl, rfl, rfl, ?_⟩
  rw [analyzeUnit_document (.inl rfl), markup, hscripts]
  exact nofun

end AnalysisServer.Session
