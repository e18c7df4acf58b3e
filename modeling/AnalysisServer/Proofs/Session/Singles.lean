import AnalysisServer.Proofs.Session.Streaming

namespace AnalysisServer

open List

theorem Registry.findForFile_twice (r : Registry) (file file' : Path) :
    ((r.findForFile file').2.findForFile file).1 = (r.findForFile file).1 := by
  simp only [findForFile, Cache.find, Cache.count]
  split <;> rfl

def Request.ofLanguage (input : FileInput) : Language → Request
  | .js | .ts => .analyzeJsTs input
  | .css => .analyzeCss input
  | .html => .analyzeHtml input
  | .yaml => .analyzeYaml input

def ProjectFile.alone (f : ProjectFile) (c : Configuration) (p : Path) (language : Language) : FileInput :=
  { path := p
    content := f.content
    fileType := f.fileType
    language := some language
    ignoreHeaderComments := c.ignoreHeaderComments }

/-- What a project analysis says of a file, in place of the outcome of a request for that file. -/
def FileResult.ofOutcome? : Except AnalysisError Response → Option FileResult
  | .ok (.file output) => some (.analyzed output)
  | .ok _ => none
  | .error e => some (.failed e.payload)

section Listed

theorem SourceStore.path_of_inputRecord? {classifier : Classifier} {p : Path} {f : ProjectFile} {r : FileRecord}
    (h : inputRecord? classifier p f = some r) : r.path = p := by
  unfold inputRecord? at h
  split at h <;> cases h
  rfl

variable [Digest] {ctx : DiscoveryContext} {files : ProjectFiles} {set : StoreSet StandardStore} {disk : Disk}

theorem StoreSet.Tidy.records_listed (h : set.Tidy) (hfiles : ctx.files = some files)
    (hmap : files.Pairwise fun e e' ↦ e.1.same e'.1 = false) :
    (StoreSet.discover ctx set disk).2.1.records =
      .ok (files.filterMap fun e ↦ SourceStore.inputRecord? ctx.config.classifier e.1 e.2) := by
  -- listed files are loaded whether or not the stores were filled before
  obtain ⟨x, hx, -⟩ := h
  obtain ⟨stores, walks⟩ := set
  subst hx
  have hsources : (x.discover ctx disk).2.1.sources = x.sources.loadInputs ctx files := by
    simp only [Stores.discover, SourceStore.isInitialized, hfiles]
    split
    · rfl
    · split <;> rfl
  have hdistinct : (files.filterMap fun e ↦ SourceStore.inputRecord? ctx.config.classifier e.1 e.2).Pairwise
      fun r r' ↦ r.path.same r'.path = false := by
    refine hmap.filterMap _ fun e e' hne r hr r' hr' ↦ ?_
    rwa [SourceStore.path_of_inputRecord? hr, SourceStore.path_of_inputRecord? hr']
  rw [StoreSet.records, sources?, (discover_toList ctx disk x walks).2.1]
  show (x.discover ctx disk).2.1.sources.files.read.map FileSet.records = _
  rw [hsources]
  exact congrArg Except.ok (FileSet.records_ofRecords hdistinct)

end Listed

namespace Session

variable {σ : Type} {engine : RuleEngine σ} {u : SourceUnit} {run : ProjectRun}
  {w w' w'' : Workspace σ} {r : FileRecord} {content : String} {parts : List Partial} {a : Advance}
  {result : FileResult}

section Analyses

variable {s s' : Session σ}

structure Like (s s' : Session σ) : Prop where
  linter : s'.linter = s.linter
  options : s'.options = s.options
  engine : s'.engine = s.engine
  stores : s'.stores = s.stores

theorem parse_parseLanguage (u : SourceUnit) :
    Source.parse (parseLanguage u) u.content = Source.parse u.language u.content := by
  unfold parseLanguage
  split
  · rename_i h
    rw [h.1]
    rfl
  · rfl

theorem analyzeSource_congr (h : Like s s') (u : SourceUnit) (b : Bool) :
    analyzeSource engine s' { u with tsParserForJs := b } = analyzeSource engine s u := by
  have hcontext (linter : Linter) (parsed : ParsedSource) :
      s'.ruleContext linter { u with tsParserForJs := b } parsed = s.ruleContext linter u parsed := by
    simp only [ruleContext, dependenciesFor, h.stores]
  have hparse := (parse_parseLanguage { u with tsParserForJs := b }).trans (parse_parseLanguage u).symm
  unfold analyzeSource
  rw [hparse, h.linter, h.engine, h.options]
  simp only [hcontext]

theorem analyzeEmbedded_congr (h : Like s s') (u : SourceUnit) (b : Bool) (total : FileOutput)
    (snippets : List Snippet) :
    analyzeEmbedded engine s' { u with tsParserForJs := b } total snippets =
      analyzeEmbedded engine s u total snippets := by
  induction snippets generalizing total with
  | nil => rfl
  | cons snippet rest ih =>
    have hsnippet : analyzeSource engine s' (snippetUnit { u with tsParserForJs := b } snippet) =
        analyzeSource engine s (snippetUnit u snippet) := analyzeSource_congr h (snippetUnit u snippet) b
    simp only [analyzeEmbedded, hsnippet, ih]

theorem analyzeUnit_congr (h : Like s s') (u : SourceUnit) (b : Bool) :
    analyzeUnit engine s' { u with tsParserForJs := b } = analyzeUnit engine s u := by
  simp only [analyzeUnit, analyzeSource_congr h, analyzeEmbedded_congr h]

theorem resultOf_congr (h : Like s s') (u : SourceUnit) (b : Bool) :
    resultOf engine s' { u with tsParserForJs := b } = resultOf engine s u := by
  simp only [resultOf, analyzeUnit_congr h]

end Analyses

section Lookups

/-- Since then programs have been looked up at most, and what is found is the same. -/
structure Stays (w w' : Workspace σ) : Prop where
  disk : w'.disk = w.disk
  like : Like w.session w'.session
  classifier : w'.session.classifier = w.session.classifier
  found : ∀ file, (w'.session.programs.findForFile file).1 = (w.session.programs.findForFile file).1

theorem Stays.refl (w : Workspace σ) : Stays w w :=
  ⟨rfl, ⟨rfl, rfl, rfl, rfl⟩, rfl, fun _ ↦ rfl⟩

theorem Stays.trans (h : Stays w w') (h' : Stays w' w'') : Stays w w'' where
  disk := h'.disk.trans h.disk
  like := ⟨h'.like.linter.trans h.like.linter, h'.like.options.trans h.like.options,
    h'.like.engine.trans h.like.engine, h'.like.stores.trans h.like.stores⟩
  classifier := h'.classifier.trans h.classifier
  found file := (h'.found file).trans (h.found file)

theorem Stays.lookup (w : Workspace σ) (file : Path) :
    Stays w ⟨{ w.session with programs := (w.session.programs.findForFile file).2 }, w.disk⟩ :=
  ⟨rfl, ⟨rfl, rfl, rfl, rfl⟩, rfl, fun _ ↦ Registry.findForFile_twice _ _ _⟩

theorem ProjectStep.stays (h : ProjectStep engine run w a w') : Stays w w' := by
  cases h with
  | ended => exact ⟨rfl, ⟨rfl, rfl, rfl, rfl⟩, rfl, fun _ ↦ rfl⟩
  | enter =>
    unfold enterUnit
    dsimp only
    split
    · exact .lookup w _
    · exact .refl w
  | _ => exact .refl w

def unitOf (run : ProjectRun) (r : FileRecord) (content : String) (w : Workspace σ) : SourceUnit :=
  let language := ProjectRun.languageOf w.session.classifier r content
  { path := r.path
    content
    language
    fileType := r.fileType
    ignoreHeaderComments := run.configuration.ignoreHeaderComments
    tsParserForJs := run.tsParserForJs
    program := if language.isScript then (w.session.programs.findForFile (resolved w.disk r.path)).1 else none }

theorem enterUnit_current (run : ProjectRun) (r : FileRecord) (content : String) (w : Workspace σ) :
    (enterUnit run r content w).1 = { run with current := some (unitOf run r content w) } := by
  unfold enterUnit unitOf
  dsimp only
  split <;> rfl

theorem Stays.unitOf (h : Stays w w') : unitOf run r content w' = unitOf run r content w := by
  simp only [Session.unitOf, h.classifier, h.disk, h.found]

theorem Stays.resultOf (h : Stays w w') : resultOf engine w'.session u = resultOf engine w.session u :=
  resultOf_congr h.like u u.tsParserForJs

end Lookups

section Covering

variable {w₀ : Workspace σ}

def Told (engine : RuleEngine σ) (s : Session σ) (u : SourceUnit) (parts : List Partial) : Prop :=
  ∃ result, resultOf engine s u = .ok result ∧ ⟨u.path, result⟩ ∈ parts

/-- A record is still to come, or its unit is in hand, or the result of that was sent on. -/
structure Covers (engine : RuleEngine σ) (w₀ : Workspace σ) (r : FileRecord) (content : String) (u : SourceUnit)
    (parts : List Partial) (run : ProjectRun) : Prop where
  streaming : run.streaming = true
  readable : contentOf run.configuration r w₀.disk = .ok (some content)
  unit : unitOf run r content w₀ = u
  place : r ∈ run.todo ∨ run.current = some u ∨ Told engine w₀.session u parts

theorem Told.append (h : Told engine w₀.session u parts) (more : List Partial) :
    Told engine w₀.session u (parts ++ more) := by
  obtain ⟨result, hr, hmem⟩ := h
  exact ⟨result, hr, mem_append_left _ hmem⟩

section

variable (h : Covers engine w₀ r content u parts run)

include h

theorem Covers.deliver {todo : List FileRecord} {p : Path}
    (hplace : r ∈ todo ∨ Told engine w₀.session u (parts ++ [⟨p, result⟩])) :
    Covers engine w₀ r content u (parts ++ ((run.onTo todo).deliver p result).2.toList)
      ((run.onTo todo).deliver p result).1 := by
  have hs : (run.onTo todo).streaming = true := h.streaming
  unfold ProjectRun.deliver
  rw [if_pos hs]
  exact ⟨hs, h.readable, h.unit, hplace.imp_right .inr⟩

theorem Covers.step (hw : Stays w₀ w) (hs : ProjectStep engine run w a w') :
    (∃ run', a.progress = .more (.project run') ∧ Covers engine w₀ r content u (parts ++ a.delivered.toList) run') ∨
      (∃ o, a.progress = .done (.ok (.project o)) ∧ Told engine w₀.session u (parts ++ a.delivered.toList)) ∨
      ∃ e, a.progress = .done (.error e) := by
  have hcontent := h.readable
  rw [← hw.disk] at hcontent
  -- only the record in hand or the next one can be the one that matters
  have hnext {r' rest} (hc : run.current = none) (ht : run.todo = r' :: rest) :
      r = r' ∨ r ∈ rest ∨ Told engine w₀.session u parts := by
    obtain hm | hcur | htold := h.place
    · rw [ht] at hm
      exact (mem_cons.mp hm).imp_right .inl
    · rw [hc] at hcur
      cases hcur
    · exact .inr (.inr htold)
  cases hs with
  | ended hc ht =>
    refine .inr (.inl ⟨_, rfl, ?_⟩)
    obtain hm | hcur | htold := h.place
    · rw [ht] at hm
      cases hm
    · rw [hc] at hcur
      cases hcur
    · exact htold.append _
  | @enter r' rest content' hc ht hr =>
    refine .inl ⟨_, rfl, ?_⟩
    rw [enterUnit_current, Option.toList_none, append_nil]
    refine ⟨h.streaming, h.readable, h.unit, ?_⟩
    obtain rfl | hm | htold := hnext hc ht
    · cases hcontent.symm.trans hr
      exact .inr (.inl (congrArg some (hw.unitOf.trans h.unit)))
    · exact .inl hm
    · exact .inr (.inr htold)
  | skip warning hc ht hr =>
    refine .inl ⟨_, rfl, ?_⟩
    rw [Option.toList_none, append_nil]
    refine ⟨h.streaming, h.readable, h.unit, ?_⟩
    obtain rfl | hm | htold := hnext hc ht
    · cases hcontent.symm.trans hr
    · exact .inl hm
    · exact .inr (.inr htold)
  | lose hc ht hr =>
    refine .inl ⟨_, rfl, h.deliver ?_⟩
    obtain rfl | hm | htold := hnext hc ht
    · cases hcontent.symm.trans hr
    · exact .inl hm
    · exact .inr (htold.append _)
  | @report unit result hc hu =>
    refine .inl ⟨_, rfl, h.deliver ?_⟩
    obtain hm | hcur | htold := h.place
    · exact .inl hm
    · cases hc.symm.trans hcur
      exact .inr ⟨result, hw.resultOf.symm.trans hu, mem_append_right _ (.head _)⟩
    · exact .inr (htold.append _)
  | abort => exact .inr (.inr ⟨_, rfl⟩)

theorem Covers.finish {fuel : Nat} {response : Response} {sent : List Partial} (hw : Stays w₀ w)
    (hf : finish engine fuel (.project run) w parts = (.ok (.ok response), w', sent)) :
    Stays w₀ w' ∧ Told engine w₀.session u sent := by
  refine finish_project (I := fun run w parts ↦ Covers engine w₀ r content u parts run ∧ Stays w₀ w)
    (Q := fun _ w' sent ↦ Stays w₀ w' ∧ Told engine w₀.session u sent) (fun ⟨h, hw⟩ hs ↦ ?_) ⟨h, hw⟩ hf
  have hw' := hw.trans hs.stays
  obtain ⟨run', ha, hcovers⟩ | ⟨o, ha, htold⟩ | he := h.step hw hs
  · exact .inl ⟨run', ha, hcovers, hw'⟩
  · exact .inr (.inl ⟨_, ha, hw', htold⟩)
  · exact .inr (.inr he)

end

end Covering

section Single

variable [Digest] {language : Language} {input : FileInput}

def singleUnit (input : FileInput) (content : String) (language : Language) (w : Workspace σ) : SourceUnit :=
  { path := input.path
    content
    language
    fileType := input.fileType
    ignoreHeaderComments := input.ignoreHeaderComments
    tsParserForJs := w.session.options.tsParserForJs
    program :=
      if language.isScript then (w.session.programs.findForFile (resolved w.disk input.path)).1 else none }

section

variable (hl : w.session.linter.isSome) (hc : input.content = some content) (hlanguage : input.language = some language)
  (ht : input.tsConfigs = []) (hid : input.programId = none) (streaming : Bool)

include hl hc hlanguage ht hid streaming

theorem begin_single : ∃ w', begin engine (.ofLanguage input language) streaming w =
        (.more (.file (singleUnit input content language w)), w') ∧ Stays w w' := by
  obtain ⟨⟨options, state, linter, bundles, classifier, programs, stores, last, tsconfigs, temporary⟩, disk⟩ := w
  obtain ⟨path, _, fileType, _, _, _, ignoring⟩ := input
  cases hc
  cases hlanguage
  cases ht
  cases hid
  cases linter with
  | none => cases hl
  | some linter =>
    cases language with
    | js | ts => exact ⟨_, rfl, .lookup _ (resolved disk path)⟩
    | css | html | yaml => exact ⟨_, rfl, .refl _⟩

theorem handle_single (hr : resultOf engine w.session (singleUnit input content language w) = .ok result) :
    ∃ outcome w', handle engine (.ofLanguage input language) streaming w = (.ok outcome, w', []) ∧
      FileResult.ofOutcome? outcome = some result := by
  obtain ⟨w', hbegin, hw⟩ : ∃ w', begin engine (.ofLanguage input language) streaming w = _ ∧ Stays w w' :=
    begin_single hl hc hlanguage ht hid streaming
  have hunit : analyzeUnit engine w'.session (singleUnit input content language w) =
      analyzeUnit engine w.session (singleUnit input content language w) :=
    analyzeUnit_congr hw.like (singleUnit input content language w) _
  unfold handle
  rw [hbegin]
  unfold resultOf at hr
  simp only [stepsLeft, Session.finish, step, hunit]
  generalize analyzeUnit engine w.session (singleUnit input content language w) = r at hr
  rcases r with (e | _ | _) | output
  · dsimp only at hr
    split at hr <;> cases hr
    exact ⟨_, _, rfl, rfl⟩
  · cases hr
  · cases hr
  · cases hr
    exact ⟨_, _, rfl, rfl⟩

end

end Single

section Listing

variable [Digest] {input : ProjectInput} {files : ProjectFiles} {p : Path} {f : ProjectFile} {listed : Language}

section

variable (hw : w.session.stores.Tidy) (hfiles : input.files = some files)
  (hmap : files.Pairwise fun e e' ↦ e.1.same e'.1 = false)

include hw hfiles hmap

theorem handle_listed {streaming : Bool} {response : Response}
    (h : handle engine (.analyzeProject input) streaming w = (.ok (.ok response), w', parts)) :
    ∃ dir w₁ run w₀, Gathered input streaming dir w₁ run w₀ ∧
      run.todo = files.filterMap (fun e ↦ SourceStore.inputRecord? input.configuration.classifier e.1 e.2) ∧
      finish engine (stepsLeft (.project run)) (.project run) w₀ [] = (.ok (.ok response), w', parts) := by
  unfold handle at h
  rcases hb : begin engine (.analyzeProject input) streaming w with ⟨progress, w₀⟩
  rw [hb] at h
  obtain ⟨e, rfl⟩ | ⟨dir, w₁, run, hstores, rfl, hg⟩ := begin_project hb
  · cases h
  · have hrecords := hg.todo
    rw [hg.stores, StoreSet.Tidy.records_listed (hstores ▸ hw) hfiles hmap] at hrecords
    exact ⟨dir, w₁, run, w₀, hg, (Except.ok.inj hrecords).symm, h⟩

theorem told_listed {response : Response} (hf : (p, f) ∈ files)
    (hc : f.content = some content) (hl : f.language = some listed)
    (h : handle engine (.analyzeProject input) true w = (.ok (.ok response), w', parts)) :
    ∃ w₀ run, Stays w₀ w' ∧ w₀.session.classifier = input.configuration.classifier ∧
      w₀.session.linter.isSome ∧ run.configuration = input.configuration ∧
      Told engine w₀.session (unitOf run ⟨p, listed, f.fileType, some content⟩ content w₀) parts := by
  obtain ⟨dir, w₁, run, w₀, hg, htodo, hfinish⟩ := handle_listed hw hfiles hmap h
  have hrecord : SourceStore.inputRecord? input.configuration.classifier p f =
      some ⟨p, listed, f.fileType, some content⟩ := by
    rw [SourceStore.inputRecord?, hl, hc]
    rfl
  have hcovers : Covers engine w₀ ⟨p, listed, f.fileType, some content⟩ content
      (unitOf run ⟨p, listed, f.fileType, some content⟩ content w₀) [] run :=
    ⟨hg.streaming, rfl, rfl, .inl (htodo ▸ mem_filterMap.mpr ⟨(p, f), hf, hrecord⟩)⟩
  obtain ⟨hstays, htold⟩ := hcovers.finish (.refl w₀) hfinish
  exact ⟨w₀, run, hstays, hg.classifier, hg.linter, hg.configuration, htold⟩

end

end Listing

/-- The result of a listed file in a project analysis is the outcome of the request that analyzes this file
next, in the language that the project analysis takes it to be in. This is the language that is listed,
unless that is JavaScript, and the path and the content tell another one. -/
theorem project_result_of_file [Digest] {options : SessionOptions} {s : Session σ}
    (hs : Reachable engine options s) {input : ProjectInput} {files : ProjectFiles}
    (hfiles : input.files = some files) (hmap : files.Pairwise fun e e' ↦ e.1.same e'.1 = false)
    {p : Path} {f : ProjectFile} (hf : (p, f) ∈ files) {content : String} (hc : f.content = some content)
    {listed : Language} (hl : f.language = some listed) {disk : Disk} {o : ProjectOutput} {sent : List Partial}
    (h : handle engine (.analyzeProject input) false ⟨s, disk⟩ = (.ok (.ok (.project o)), w, sent)) :
    let language :=
      if listed = .js then (input.configuration.classifier.classify p (some content)).getD .js else listed
    ∃ outcome w' result, handle engine (.ofLanguage (f.alone input.configuration p language) language) false w =
        (.ok outcome, w', []) ∧
      FileResult.ofOutcome? outcome = some result ∧ PathMap.get? p o.files = some result := by
  intro language
  -- the analysis that sends its results on does the same
  rw [handle_keeping] at h
  rcases hr : handle engine (.analyzeProject input) true ⟨s, disk⟩ with ⟨halt | e | response, w₁, parts⟩ <;>
    rw [hr] at h
  · cases h
  · cases h
  obtain ⟨paths, hpaths, htells⟩ := handle_tells hr hs.tidy
  obtain ⟨w₀, run, hstays, hclassifier, hlinter, hconfiguration, result, hresult, htold⟩ :=
    told_listed hs.tidy hfiles hmap hf hc hl hr
  cases response with
  | project o' =>
    obtain ⟨-, hanalyzed, horder⟩ := htells
    cases h
    have hunit : singleUnit (f.alone input.configuration p language) content language w₁ =
        { unitOf run ⟨p, listed, f.fileType, some content⟩ content w₀ with
          tsParserForJs := w₁.session.options.tsParserForJs } := by
      have hlanguage : ProjectRun.languageOf w₀.session.classifier ⟨p, listed, f.fileType, some content⟩ content =
          language := by
        rw [hclassifier]
        cases listed <;> rfl
      simp only [singleUnit, ProjectFile.alone, unitOf, hlanguage, hconfiguration, hstays.found, hstays.disk]
    have hsingle : resultOf engine w₁.session
        (singleUnit (f.alone input.configuration p language) content language w₁) = .ok result := by
      rw [hunit, resultOf_congr hstays.like]
      exact hresult
    have hdistinct : (parts.map Partial.entry).Pairwise fun e e' ↦ e.1.same e'.1 = false := by
      have hnames := hpaths.sublist horder
      rw [← hanalyzed, pairwise_map] at hnames
      exact pairwise_map.mpr hnames
    obtain ⟨outcome, w', hhandle, hout⟩ :=
      handle_single (hstays.like.linter ▸ hlinter) hc rfl rfl rfl false hsingle
    refine ⟨outcome, w', result, hhandle, hout, PathMap.get?_of_mem (PathMap.pairwise_ofList hdistinct) ?_⟩
    exact (PathMap.perm_ofList hdistinct).mem_iff.mpr (mem_map.mpr ⟨_, htold, rfl⟩)
  | _ => cases htells

theorem exists_of_analyzed {check : ProjectOutput → Workspace σ → Bool}
    {r : Except Halt (Except AnalysisError Response) × Workspace σ × List Partial} (h : analyzed check r = true) :
    ∃ o w, r = (.ok (.ok (.project o)), w, []) ∧ check o w = true := by
  unfold analyzed at h
  split at h
  · exact ⟨_, _, rfl, h⟩
  · cases h

def listing (listed : Language) : ProjectInput :=
  { configuration := { baseDir := some ⟨"/"⟩, sonarlint := true, maxFilesForTypeChecking := 0 }
    files := some [(⟨"/a.css"⟩, { content := some "// (", language := some listed })] }

def listingSession [Digest] : Session (List Path) :=
  (begin .silent (.initLinter { baseDir := ⟨"/"⟩ }) false ⟨.fresh .silent {}, {}⟩).2.session

theorem project_result_of_file_listing :
    let _ : Digest := sizeDigest
    ∃ o w outcome w', handle .silent (.analyzeProject (listing .css)) false ⟨listingSession, {}⟩ =
        (.ok (.ok (.project o)), w, []) ∧
      handle .silent (.analyzeCss (ProjectFile.alone { content := some "// (", language := some .css }
        (listing .css).configuration ⟨"/a.css"⟩ .css)) false w = (.ok outcome, w', []) ∧
      PathMap.get? ⟨"/a.css"⟩ o.files = FileResult.ofOutcome? outcome := by
  intro _
  have hs : Reachable .silent {} listingSession := .begin .fresh _ _ _
  have hok : analyzed (fun _ _ ↦ true)
      (handle .silent (.analyzeProject (listing .css)) false ⟨listingSession, {}⟩) = true := by decide +kernel
  obtain ⟨o, w, hdone, -⟩ := exists_of_analyzed hok
  obtain ⟨outcome, w', result, hhandle, hout, hget⟩ := project_result_of_file hs rfl
    (pairwise_singleton _ _) mem_cons_self rfl rfl hdone
  exact ⟨o, w, outcome, w', hdone, hhandle, hget.trans hout.symm⟩

def overrules : Option FileResult → Except Halt (Except AnalysisError Response) × Workspace σ × List Partial → Bool
  | some (.failed _), (.ok (.ok (.file _)), _, []) => true
  | _, _ => false

theorem listed_language_is_overruled :
    let _ : Digest := sizeDigest
    ∃ o w payload output w', handle .silent (.analyzeProject (listing .js)) false ⟨listingSession, {}⟩ =
        (.ok (.ok (.project o)), w, []) ∧
      PathMap.get? ⟨"/a.css"⟩ o.files = some (.failed payload) ∧
      handle .silent (.analyzeJsTs (ProjectFile.alone { content := some "// (", language := some .js }
        (listing .js).configuration ⟨"/a.css"⟩ .js)) false w = (.ok (.ok (.file output)), w', []) := by
  intro _
  have hcheck : analyzed (fun o w ↦ overrules (PathMap.get? ⟨"/a.css"⟩ o.files) (handle .silent
        (.analyzeJsTs (ProjectFile.alone { content := some "// (", language := some .js }
          (listing .js).configuration ⟨"/a.css"⟩ .js)) false w))
      (handle .silent (.analyzeProject (listing .js)) false ⟨listingSession, {}⟩) = true := by decide +kernel
  obtain ⟨o, w, hdone, hcheck⟩ := exists_of_analyzed hcheck
  unfold overrules at hcheck
  split at hcheck
  · exact ⟨_, _, _, _, _, hdone, ‹_›, ‹_›⟩
  · cases hcheck

end Session

end AnalysisServer
