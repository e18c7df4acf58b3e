import AnalysisServer.Proofs.Project.Fallbacks
import AnalysisServer.Proofs.Session.CurrentPrograms
import AnalysisServer.Proofs.Session.Results

namespace AnalysisServer

theorem Cache.entries_of_keyedBy {K V : Type} [BEq K] [LawfulBEq K] {c : Cache K V} {k : K} {v : V}
    (hc : c.KeyedBy (· = k)) (hv : c.peek? k none = some v) : c.entries = [(k, v)] := by
  obtain ⟨hnodup, hkeys⟩ := hc
  obtain ⟨i, hi⟩ : ∃ i, c.index = [(k, i)] := by
    rcases hindex : c.index with _ | ⟨⟨k₁, i⟩, _ | ⟨⟨k₂, i'⟩, rest⟩⟩ <;> rw [hindex] at hnodup hkeys
    · simp [peek?, slotOf?, hindex] at hv
    · obtain rfl : k₁ = k := hkeys _ (.head _)
      exact ⟨i, rfl⟩
    · obtain rfl : k₁ = k := hkeys _ (.head _)
      obtain rfl : k₂ = k₁ := hkeys _ (.tail _ (.head _))
      simp at hnodup
  have hvalue : c.value? i = some v := by
    rwa [peek?_none, slotOf?, hi, List.lookup_cons_self, Option.bind_some] at hv
  simp [entries, hi, hvalue]

theorem Registry.findForFile_first [Digest] {r : Registry} {disk : Disk} {classifier : Classifier} {t : Path}
    {p : Program} (hr : r.cache.KeyedBy fun _ ↦ False) (hp : Program.ofFile disk classifier t = .ok p) (file : Path) :
    ((r.getOrCreate disk classifier t).2.findForFile file).1 = if p.contains file then some p else none := by
  have hindex : r.cache.index = [] := List.eq_nil_iff_forall_not_mem.mpr hr.all
  have hsettled : r.cache.Settled := ⟨hr.mono fun _ ↦ False.elim, by simp [hindex]⟩
  obtain ⟨hprogram, -, hpeek⟩ := getOrCreate_spec disk classifier hsettled t
  have hnone : r.cache.peek? (programKey disk t) none = none := by
    rw [Cache.peek?, Cache.slotOf?, hindex]
    rfl
  rw [hnone] at hprogram
  have hfound : (r.getOrCreate disk classifier t).2.cache.peek? (programKey disk t) none = some p := by
    rw [hpeek, if_pos BEq.rfl, hprogram, hp]
    rfl
  have hentries := Cache.entries_of_keyedBy (keyedBy_getOrCreate (hr.mono fun _ ↦ False.elim) rfl) hfound
  simp only [findForFile, Cache.find, hentries, List.find?_cons, List.find?_nil]
  cases p.contains file <;> rfl

def StoreSet.origin? (set : StoreSet StandardStore) : Option TsConfigOrigin :=
  set.tsconfigs?.bind TsConfigStore.origin

theorem Classifier.isScript_classify {k : Classifier} {p : Path} {language : Language}
    (h : k.classify p none = some language) (hscript : language.isScript = true) (contents : Option String) :
    ∃ language', k.classify p contents = some language' ∧ language'.isScript = true := by
  unfold classify at h ⊢
  split at h
  · cases h
  · simp only at h ⊢
    split_ifs at h ⊢ <;> cases h <;> simp_all [Language.isScript]

variable {d : Disk}

theorem SourceStore.classify_of_record? {ctx : DiscoveryContext} {path : Path} {r : FileRecord}
    (h : record? ctx d path = some r) : ctx.config.classifier.classify r.path none = some r.language := by
  unfold record? at h
  split at h
  · cases h
  · rename_i hlanguage
    split at h
    · split at h <;> cases h
      exact hlanguage
    · cases h

namespace Session

variable {σ : Type}

structure IsNew (s : Session σ) : Prop where
  stores : s.stores = .standard
  programs : s.programs.cache.index = []

variable [Digest] {engine : RuleEngine σ} {input : ProjectInput} {streaming : Bool} {dir t : Path}
  {w w' : Workspace σ} {run : ProjectRun} {ctx : DiscoveryContext} {r : FileRecord}
  {outcome : DiscoveryOutcome} {set : StoreSet StandardStore}

structure OpensFallback (ctx : DiscoveryContext) (d : Disk) (t : Path) (run : ProjectRun) (w' : Workspace σ) :
    Prop where
  projects : w'.session.projectTsConfigs = [t]
  fallback : Fallback ctx d t w'.disk
  classifier : w'.session.classifier = ctx.config.classifier
  todo : run.todo = (ctx.walked d).filterMap (SourceStore.record? ctx d)
  found : ∀ p, Program.ofFile w'.disk w'.session.classifier t = .ok p → ∀ file,
    (w'.session.programs.findForFile file).1 = if p.contains file then some p else none
  current : run.current = none
  files : run.output.files = []

theorem discover_new (hset : set = .standard) (hfiles : ctx.files = none)
    (h : (StoreSet.discover ctx set d).1 = .ok outcome) :
    d.isDir ctx.baseDir = true ∧ (StoreSet.discover ctx set d).2.1.sources? = some (.scan ctx d) ∧
    (StoreSet.discover ctx set d).2.1.tsconfigs? = some (TsConfigStore.scan ctx d).2.1 ∧
    (StoreSet.discover ctx set d).2.2 = (TsConfigStore.scan ctx d).2.2 := by
  subst hset
  obtain ⟨hbase, -⟩ := (StoreSet.discover_standard_ok ctx d).mp ⟨outcome, h⟩
  obtain ⟨-, hstores⟩ := StoreSet.discover_standard ctx hbase
  obtain ⟨hsources, -, htsconfigs⟩ := StoreSet.stores?_toList hstores
  have hempty : StoreSet.standard.stores = Stores.toList {} := rfl
  obtain ⟨-, -, hdisk⟩ := StoreSet.discover_stores hempty ctx d
  have hnew : TsConfigStore.isInitialized ctx {} = false := by simp [TsConfigStore.isInitialized]
  refine ⟨hbase, ?_, htsconfigs, hdisk.trans ((Stores.discover_tsconfigs ctx {} d).2.2 hnew hbase).2.2⟩
  rw [hsources, Stores.ofWalk, SourceStore.first, hfiles]

theorem records_of_scan {es : List (String × Node)}
    (h : set.sources? = some (.scan ctx d)) (hbase : d.node ctx.baseDir = .ok (.dir es))
    (htidy : Node.TidyEntries es) :
    set.records = .ok ((ctx.walked d).filterMap (SourceStore.record? ctx d)) := by
  rw [StoreSet.records, h, Option.map_some, FilesCache.read, SourceStore.set?_scan]
  exact congrArg Except.ok (FileSet.records_ofRecords (pairwise_records hbase htidy))

theorem fallback_of_discovered (ctx : DiscoveryContext) (hnew : w.session.IsNew) (htidy : w.disk.root.Tidy)
    (htemp : w.disk.TakesTemp) (habs : ctx.baseDir.isAbsolute = true) (hfiles : ctx.files = none)
    (hide : ctx.config.sonarlint = false)
    (hok : (StoreSet.discover ctx w.session.stores w.disk).1 = .ok outcome)
    (horigin : (w.discovered ctx).session.stores.origin? = some .fallback) :
    ∃ t, (w.discovered ctx).session.stores.projects = .ok [t] ∧ Fallback ctx w.disk t (w.discovered ctx).disk ∧
      (w.discovered ctx).session.stores.records =
        .ok ((ctx.walked w.disk).filterMap (SourceStore.record? ctx w.disk)) := by
  obtain ⟨hbase, hsources, hstore, hdisk⟩ := discover_new hnew.stores hfiles hok
  have hstore' : (w.discovered ctx).session.stores.tsconfigs? = some (TsConfigStore.scan ctx w.disk).2.1 := hstore
  rw [StoreSet.origin?, hstore', Option.bind_some] at horigin
  obtain ⟨t, fields, here, s, bytes, -, hpaths, hfields, hread, hgains⟩ :=
    TsConfigStore.scan_fallback htemp hide horigin
  rw [← hdisk] at hread hgains
  have hprojects : (w.discovered ctx).session.stores.projects = .ok [t] := by
    rw [StoreSet.projects, hstore', Option.map_some, TsConfigStore.tsconfigs, horigin, hpaths]
    rfl
  have hfallback : Fallback ctx w.disk t (w.discovered ctx).disk :=
    ⟨habs, htidy, hbase, ⟨here, s, bytes, hgains⟩, fields, hfields, hread⟩
  obtain ⟨_, _, hplace⟩ := hfallback.exists_base
  exact ⟨t, hprojects, hfallback, records_of_scan hsources hplace.node hplace.tidy⟩

theorem opensFallback (hnew : w.session.IsNew) (htidy : w.disk.root.Tidy) (htemp : w.disk.TakesTemp)
    (hdir : input.configuration.baseDir = some dir) (habs : dir.isAbsolute = true) (hfiles : input.files = none)
    (hide : input.configuration.sonarlint = false)
    (hb : begin engine (.analyzeProject input) streaming w = (.more (.project run), w'))
    (horigin : w'.session.stores.origin? = some .fallback) :
    ∃ t, OpensFallback (input.context dir) w.disk t run w' := by
  obtain ⟨e, he⟩ | ⟨_, _, _, -, hrun, hgathered⟩ := begin_project hb
  · cases he
  cases hrun
  have hbegan := began_project engine input streaming w
  rw [hb] at hbegan
  cases hbegan with
  | calls hr => cases hr
  | @opened _ tsconfigs w₂ _ hr hf =>
    cases hr
    generalize hok : (Except.ok tsconfigs : Except AnalysisError (List Path)) = outcome at hf
    cases finds hf with
    | unready e h => cases hok
    | @discovery dir' w₁ hdir' hrules hlinter =>
      cases hdir.symm.trans hdir'
      obtain ⟨hnew₁, hdisk₁⟩ : w₁.session.IsNew ∧ w₁.disk = w.disk := by
        obtain ⟨_, _, _, rfl⟩ := hrules
        exact ⟨⟨hnew.stores, hnew.programs⟩, rfl⟩
      rw [← hdisk₁] at htidy htemp
      obtain ⟨outcome, hdiscover, hprojects⟩ := bind_eq_ok hok.symm
      obtain ⟨t, hprojects', hfallback, hrecords⟩ :=
        fallback_of_discovered (input.context dir) hnew₁ htidy htemp habs hfiles hide hdiscover horigin
      cases Except.ok.inj (hprojects'.symm.trans hprojects)
      have hkeyed : w₁.session.programs.cache.KeyedBy fun _ ↦ False :=
        ⟨by rw [hnew₁.programs]; exact List.nodup_nil, by simp [hnew₁.programs]⟩
      refine ⟨t, rfl, hdisk₁ ▸ hfallback, rfl, ?_, fun p hp file ↦ ?_, hgathered.current, hgathered.files⟩
      · rw [← hdisk₁]
        exact Except.ok.inj (hgathered.todo.symm.trans hrecords)
      · exact Registry.findForFile_first ((keyedBy_withoutStale hkeyed _ _ _ _).mono fun _ ↦ And.left) hp file

def FindsFor (w : Workspace σ) (r : FileRecord) (p : Program) : Prop :=
  (w.session.programs.findForFile (resolved w.disk r.path)).1 = some p

namespace OpensFallback

variable {d : Disk} {p : Program} (h : OpensFallback ctx d t run w')

include h

theorem mem_todo : r ∈ run.todo ↔ r.path ∈ ctx.walked d ∧ SourceStore.record? ctx d r.path = some r := by
  rw [h.todo, List.mem_filterMap]
  constructor
  · rintro ⟨path, hpath, hr⟩
    obtain ⟨rfl, -⟩ := SourceStore.path_of_record? hr
    exact ⟨hpath, hr⟩
  · rintro ⟨hpath, hr⟩
    exact ⟨r.path, hpath, hr⟩

theorem mem_scripts (hr : r ∈ run.todo) : r.path ∈ ctx.scripts d ↔ r.language.isScript = true := by
  obtain ⟨hpath, hrecord⟩ := h.mem_todo.mp hr
  rw [DiscoveryContext.scripts, List.mem_filter, Classifier.isScript, SourceStore.classify_of_record? hrecord]
  simp [hpath]

theorem findsFor_iff (hp : Program.ofFile w'.disk w'.session.classifier t = .ok p) :
    FindsFor w' r p ↔ p.contains (resolved w'.disk r.path) = true := by
  rw [FindsFor, h.found p hp]
  split <;> simp_all

theorem isScript_languageOf (hr : r ∈ run.todo) (hscript : r.language.isScript = true) (content : String) :
    (ProjectRun.languageOf w'.session.classifier r content).isScript = true := by
  obtain ⟨language, hlanguage, hscript'⟩ := Classifier.isScript_classify
    (SourceStore.classify_of_record? (h.mem_todo.mp hr).2) hscript (some content)
  rw [ProjectRun.languageOf, h.classifier, hlanguage]
  split
  · exact hscript'
  · exact hscript

theorem programId_iff {o : ProjectOutput} {sent : List Partial} {output : FileOutput}
    (hp : Program.ofFile w'.disk w'.session.classifier t = .ok p)
    (hresults : AreResults engine w' run.todo sent o) (hr : r ∈ run.todo) (hscript : r.language.isScript = true)
    (hvue : isVue r.path = false)
    (htold : ⟨r.path, .analyzed output⟩ ∈ sent ∨ PathMap.get? r.path o.files = some (.analyzed output)) :
    output.programId = some p.id ↔ FindsFor w' r p := by
  obtain ⟨_, _, hbase⟩ := h.fallback.exists_base
  have hresult : IsResult engine w' run.todo r.path (.analyzed output) :=
    htold.elim (hresults.sent _) (hresults.kept _ _)
  have hdistinct : run.todo.Pairwise fun r r' ↦ r.path.same r'.path = false := by
    rw [h.todo]
    exact pairwise_records hbase.node hbase.tidy
  rw [hresult.programId hdistinct hr (h.isScript_languageOf hr hscript) hvue, FindsFor, h.found p hp]
  split <;> simp

theorem traced : Traced engine w' run.todo [] run :=
  ⟨fun _ hr ↦ hr, by simp [h.current], by simp, by simp [h.files, PathMap.get?]⟩

end OpensFallback

/-- In a new session the program of a temporary project file is found for a script just if the place of the
script is the normal form of a listed path. So it is found for all scripts if the base directory is at its
normal form, and if none is left out only then. -/
theorem fallback_covers_project (hnew : w.session.IsNew) (htidy : w.disk.root.Tidy) (htemp : w.disk.TakesTemp)
    (hdir : input.configuration.baseDir = some dir) (habs : dir.isAbsolute = true) (hfiles : input.files = none)
    (hide : input.configuration.sonarlint = false)
    (hb : begin engine (.analyzeProject input) streaming w = (.more (.project run), w'))
    (horigin : w'.session.stores.origin? = some .fallback) :
    ∃ t, w'.session.projectTsConfigs = [t] ∧ ∀ p, Program.ofFile w'.disk w'.session.classifier t = .ok p →
        (∀ r ∈ run.todo, FindsFor w' r p ↔
          ∃ q ∈ (input.context dir).scripts w.disk, q.normalize = resolved w'.disk r.path) ∧
        (dir.normalize = resolved w.disk dir → ∀ r ∈ run.todo, r.language.isScript = true → FindsFor w' r p) ∧
        ((input.context dir).scripts w.disk ≠ [] →
          (∀ q ∈ (input.context dir).scripts w.disk, ∃ r ∈ run.todo, r.path = q ∧ FindsFor w' r p) →
          dir.normalize = resolved w.disk dir) ∧
        ∀ o w'' sent, handle engine (.analyzeProject input) streaming w = (.ok (.ok (.project o)), w'', sent) →
          ∀ r ∈ run.todo, r.language.isScript = true → isVue r.path = false → ∀ output,
            ⟨r.path, .analyzed output⟩ ∈ sent ∨ PathMap.get? r.path o.files = some (.analyzed output) →
            (output.programId = some p.id ↔ FindsFor w' r p) := by
  obtain ⟨t, h⟩ := opensFallback hnew htidy htemp hdir habs hfiles hide hb horigin
  refine ⟨t, h.projects, fun p hp ↦ ⟨fun r hr ↦ ?_, fun hplain r hr hscript ↦ ?_, fun hne hall ↦ ?_,
    fun o w'' sent hhandle r hr hscript hvue output htold ↦ ?_⟩⟩
  · obtain ⟨hpath, hrecord⟩ := h.mem_todo.mp hr
    rw [h.findsFor_iff hp]
    exact h.fallback.contains_iff hp hpath hrecord
  · rw [h.findsFor_iff hp]
    exact h.fallback.contains_of_plain hplain hp ((h.mem_scripts hr).mpr hscript) (h.mem_todo.mp hr).2
  · refine h.fallback.plain_of_contains hp hne fun q hq ↦ ?_
    obtain ⟨r, hr, rfl, hfinds⟩ := hall q hq
    exact ⟨r, (h.mem_todo.mp hr).2, (h.findsFor_iff hp).mp hfinds⟩
  · rw [handle, hb] at hhandle
    exact h.programId_iff hp (h.traced.finish (.refl w') hhandle) hr hscript hvue htold

end Session

def Progress.run? : Progress → Option ProjectRun
  | .more (.project run) => some run
  | _ => none

theorem Progress.eq_of_run? {α : Type} {x : Progress × α} {run : ProjectRun} (h : x.1.run? = some run) :
    x = (.more (.project run), x.2) := by
  unfold run? at h
  split at h
  · rename_i hmore
    cases h
    exact Prod.ext hmore rfl
  · cases h

/-- The project files of the programs that were built for a project, and the programs that its results tell. -/
def ProjectOutput.programs (o : ProjectOutput) : List Path × List (Path × Option String) :=
  (o.summary.programsCreated, o.files.map fun e ↦ (e.1, match e.2 with
      | .analyzed output => output.programId
      | .failed _ => none))

def Response.project? : Response → Option ProjectOutput
  | .project o => some o
  | _ => none

namespace Session

def scriptsAt (base : Path) : ProjectInput :=
  { configuration := { baseDir := some base, jsSuffixes := ["js"], tsSuffixes := [], cssSuffixes := [] }
    rules := [{ key := "S1" }] }

def linkedScript : Disk :=
  projectDisk [("a.js", .file "1".toUTF8)] [("q", .link ⟨"p"⟩), ("tmp", .dir [])]

def linkedWorkspace : Workspace (List Path) :=
  ⟨fresh .silent {}, linkedScript⟩

def dottedOpening : Progress × Workspace (List Path) :=
  let _ : Digest := sizeDigest
  begin .silent (.analyzeProject (scriptsAt ⟨"/q/../p/."⟩)) false linkedWorkspace

theorem takesTemp_linkedScript : linkedScript.TakesTemp := by
  have hreached : linkedScript.Reaches ⟨"/tmp"⟩ (Disk.tempName 0) := ⟨by decide +kernel, by decide +kernel⟩
  refine ⟨by decide, by decide +kernel, hreached, fun c hc ↦ ?_⟩
  have hclean : linkedScript.canonical? ⟨"/tmp"⟩ = some ⟨"/tmp"⟩ := by decide +kernel
  cases hclean.symm.trans hc
  exact hreached

theorem tidy_linkedScript : linkedScript.root.Tidy := by
  simp only [linkedScript, projectDisk, Node.Tidy, Node.TidyEntries]
  decide

theorem dottedOpening_eq : let _ : Digest := sizeDigest
    dottedOpening.1.run?.map (fun run ↦ run.todo.map fun r ↦ (r.path, r.language)) =
        some [(⟨"/q/../p/./a.js"⟩, .js)] ∧
      dottedOpening.2.session.stores.origin? = some .fallback ∧
      dottedOpening.2.session.projectTsConfigs = [⟨"/tmp/tsconfig-000000.json"⟩] ∧
      (Program.ofFile dottedOpening.2.disk dottedOpening.2.session.classifier
        ⟨"/tmp/tsconfig-000000.json"⟩).toOption.isSome = true := by
  decide +kernel

theorem fallback_covers_project_dotted : let _ : Digest := sizeDigest
    ∃ run p, dottedOpening = (.more (.project run), dottedOpening.2) ∧
      Program.ofFile dottedOpening.2.disk dottedOpening.2.session.classifier ⟨"/tmp/tsconfig-000000.json"⟩ = .ok p ∧
      run.todo.map (fun r ↦ (r.path, r.language)) = [(⟨"/q/../p/./a.js"⟩, .js)] ∧
      ∀ r ∈ run.todo, r.language.isScript = true → FindsFor dottedOpening.2 r p := by
  intro _
  obtain ⟨htodo, horigin, hprojects, hprogram⟩ := dottedOpening_eq
  obtain ⟨run, hrun, htodo⟩ := Option.map_eq_some_iff.mp htodo
  have hb := Progress.eq_of_run? hrun
  obtain ⟨t, ht, hall⟩ := fallback_covers_project (w := linkedWorkspace) ⟨rfl, rfl⟩ tidy_linkedScript
    takesTemp_linkedScript rfl (by decide) rfl rfl hb horigin
  cases hprojects.symm.trans ht
  rcases hp : Program.ofFile dottedOpening.2.disk dottedOpening.2.session.classifier ⟨"/tmp/tsconfig-000000.json"⟩
    with e | p
  · rw [hp] at hprogram
    cases hprogram
  · exact ⟨run, p, hb, rfl, htodo, (hall p hp).2.1 (by decide +kernel)⟩

/-- Through the link to its directory, the script is analyzed without the program that was built for it. -/
theorem linked_script_tells_no_program : let _ : Digest := sizeDigest
    (handle .silent (.analyzeProject (scriptsAt ⟨"/q"⟩)) false linkedWorkspace).1.toOption.bind (fun outcome ↦
      outcome.toOption.bind fun response ↦ response.project?.map ProjectOutput.programs) =
        some ([⟨"/tmp/tsconfig-000000.json"⟩], [(⟨"/q/a.js"⟩, none)]) := by
  decide +kernel

end Session

end AnalysisServer
