import AnalysisServer.Proofs.Discovery.Collections
import AnalysisServer.Proofs.Discovery.Reuse
import Mathlib.Data.List.Basic

namespace AnalysisServer

open List

open Node (dir)

open SourceStore (changed path_of_record? record? set?_scan)

open TsConfigStore (isDirty isInitialized isProvided isUsual keyFor scan scan_spec setup viewOf)

open AnalysisServer.Path (IsName)

def ChangeKind.between : Option ByteArray → Option ByteArray → ChangeKind
  | none, _ => created
  | some _, none => deleted
  | some _, some _ => modified

/-- Every file that differs between two trees is told, with the kind of its change. -/
def Reports (events : List FileEvent) (base : Path) (es es' : List (String × Node)) : Prop :=
  ∀ names, (dir es).fileAt? names ≠ (dir es').fileAt? names →
    ∃ event ∈ events, event.path.same (Walk.pathBelow base names) = true ∧
      event.kind = .between ((dir es).fileAt? names) ((dir es').fileAt? names)

/-- Temporary files can be written and taken away, and none of them is below the directory. -/
structure Disk.Spare (d : Disk) (base : Path) : Prop where
  writes : ∀ bytes, ∃ r, d.writeTemp bytes = .ok r
  rewrites : ∀ n bytes, ∃ r, (d.removeFile (d.temp.joinName (tempName n))).writeTemp bytes = .ok r
  below : ∀ n names, (d.removeFile (d.temp.joinName (tempName n))).node (Walk.pathBelow base names) =
    d.node (Walk.pathBelow base names)

def DiscoveryContext.withEvents (ctx : DiscoveryContext) (events : List FileEvent) : DiscoveryContext :=
  { ctx with config := { ctx.config with fsEvents := events } }

section

variable (ctx : DiscoveryContext) (events : List FileEvent)

include ctx events

@[simp] theorem DiscoveryContext.classifier_withEvents :
    (ctx.withEvents events).config.classifier = ctx.config.classifier :=
  rfl

@[simp] theorem DiscoveryContext.files_withEvents : (ctx.withEvents events).files = ctx.files :=
  rfl

theorem DiscoveryContext.baseDir_withEvents : (ctx.withEvents events).baseDir = ctx.baseDir :=
  rfl

@[simp] theorem discoveryKey_withEvents [Digest] :
    (ctx.withEvents events).config.discoveryKey (ctx.withEvents events).baseDir =
      ctx.config.discoveryKey ctx.baseDir :=
  rfl

@[simp] theorem keyFor_withEvents [Digest] : keyFor (ctx.withEvents events) = keyFor ctx :=
  rfl

end

/-- A disk before and after a change below the base directory that the events tell. -/
structure Edit (ctx : DiscoveryContext) (events : List FileEvent) (before after : Disk)
    (es es' : List (String × Node)) : Prop where
  base : before.node ctx.baseDir = .ok (.dir es)
  base' : after.node ctx.baseDir = .ok (.dir es')
  tidy : Node.TidyEntries es
  tidy' : Node.TidyEntries es'
  reports : Reports events ctx.baseDir es es'
  temp : after.temp = before.temp
  spare : after.Spare ctx.baseDir

section Events

theorem Path.fileName?_of_same {p q : Path} (h : p.same q = true) : p.fileName? = q.fileName? := by
  rw [fileName?, fileName?, eq_of_beq (show (p.components == q.components) = true from h)]

theorem Classifier.classify_of_same (k : Classifier) {p q : Path} (h : p.same q = true) :
    k.classify p none = k.classify q none := by
  rw [classify, classify, Path.fileName?_of_same h]

variable {events : List FileEvent} {base : Path} {es es' : List (String × Node)}
  (kind : Path → Bool) {names : Location}

section

variable (h : Reports events base es es') (hkind : ∀ {p q : Path}, p.same q = true → kind p = kind q)

include h hkind

theorem Reports.fileAt?_eq
    (hnone : ∀ event ∈ events, kind event.path = false) (hnames : kind (Walk.pathBelow base names) = true) :
    (dir es).fileAt? names = (dir es').fileAt? names := by
  by_contra hne
  obtain ⟨event, hmem, hsame, -⟩ := h names hne
  rw [← hkind hsame, hnone event hmem] at hnames
  cases hnames

theorem Reports.isSome_eq (hnone : ∀ event ∈ events, event.kind ≠ .modified → kind event.path = false)
    (hnames : kind (Walk.pathBelow base names) = true) :
    ((dir es).fileAt? names).isSome = ((dir es').fileAt? names).isSome := by
  by_contra hne
  obtain ⟨event, hmem, hsame, hchange⟩ := h names fun he ↦ hne (congrArg _ he)
  have hmodified : event.kind ≠ .modified := by
    rw [hchange]
    revert hne
    cases (dir es).fileAt? names <;> cases (dir es').fileAt? names <;> simp [ChangeKind.between]
  rw [← hkind hsame, hnone event hmem hmodified] at hnames
  cases hnames

end

end Events

section Edits

variable {ctx : DiscoveryContext} {events : List FileEvent} {before after : Disk} {es es' : List (String × Node)}

namespace Edit

variable {kind : Path → Bool}

section

variable (h : Edit ctx events before after es es')
  (hsame : ∀ names, kind (Walk.pathBelow ctx.baseDir names) = true →
    ((dir es).fileAt? names).isSome = ((dir es').fileAt? names).isSome)

include h hsame

theorem filter_walked : (ctx.walked before).filter kind = (ctx.walked after).filter kind := by
  rw [walked_eq h.base h.tidy, walked_eq h.base' h.tidy', filter_map, filter_map,
    filter_reported h.tidy h.tidy' (kind ∘ Walk.pathBelow ctx.baseDir) hsame]

theorem node_walked {path : Path} (hpath : path ∈ (ctx.walked after).filter kind) :
    ∃ names bytes bytes', path = Walk.pathBelow ctx.baseDir names ∧
      (dir es).fileAt? names = some bytes ∧ (dir es').fileAt? names = some bytes' ∧
      ((before.node path = .ok (.file bytes) ∧ after.node path = .ok (.file bytes')) ∨
        ∃ e, before.node path = .error e ∧ after.node path = .error e) := by
  rw [walked_eq h.base' h.tidy'] at hpath
  obtain ⟨hpath, hkind⟩ := mem_filter.mp hpath
  obtain ⟨names, hnames, rfl⟩ := mem_map.mp hpath
  obtain ⟨hne, bytes', hfile'⟩ := fileAt?_of_mem_reported h.tidy' hnames
  obtain ⟨bytes, hfile⟩ : ∃ bytes, (dir es).fileAt? names = some bytes :=
    Option.isSome_iff_exists.mp (by rw [hsame names hkind, hfile']; rfl)
  refine ⟨names, bytes, bytes', rfl, hfile, hfile', ?_⟩
  have hnode := node_reported h.base h.tidy hne hfile
  have hnode' := node_reported h.base' h.tidy' hne hfile'
  cases hfault : Disk.fault? ctx.baseDir names with
  | none =>
    rw [hfault] at hnode hnode'
    exact .inl ⟨hnode, hnode'⟩
  | some e =>
    rw [hfault] at hnode hnode'
    exact .inr ⟨e, hnode, hnode'⟩

end

variable [Digest]

theorem packages_eq (h : Edit ctx events before after es es')
    (hchanged : PackageStore.changed (ctx.withEvents events) = false) :
    PackageStore.scan ctx before = .scan ctx after := by
  have hfile (names : Location) (hnames : PackageStore.isManifest (Walk.pathBelow ctx.baseDir names) = true) :
      (dir es).fileAt? names = (dir es').fileAt? names := by
    refine h.reports.fileAt?_eq PackageStore.isManifest (fun hs ↦ ?_) (fun event hevent ↦ ?_) hnames
    · rw [PackageStore.isManifest, Path.fileName?_of_same hs, PackageStore.isManifest]
    · exact Bool.eq_false_iff.mpr (any_eq_false.mp hchanged event hevent)
  have hsome (names : Location) (hnames : PackageStore.isManifest (Walk.pathBelow ctx.baseDir names) = true) :=
    congrArg Option.isSome (hfile names hnames)
  rw [PackageStore.scan, PackageStore.scan, PackageStore.fed_filter, h.filter_walked hsome,
    PackageStore.fed_filter (ctx.walked after), PackageStore.fed_congr]
  intro path hpath
  obtain ⟨names, bytes, bytes', rfl, hb, hb', ⟨hn, hn'⟩ | ⟨e, hn, hn'⟩⟩ := h.node_walked hsome hpath
  · rw [hfile names (mem_filter.mp hpath).2, hb'] at hb
    rw [hn, hn', Option.some.inj hb]
  · rw [hn, hn']

end Edit

def Classifier.isSource (k : Classifier) (path : Path) : Bool :=
  (k.classify path none).isSome

def SourceStore.SidesKept (ctx : DiscoveryContext) (before after : Disk) : Prop :=
  ∀ path ∈ ctx.walked after, ctx.config.classifier.isSource path = true → ∀ bytes bytes',
    before.node path = .ok (.file bytes) → after.node path = .ok (.file bytes') →
    (bytes.size > ctx.config.maxFileBytes ↔ bytes'.size > ctx.config.maxFileBytes)

theorem SourceStore.filterMap_record?_eq_iff {paths : List Path} :
    paths.filterMap (record? ctx before) = paths.filterMap (record? ctx after) ↔
      ∀ path ∈ paths, record? ctx before path = record? ctx after path := by
  -- a record is found in the other list, and there by its own path
  have hother {d d'} (he : paths.filterMap (record? ctx d) = paths.filterMap (record? ctx d'))
      {path} (hpath : path ∈ paths) {r} (hr : record? ctx d path = some r) :
      record? ctx d' path = some r := by
    have hmem : r ∈ paths.filterMap (record? ctx d') := he ▸ mem_filterMap.mpr ⟨path, hpath, hr⟩
    obtain ⟨path', -, hr'⟩ := mem_filterMap.mp hmem
    rwa [← (path_of_record? hr').1, (path_of_record? hr).1] at hr'
  refine ⟨fun he path hpath ↦ ?_, filterMap_congr⟩
  cases hr : record? ctx before path with
  | some r => exact (hother he hpath hr).symm
  | none =>
    cases hr' : record? ctx after path with
    | none => rfl
    | some r => rw [hother he.symm hpath hr'] at hr; cases hr

theorem SourceStore.filterMap_record?_filter (disk : Disk) (paths : List Path) : paths.filterMap (record? ctx disk) =
      (paths.filter ctx.config.classifier.isSource).filterMap (record? ctx disk) := by
  rw [filterMap_filter]
  refine filterMap_congr fun path _ ↦ ?_
  split
  · rfl
  · rename_i hknown
    cases hr : record? ctx disk path with
    | none => rfl
    | some r => exact absurd (path_of_record? hr).2 hknown

variable {d : Disk}

section

variable (hbase : d.node ctx.baseDir = .ok (.dir es)) (htidy : Node.TidyEntries es)

include hbase htidy

theorem pairwise_walked : (ctx.walked d).Pairwise fun p q ↦ p.same q = false := by
  obtain ⟨here, hlocate, -⟩ := Disk.exists_locate hbase
  have hempty := (Disk.follow_of_locate hlocate).1
  have hnames {names} (h : names ∈ ctx.reported es) :
      (Walk.pathBelow ctx.baseDir names).components = ctx.baseDir.components ++ names.map .name := by
    obtain ⟨bytes, hfile⟩ := (fileAt?_of_mem_reported htidy h).2
    exact (below_pathBelow hempty (Node.isName_of_tidy (n := .dir es) htidy (Node.get?_of_fileAt? hfile))).2.2.2.1
  rw [walked_eq hbase htidy]
  refine pairwise_map.mpr ((pairwise_reported htidy).imp_of_mem fun {names names'} h h' hlt ↦ ?_)
  refine beq_eq_false_iff_ne.mpr fun he ↦ ?_
  rw [hnames h, hnames h'] at he
  have heq : names = names' :=
    map_injective_iff.mpr (fun _ _ h ↦ Component.name.inj h) (append_cancel_left he)
  exact List.lt_irrefl names' (heq ▸ hlt)

theorem pairwise_records :
    ((ctx.walked d).filterMap (record? ctx d)).Pairwise fun r r' ↦ r.path.same r'.path = false := by
  refine pairwise_filterMap.mpr ((pairwise_walked hbase htidy).imp fun hne r hr r' hr' ↦ ?_)
  rwa [(path_of_record? hr).1, (path_of_record? hr').1]

end

namespace Edit

variable [Digest]

theorem files_eq_iff (h : Edit ctx events before after es es') (hchanged : changed (ctx.withEvents events) = false) :
    (SourceStore.scan ctx before).files.set? = (SourceStore.scan ctx after).files.set? ↔
      SourceStore.SidesKept ctx before after := by
  have hsome (names : Location) (hnames : ctx.config.classifier.isSource (Walk.pathBelow ctx.baseDir names) = true) :
      ((dir es).fileAt? names).isSome = ((dir es').fileAt? names).isSome := by
    refine h.reports.isSome_eq ctx.config.classifier.isSource (fun hs ↦ ?_) (fun event hevent hkind ↦ ?_) hnames
    · rw [Classifier.isSource, Classifier.classify_of_same _ hs, Classifier.isSource]
    · have hquiet := any_eq_false.mp hchanged event hevent
      simpa [hkind, Classifier.isSource] using hquiet
  have hpaths := h.filter_walked hsome
  have hrecords : (SourceStore.scan ctx before).files.set? = (SourceStore.scan ctx after).files.set? ↔
      (ctx.walked before).filterMap (record? ctx before) = (ctx.walked after).filterMap (record? ctx after) := by
    rw [set?_scan, set?_scan, Option.some.injEq]
    refine ⟨fun he ↦ ?_, fun he ↦ by rw [he]⟩
    rw [← FileSet.records_ofRecords (pairwise_records h.base h.tidy), he,
      FileSet.records_ofRecords (pairwise_records h.base' h.tidy')]
  rw [hrecords, SourceStore.filterMap_record?_filter, SourceStore.filterMap_record?_filter after, hpaths,
    SourceStore.filterMap_record?_eq_iff]
  refine ⟨fun he path hpath hknown bytes bytes' hb hb' ↦ ?_, fun hsides path hpath ↦ ?_⟩
  · obtain ⟨language, hlanguage⟩ := Option.isSome_iff_exists.mp hknown
    have hsame := he path (mem_filter.mpr ⟨hpath, hknown⟩)
    simp only [record?, hlanguage, hb, hb'] at hsame
    by_cases hsize : bytes.size > ctx.config.maxFileBytes <;>
      by_cases hsize' : bytes'.size > ctx.config.maxFileBytes <;> simp [hsize, hsize'] at hsame ⊢
  · obtain ⟨hpath', hknown⟩ := mem_filter.mp hpath
    obtain ⟨language, hlanguage⟩ := Option.isSome_iff_exists.mp hknown
    obtain ⟨-, bytes, bytes', -, -, -, ⟨hb, hb'⟩ | ⟨e, hb, hb'⟩⟩ := h.node_walked hsome hpath
    · simp only [record?, hlanguage, hb, hb', hsides path hpath' hknown bytes bytes' hb hb']
    · simp only [record?, hlanguage, hb, hb']

end Edit

namespace TsConfigStore

theorem isProvided_of_isEmpty (h : ctx.config.tsConfigPaths.isEmpty = true) (path : Path) :
    isProvided ctx path = false := by
  rw [isProvided, providedGlobs, isEmpty_iff.mp h]
  rfl

theorem filter_isProvided (paths : List Path) : paths.filter (isProvided ctx) =
    if (viewOf ctx paths).1 = some .property then (viewOf ctx paths).2.filterMap id else [] := by
  have hnone (hempty : ctx.config.tsConfigPaths.isEmpty = true) : paths.filter (isProvided ctx) = [] :=
    filter_eq_nil_iff.mpr fun path _ ↦ by simp [isProvided_of_isEmpty hempty path]
  rw [viewOf]
  split
  · simp
  · rename_i hnamed
    have hnil : paths.filter (isProvided ctx) = [] := by
      by_cases hempty : ctx.config.tsConfigPaths.isEmpty = true
      · exact hnone hempty
      · simpa [hempty] using hnamed
    rw [hnil]
    split <;> simp

theorem viewOf_eq_iff {paths paths' : List Path} (husual : paths.filter isUsual = paths'.filter isUsual)
    (hscripts : (viewOf ctx paths).1 = some .fallback →
      paths.filter ctx.config.classifier.isScript = paths'.filter ctx.config.classifier.isScript) :
    viewOf ctx paths = viewOf ctx paths' ↔ paths.filter (isProvided ctx) = paths'.filter (isProvided ctx) := by
  constructor
  · intro he
    rw [filter_isProvided, he, ← filter_isProvided]
  · intro he
    simp only [viewOf, he, husual] at hscripts ⊢
    split
    · rfl
    · split
      · rfl
      · rename_i hnamed hnone
        rw [if_neg hnamed, if_neg hnone] at hscripts
        rw [hscripts rfl]

end TsConfigStore

theorem Edit.view_eq_iff (h : Edit ctx events before after es es') {t : TsConfigStore}
    (ht : t.view = viewOf ctx (ctx.walked before))
    (hdirty : t.isDirty (ctx.withEvents events) = false) :
    t.view = viewOf ctx (ctx.walked after) ↔ (ctx.walked before).filter (isProvided ctx) =
        (ctx.walked after).filter (isProvided ctx) := by
  have hquiet (event : FileEvent) (hevent : event ∈ events) :
      event.path.fileName?.any TsConfigStore.isProjectFileName = false ∧
      (t.origin = some .fallback → event.kind ≠ .modified → ctx.config.classifier.isScript event.path = false) := by
    have hevent := any_eq_false.mp hdirty event hevent
    rw [Bool.or_eq_true, not_or] at hevent
    refine ⟨Bool.eq_false_iff.mpr hevent.1, fun horigin hkind ↦ ?_⟩
    simpa [horigin, hkind] using hevent.2
  rw [ht]
  refine TsConfigStore.viewOf_eq_iff (h.filter_walked fun names ↦ ?_) fun horigin ↦ h.filter_walked fun names ↦ ?_
  · refine h.reports.isSome_eq isUsual (fun hs ↦ ?_) fun event hevent _ ↦ ?_
    · rw [isUsual, Path.fileName?_of_same hs, isUsual]
    · refine Bool.eq_false_iff.mpr fun husual ↦ ?_
      have hname := (hquiet event hevent).1
      rw [eq_of_beq husual] at hname
      revert hname
      decide
  · rw [← ht] at horigin
    refine h.reports.isSome_eq ctx.config.classifier.isScript (fun hs ↦ ?_)
      fun event hevent hkind ↦ (hquiet event hevent).2 horigin hkind
    rw [Classifier.isScript, Classifier.classify_of_same _ hs, Classifier.isScript]

end Edits

section Discoveries

variable {ctx : DiscoveryContext} {es es' : List (String × Node)}

theorem isDir_of_node {d : Disk} (h : d.node ctx.baseDir = .ok (.dir es)) : d.isDir ctx.baseDir = true := by
  rw [Disk.isDir, h]
  rfl

variable [Digest]

def SourceStore.first (ctx : DiscoveryContext) (disk : Disk) : SourceStore :=
  match ctx.files with
  | some files => loadInputs {} ctx files
  | none => .scan ctx disk

def Stores.ofWalk (ctx : DiscoveryContext) (disk : Disk) : Stores :=
  ⟨.first ctx disk, .scan ctx disk, (scan ctx disk).2.1⟩

theorem Stores.discover_new (ctx : DiscoveryContext) (h : d.isDir ctx.baseDir = true) :
    (Stores.discover ctx {} d).1 = (scan ctx d).1 ∧
    (Stores.discover ctx {} d).2.1 = .ofWalk ctx d := by
  have hp : PackageStore.isInitialized ctx {} = false := by simp [PackageStore.isInitialized]
  have ht : isInitialized ctx {} = false := by simp [isInitialized]
  rw [ofWalk, SourceStore.first]
  cases hfiles : ctx.files with
  | some files =>
    have hs : SourceStore.isInitialized ctx {} = (true, .loadInputs {} ctx files) := by
      simp [SourceStore.isInitialized, hfiles]
    exact discover_of_isDir (x := {}) h hs hp ht rfl
  | none =>
    have hs : SourceStore.isInitialized ctx {} = (false, {}) := by
      simp [SourceStore.isInitialized, hfiles, FilesCache.isInitialized]
    exact discover_of_isDir (x := {}) h hs hp ht rfl

variable {events : List FileEvent} {before after : Disk} {y : Except AnalysisError Unit × Stores × Disk}

theorem Edit.walkedDisk (h : Edit ctx events before after es es') (ready : Bool) {walked : Disk}
    (hwalked : (if ready then after else ((scan ctx before).2.1.setup after).2) = walked) :
    (∀ bytes, ∃ r, walked.writeTemp bytes = .ok r) ∧
    ∀ names, walked.node (Walk.pathBelow ctx.baseDir names) = after.node (Walk.pathBelow ctx.baseDir names) := by
  subst hwalked
  cases ready with
  | true => exact ⟨h.spare.writes, fun _ ↦ rfl⟩
  | false =>
    simp only [Bool.false_eq_true, if_false, setup]
    obtain hnone | ⟨n, hn⟩ := TsConfigStore.fallback_scan ctx before
    · rw [hnone]
      exact ⟨h.spare.writes, fun _ ↦ rfl⟩
    · rw [hn, ← h.temp]
      exact ⟨h.spare.rewrites n, h.spare.below n⟩

theorem isInitialized_withEvents (events : List FileEvent) (hfirst : (scan ctx before).1 = .ok ()) :
    (ctx.files = none → (SourceStore.scan ctx before).isInitialized (ctx.withEvents events) =
      (!changed (ctx.withEvents events), .scan ctx before)) ∧
    (PackageStore.scan ctx before).isInitialized (ctx.withEvents events) =
      !PackageStore.changed (ctx.withEvents events) ∧
    (scan ctx before).2.1.isInitialized (ctx.withEvents events) =
      !(scan ctx before).2.1.isDirty (ctx.withEvents events) := by
  obtain ⟨hview, hkey⟩ := (scan_spec ctx before).1 hfirst
  have horigin : (scan ctx before).2.1.origin.isSome = true := by
    refine (congrArg (fun v ↦ v.1.isSome) hview).trans ?_
    rw [viewOf]
    split
    · rfl
    · split <;> rfl
  refine ⟨fun hfiles ↦ ?_, ?_, ?_⟩
  · simp [SourceStore.isInitialized, hfiles, SourceStore.scan, SourceStore.postProcess,
      FilesCache.isInitialized, FilesCache.setFiles]
  · simp [PackageStore.isInitialized, PackageStore.scan, PackageStore.postProcess]
  · simp [isInitialized, horigin, hkey]

theorem Edit.discover (h : Edit ctx events before after es es') (hfirst : (scan ctx before).1 = .ok ())
    (hy : (Stores.ofWalk ctx before).discover (ctx.withEvents events) after = y) :
    y.1 = .ok () ∧ y.2.1.packages = .scan ctx after ∧
    (y.2.1.sources.files.set? = (SourceStore.first ctx after).files.set? ↔
      ctx.files.isSome = true ∨ changed (ctx.withEvents events) = true ∨ SourceStore.SidesKept ctx before after) ∧
    (y.2.1.tsconfigs.view = viewOf ctx (ctx.walked after) ↔
      (scan ctx before).2.1.isDirty (ctx.withEvents events) = true ∨ (ctx.walked before).filter (isProvided ctx) =
          (ctx.walked after).filter (isProvided ctx)) := by
  subst hy
  have hbase : after.isDir (ctx.withEvents events).baseDir = true := isDir_of_node h.base'
  obtain ⟨hsready, hpready, htready⟩ := isInitialized_withEvents events hfirst
  generalize hwalked : (if !(scan ctx before).2.1.isDirty (ctx.withEvents events) then after
    else ((scan ctx before).2.1.setup after).2) = walked
  obtain ⟨hwrites, hnodes⟩ := h.walkedDisk _ hwalked
  obtain ⟨hsources, hpackages⟩ := scan_congr hnodes
  obtain ⟨a, s, hs, hset⟩ : ∃ a s, (SourceStore.first ctx before).isInitialized (ctx.withEvents events) = (a, s) ∧
      ((if a then s else .scan ctx walked).files.set? = (SourceStore.first ctx after).files.set? ↔
        ctx.files.isSome = true ∨ changed (ctx.withEvents events) = true ∨
          SourceStore.SidesKept ctx before after) := by
    cases hfiles : ctx.files with
    | some files =>
      refine ⟨true, .loadInputs (.first ctx before) (ctx.withEvents events) files, ?_, ?_⟩
      · simp [SourceStore.isInitialized, hfiles]
      · refine iff_of_true ?_ (.inl rfl)
        simp only [SourceStore.first, hfiles]
        rfl
    | none =>
      refine ⟨!changed (ctx.withEvents events), .scan ctx before, ?_, ?_⟩
      · rw [SourceStore.first, hfiles]
        exact hsready hfiles
      · rw [SourceStore.first, hfiles]
        cases hchanged : changed (ctx.withEvents events) with
        | true => exact iff_of_true (congrArg (fun s ↦ s.files.set?) hsources) (.inr (.inl rfl))
        | false => simpa using h.files_eq_iff hchanged
  obtain ⟨hresult, hstores⟩ := Stores.discover_of_isDir (x := .ofWalk ctx before) hbase hs hpready htready hwalked
  rw [hresult, hstores]
  refine ⟨?_, ?_, hset, ?_⟩
  · split
    · rfl
    · exact (scan_spec _ walked).2 hwrites
  · cases hchanged : PackageStore.changed (ctx.withEvents events) with
    | false => exact h.packages_eq hchanged
    | true => exact hpackages
  · cases hdirty : (scan ctx before).2.1.isDirty (ctx.withEvents events) with
    | true =>
      refine iff_of_true ?_ (.inl rfl)
      have hok := (scan_spec (ctx.withEvents events) walked).2 hwrites
      refine ((scan_spec _ walked).1 hok).1.trans ?_
      exact congrArg (viewOf ctx) (walked_congr hnodes)
    | false =>
      simpa [Stores.ofWalk] using h.view_eq_iff ((scan_spec ctx before).1 hfirst).1 hdirty

namespace StoreSet

/-- A discovery with new stores, and the next one on another disk with the events in between. -/
def updated (ctx : DiscoveryContext) (events : List FileEvent) (before after : Disk) :
    Except AnalysisError DiscoveryOutcome × StoreSet StandardStore × Disk :=
  discover (ctx.withEvents events) (discover ctx standard before).2.1 after

omit [Digest] in
theorem stores?_toList {set : StoreSet StandardStore} {x : Stores} (h : set.stores = x.toList) :
    set.sources? = some x.sources ∧ set.packages? = some x.packages ∧ set.tsconfigs? = some x.tsconfigs := by
  simp only [sources?, packages?, tsconfigs?, h]
  exact ⟨rfl, rfl, rfl⟩

omit [Digest] in
theorem exists_ok_of_map {ε α : Type} {r : Except ε α} (h : (r.map fun _ ↦ ()) = .ok ()) : ∃ a, r = .ok a := by
  cases r with
  | ok a => exact ⟨a, rfl⟩
  | error e => cases h

theorem discover_standard (ctx : DiscoveryContext) (h : d.isDir ctx.baseDir = true) :
    ((discover ctx standard d).1.map fun _ ↦ ()) = (scan ctx d).1 ∧
    (discover ctx standard d).2.1.stores = (Stores.ofWalk ctx d).toList := by
  obtain ⟨hresult, hstores, -⟩ := discover_toList ctx d {} 0
  obtain ⟨hscan, hnew⟩ := Stores.discover_new ctx h
  exact ⟨hresult.trans hscan, hstores.trans (congrArg Stores.toList hnew)⟩

theorem updated_eq (ctx : DiscoveryContext) (events : List FileEvent) (after : Disk)
    (h : before.isDir ctx.baseDir = true) :
    ((updated ctx events before after).1.map fun _ ↦ ()) =
      ((Stores.ofWalk ctx before).discover (ctx.withEvents events) after).1 ∧
    (updated ctx events before after).2.1.stores =
      ((Stores.ofWalk ctx before).discover (ctx.withEvents events) after).2.1.toList := by
  obtain ⟨hresult, hstores, -⟩ := discover_toList (ctx.withEvents events) after (.ofWalk ctx before)
    (discover ctx standard before).2.1.walks
  rw [← (discover_standard ctx h).2] at hresult hstores
  exact ⟨hresult, hstores⟩

theorem shown_updated (events : List FileEvent) (hbase : before.isDir ctx.baseDir = true)
    (hbase' : after.isDir ctx.baseDir = true)
    (hok : (scan (ctx.withEvents events) after).1 = .ok ())
    (hy : (Stores.ofWalk ctx before).discover (ctx.withEvents events) after = y) :
    ((updated ctx events before after).2.1.packages?.map (·.packages) =
        (discover (ctx.withEvents events) standard after).2.1.packages?.map (·.packages) ↔
      y.2.1.packages.packages = (PackageStore.scan ctx after).packages) ∧
    ((updated ctx events before after).2.1.sources?.map (·.files.set?) =
        (discover (ctx.withEvents events) standard after).2.1.sources?.map (·.files.set?) ↔
      y.2.1.sources.files.set? = (SourceStore.first ctx after).files.set?) ∧
    ((updated ctx events before after).2.1.tsconfigs?.map (·.view) =
        (discover (ctx.withEvents events) standard after).2.1.tsconfigs?.map (·.view) ↔
      y.2.1.tsconfigs.view = viewOf ctx (ctx.walked after)) := by
  subst hy
  obtain ⟨hs, hp, ht⟩ := stores?_toList (updated_eq ctx events after hbase).2
  obtain ⟨hs', hp', ht'⟩ := stores?_toList (discover_standard (ctx.withEvents events) hbase').2
  rw [hs, hs', hp, hp', ht, ht']
  simp only [Option.map_some, Option.some.injEq]
  refine ⟨Iff.rfl, Iff.rfl, ?_⟩
  rw [Stores.ofWalk, Stores.ofWalk, ((scan_spec _ after).1 hok).1]
  rfl

/-- When an update can be told from a discovery with new stores: the manifests never can, and the sources and
the project files only if no event makes their store walk again while the size limit divides the files
otherwise, or other project files are named. -/
theorem updated_matches_iff (h : Edit ctx events before after es es') {outcome : DiscoveryOutcome}
    (hfirst : (discover ctx standard before).1 = .ok outcome) :
    (∃ o, (updated ctx events before after).1 = .ok o) ∧
    (∃ o, (discover (ctx.withEvents events) standard after).1 = .ok o) ∧
    (updated ctx events before after).2.1.packages?.map (·.packages) =
      (discover (ctx.withEvents events) standard after).2.1.packages?.map (·.packages) ∧
    ((updated ctx events before after).2.1.sources?.map (·.files.set?) =
        (discover (ctx.withEvents events) standard after).2.1.sources?.map (·.files.set?) ↔
      ctx.files.isSome = true ∨ changed (ctx.withEvents events) = true ∨ SourceStore.SidesKept ctx before after) ∧
    ((updated ctx events before after).2.1.tsconfigs?.map (·.view) =
        (discover (ctx.withEvents events) standard after).2.1.tsconfigs?.map (·.view) ↔
      (discover ctx standard before).2.1.tsconfigs?.any (·.isDirty (ctx.withEvents events)) = true ∨
        (ctx.walked before).filter (isProvided ctx) = (ctx.walked after).filter (isProvided ctx)) := by
  have hbase := isDir_of_node h.base
  have hbase' := isDir_of_node h.base'
  obtain ⟨hresult, hstores⟩ := discover_standard ctx hbase
  have hok : (scan ctx before).1 = .ok () := by
    rw [← hresult, hfirst]
    rfl
  have hok' := (scan_spec (ctx.withEvents events) after).2 h.spare.writes
  obtain ⟨hdone, hpackages, hsources, htsconfigs⟩ := h.discover hok rfl
  obtain ⟨hpshown, hsshown, htshown⟩ := shown_updated events hbase hbase' hok' rfl
  rw [← ctx.baseDir_withEvents events] at hbase'
  refine ⟨exists_ok_of_map ((updated_eq ctx events after hbase).1.trans hdone),
    exists_ok_of_map ((discover_standard (ctx.withEvents events) hbase').1.trans hok'),
    hpshown.mpr (congrArg _ hpackages), hsshown.trans hsources, ?_⟩
  rw [(stores?_toList hstores).2.2, Option.any_some]
  exact htshown.trans htsconfigs

end StoreSet

end Discoveries

namespace StoreSet

def shelf (es fs : List (String × Node)) (made : Nat) : Disk :=
  { root := .dir [("p", .dir es), ("tmp", .dir fs)], made }

theorem node_shelf (es fs : List (String × Node)) (made : Nat) : (shelf es fs made).node ⟨"/p"⟩ = .ok (.dir es) := by
  with_unfolding_all rfl

theorem place_shelf (es fs : List (String × Node)) (made n : Nat) :
    (shelf es fs made).place ((shelf es fs made).temp.joinName (Disk.tempName n)) =
    .ok ["tmp", Disk.tempName n] := by
  rw [place_tempName rfl]
  with_unfolding_all rfl

def scratch (es : List (String × Node)) : Disk :=
  { root := .dir [("p", .dir es), ("tmp", .dir [])] }

theorem node_scratch (es : List (String × Node)) : (scratch es).node ⟨"/p"⟩ = .ok (.dir es) :=
  node_shelf es [] 0

theorem place_scratch (es : List (String × Node)) (n : Nat) :
    (scratch es).place ((scratch es).temp.joinName (Disk.tempName n)) = .ok ["tmp", Disk.tempName n] :=
  place_shelf es [] 0 n

theorem spare_scratch (es : List (String × Node)) : (scratch es).Spare ⟨"/p"⟩ := by
  have hgone (n : Nat) : (scratch es).removeFile ((scratch es).temp.joinName (Disk.tempName n)) = scratch es := by
    rw [Disk.removeFile, place_scratch]
    rfl
  have hwrites (bytes : ByteArray) : ∃ r, (scratch es).writeTemp bytes = .ok r := by
    rw [Disk.writeTemp, Disk.write, place_scratch]
    exact ⟨_, rfl⟩
  refine ⟨hwrites, fun n ↦ ?_, fun n _ ↦ by rw [hgone]⟩
  rwa [hgone]

def naming : DiscoveryContext :=
  { baseDir := ⟨"/p"⟩, config := { maxFileSize := 0, tsConfigPaths := ["base.json"] } }

def flat (files : List (String × ByteArray)) : List (String × Node) :=
  files.map fun f ↦ (f.1, .file f.2)

theorem fileAt?_flat (files : List (String × ByteArray)) (names : Location) : (dir (flat files)).fileAt? names =
      match names with
      | [s] => files.lookup s
      | _ => none := by
  induction files with
  | nil => cases names with
    | nil => rfl
    | cons s rest => cases rest <;> rfl
  | cons f files ih =>
    obtain ⟨name, bytes⟩ := f
    cases names with
    | nil => rfl
    | cons s rest =>
      rw [flat, map_cons, Node.fileAt?_cons]
      by_cases hs : s = name
      · cases rest <;> simp [hs, Node.fileAt?, Node.get?]
      · rw [if_neg hs]
        refine ih.trans ?_
        cases rest with
        | nil => simp [lookup_cons, beq_false_of_ne hs]
        | cons s' rest => rfl

variable {files : List (String × ByteArray)}

theorem tidy_flat (hnames : ∀ f ∈ files, IsName f.1)
    (hsorted : files.Pairwise fun f f' ↦ f.1 < f'.1) : Node.TidyEntries (flat files) := by
  induction files with
  | nil => trivial
  | cons f files ih =>
    obtain ⟨hlt, hrest⟩ := pairwise_cons.mp hsorted
    refine ⟨hnames f (.head _), trivial, fun e he ↦ ?_, ih (fun f' hf' ↦ hnames f' (.tail _ hf')) hrest⟩
    obtain ⟨f', hf', rfl⟩ := mem_map.mp he
    exact hlt f' hf'

theorem edit_flat {events : List FileEvent} {files' : List (String × ByteArray)}
    (hnames : ∀ f ∈ files ++ files', IsName f.1) (hsorted : files.Pairwise fun f f' ↦ f.1 < f'.1)
    (hsorted' : files'.Pairwise fun f f' ↦ f.1 < f'.1)
    (hreports : ∀ s, files.lookup s ≠ files'.lookup s → ∃ event ∈ events,
      event.path.same (Walk.pathBelow ⟨"/p"⟩ [s]) = true ∧
      event.kind = .between (files.lookup s) (files'.lookup s)) :
    Edit naming events (scratch (flat files)) (scratch (flat files')) (flat files) (flat files') := by
  refine ⟨node_scratch _, node_scratch _, tidy_flat (fun f hf ↦ hnames f (mem_append_left _ hf)) hsorted,
    tidy_flat (fun f hf ↦ hnames f (mem_append_right _ hf)) hsorted', fun names hne ↦ ?_, rfl,
    spare_scratch _⟩
  rw [fileAt?_flat, fileAt?_flat] at hne ⊢
  cases names with
  | nil => exact absurd rfl hne
  | cons s rest =>
    cases rest with
    | nil => exact hreports s hne
    | cons s' rest => exact absurd rfl hne

theorem ok_scratch [Digest] (es : List (String × Node)) :
    ∃ outcome, (discover naming standard (scratch es)).1 = .ok outcome := by
  refine exists_ok_of_map ((discover_standard naming (isDir_of_node (node_scratch es))).1.trans ?_)
  exact (scan_spec naming (scratch es)).2 (spare_scratch es).writes

def oneScriptFile : List (String × ByteArray) :=
  [("a.js", .empty)]

def twoScriptFiles : List (String × ByteArray) :=
  [("a.js", .empty), ("b.js", .empty)]

def namedFiles : List (String × ByteArray) :=
  [("a.js", .empty), ("base.json", .empty)]

def grownFile : List (String × ByteArray) :=
  [("a.js", "1".toUTF8)]

def scriptCreated : List FileEvent :=
  [⟨⟨"/p/b.js"⟩, .created⟩]

def grownAndDeleted : List FileEvent :=
  [⟨⟨"/p/a.js"⟩, .modified⟩, ⟨⟨"/p/base.json"⟩, .deleted⟩]

theorem edit_created : Edit naming scriptCreated (scratch (flat oneScriptFile))
    (scratch (flat twoScriptFiles)) (flat oneScriptFile) (flat twoScriptFiles) := by
  refine edit_flat (by decide) (by decide) (by decide) fun s hs ↦ ?_
  by_cases ha : s = "a.js"
  · exact absurd (by simp [ha, oneScriptFile, twoScriptFiles]) hs
  · by_cases hb : s = "b.js"
    · subst hb
      exact ⟨_, mem_cons_self, by decide, rfl⟩
    · refine absurd ?_ hs
      simp [oneScriptFile, twoScriptFiles, lookup_cons, beq_false_of_ne ha, beq_false_of_ne hb]

theorem edit_grown : Edit naming grownAndDeleted (scratch (flat namedFiles)) (scratch (flat grownFile))
    (flat namedFiles) (flat grownFile) := by
  refine edit_flat (by decide) (by decide) (by decide) fun s hs ↦ ?_
  by_cases ha : s = "a.js"
  · subst ha
    exact ⟨_, mem_cons_self, by decide, rfl⟩
  · by_cases hb : s = "base.json"
    · subst hb
      exact ⟨_, .tail _ (.head _), by decide, rfl⟩
    · refine absurd ?_ hs
      simp [namedFiles, grownFile, lookup_cons, beq_false_of_ne ha, beq_false_of_ne hb]

theorem walked_scratch {es : List (String × Node)} (htidy : Node.TidyEntries es) :
    naming.walked (scratch es) = (naming.reported es).map (Walk.pathBelow ⟨"/p"⟩) :=
  walked_eq (node_scratch es) htidy

theorem node_script {bytes : ByteArray}
    (htidy : Node.TidyEntries (flat files)) (h : files.lookup "a.js" = some bytes) :
    (scratch (flat files)).node ⟨"/p/a.js"⟩ = .ok (.file bytes) := by
  have hfile : (dir (flat files)).fileAt? ["a.js"] = some bytes := (fileAt?_flat files _).trans h
  have hnode : (scratch (flat files)).node (Walk.pathBelow naming.baseDir ["a.js"]) = _ :=
    node_reported (node_scratch (flat files)) htidy (by simp) hfile
  rwa [show naming.baseDir = ⟨"/p"⟩ from rfl] at hnode

theorem updated_matches_iff_created :
    (∃ o, (updated naming scriptCreated (scratch (flat oneScriptFile)) (scratch (flat twoScriptFiles))).1 = .ok o) ∧
    (updated naming scriptCreated (scratch (flat oneScriptFile))
        (scratch (flat twoScriptFiles))).2.1.sources?.map (·.files.set?) =
      (discover (naming.withEvents scriptCreated) standard
        (scratch (flat twoScriptFiles))).2.1.sources?.map (·.files.set?) ∧
    (updated naming scriptCreated (scratch (flat oneScriptFile))
        (scratch (flat twoScriptFiles))).2.1.tsconfigs?.map (·.view) =
      (discover (naming.withEvents scriptCreated) standard
        (scratch (flat twoScriptFiles))).2.1.tsconfigs?.map (·.view) := by
  obtain ⟨outcome, hok⟩ := ok_scratch (flat oneScriptFile)
  obtain ⟨hdone, -, -, hsources, htsconfigs⟩ := updated_matches_iff edit_created hok
  refine ⟨hdone, hsources.mpr (.inr (.inl (by decide +kernel))), htsconfigs.mpr (.inr ?_)⟩
  rw [walked_scratch edit_created.tidy, walked_scratch edit_created.tidy']
  decide +kernel

theorem grown_script_stays : (∃ outcome, (discover naming standard (scratch (flat namedFiles))).1 = .ok outcome) ∧
    Edit naming grownAndDeleted (scratch (flat namedFiles)) (scratch (flat grownFile)) (flat namedFiles)
      (flat grownFile) ∧
    (updated naming grownAndDeleted (scratch (flat namedFiles))
        (scratch (flat grownFile))).2.1.sources?.map (·.files.set?) ≠
      (discover (naming.withEvents grownAndDeleted) standard
        (scratch (flat grownFile))).2.1.sources?.map (·.files.set?) ∧
    (updated naming grownAndDeleted (scratch (flat namedFiles))
        (scratch (flat grownFile))).2.1.tsconfigs?.map (·.view) ≠
      (discover (naming.withEvents grownAndDeleted) standard
        (scratch (flat grownFile))).2.1.tsconfigs?.map (·.view) := by
  have hbase (es : List (String × Node)) : (scratch es).isDir naming.baseDir = true :=
    isDir_of_node (node_scratch es)
  have hok (ctx : DiscoveryContext) (es : List (String × Node)) : (scan ctx (scratch es)).1 = .ok () :=
    (scan_spec ctx (scratch es)).2 (spare_scratch es).writes
  obtain ⟨-, hsources, htsconfigs⟩ := shown_updated grownAndDeleted (hbase (flat namedFiles))
    (hbase (flat grownFile)) (hok _ _) rfl
  obtain ⟨-, -, hsources', htsconfigs'⟩ := edit_grown.discover (hok _ _) rfl
  refine ⟨ok_scratch _, edit_grown, fun he ↦ ?_, fun he ↦ ?_⟩
  · obtain hfiles | hchanged | hsides := hsources'.mp (hsources.mp he)
    · cases hfiles
    · revert hchanged
      decide +kernel
    · -- the size of the script was not above the limit and is now
      have hmem : ⟨"/p/a.js"⟩ ∈ naming.walked (scratch (flat grownFile)) := by
        rw [walked_scratch edit_grown.tidy']
        decide +kernel
      have hsizes := hsides ⟨"/p/a.js"⟩ hmem (by decide +kernel) .empty "1".toUTF8
        (node_script edit_grown.tidy rfl) (node_script edit_grown.tidy' rfl)
      revert hsizes
      decide +kernel
  · obtain hdirty | hnamed := htsconfigs'.mp (htsconfigs.mp he)
    · have hview := ((scan_spec naming (scratch (flat namedFiles))).1 (hok _ _)).1
      have horigin : (scan naming (scratch (flat namedFiles))).2.1.origin = some .property := by
        refine (congrArg Prod.fst hview).trans ?_
        rw [walked_scratch edit_grown.tidy]
        decide +kernel
      rw [isDirty, horigin] at hdirty
      revert hdirty
      decide +kernel
    · rw [walked_scratch edit_grown.tidy, walked_scratch edit_grown.tidy'] at hnamed
      revert hnamed
      decide +kernel

end StoreSet

end AnalysisServer
