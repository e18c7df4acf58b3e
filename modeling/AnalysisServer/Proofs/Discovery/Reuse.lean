import AnalysisServer.Proofs.Discovery.KeyTexts
import AnalysisServer.Proofs.Discovery.Rounds
import AnalysisServer.Proofs.Disk.Following
import AnalysisServer.Proofs.Project.Building
import Mathlib.Data.List.Basic

namespace AnalysisServer

open List

open Disk (isDir tempName)

open TsConfigStore (isInitialized postProcess scan setup)

/-- At and below a directory a disk looks as another one does, with and without its temporary files. -/
structure Disk.Still (disk d : Disk) (base : Path) : Prop where
  temp : d.temp = disk.temp
  same : ∀ names, d.node (Walk.pathBelow base names) = disk.node (Walk.pathBelow base names)
  without : ∀ n names, (d.removeFile (disk.temp.joinName (tempName n))).node
    (Walk.pathBelow base names) = disk.node (Walk.pathBelow base names)

section Scanning

variable {ctx ctx' : DiscoveryContext} {disk d : Disk} {paths : List Path}

variable {path : Path}

theorem mem_walked (h : path ∈ ctx.walked disk) : ∃ names, path = Walk.pathBelow ctx.baseDir names := by
  obtain ⟨vs, hvs⟩ := Walk.exists_visits disk ctx.baseDir ctx.config.exclusionPatterns
  rw [DiscoveryContext.walked, hvs, filterMap_filterMap] at h
  obtain ⟨visit, -, hpath⟩ := mem_filterMap.mp h
  cases visit with
  | file names =>
    cases hpath
    exact ⟨names, rfl⟩
  | directory _ _ | excluded _ => cases hpath

theorem walked_congr (h : ∀ names, d.node (Walk.pathBelow ctx.baseDir names) =
    disk.node (Walk.pathBelow ctx.baseDir names)) : ctx.walked d = ctx.walked disk := by
  rw [DiscoveryContext.walked, DiscoveryContext.walked, Walk.walk_congr h]

theorem SourceStore.fed_congr (h : ∀ path ∈ paths, d.node path = disk.node path) (s : SourceStore) :
    s.fed ctx d paths = s.fed ctx disk paths :=
  foldl_ext _ _ s fun s path hpath ↦ by rw [processFile, processFile, h path hpath]

theorem PackageStore.fed_congr (h : ∀ path ∈ paths, d.node path = disk.node path) (s : PackageStore) :
    s.fed d paths = s.fed disk paths :=
  foldl_ext _ _ s fun s path hpath ↦ by
    rw [processFile, processFile, Package.read, Package.read, Disk.readText, Disk.readText, Disk.read, Disk.read,
      h path hpath]

variable [Digest]

theorem scan_congr (h : ∀ names, d.node (Walk.pathBelow ctx.baseDir names) =
    disk.node (Walk.pathBelow ctx.baseDir names)) :
    SourceStore.scan ctx d = .scan ctx disk ∧ PackageStore.scan ctx d = .scan ctx disk := by
  have hwalked : ctx.walked d = ctx.walked disk := walked_congr h
  have hnodes : ∀ path ∈ ctx.walked disk, d.node path = disk.node path := by
    intro path hpath
    obtain ⟨names, rfl⟩ := mem_walked hpath
    exact h names
  constructor
  · rw [SourceStore.scan, SourceStore.scan, hwalked, SourceStore.fed_congr hnodes]
  · rw [PackageStore.scan, PackageStore.scan, hwalked, PackageStore.fed_congr hnodes]

theorem DiscoveryContext.Agrees.scan (h : ctx.Agrees ctx')
    (htext : ctx.config.discoveryText ctx.baseDir = ctx'.config.discoveryText ctx'.baseDir) (disk : Disk) :
    SourceStore.scan ctx disk = .scan ctx' disk ∧ PackageStore.scan ctx disk = .scan ctx' disk := by
  have hwalked : ctx.walked disk = ctx'.walked disk := by
    rw [DiscoveryContext.walked, DiscoveryContext.walked, h.base, h.exclusions]
  have hstep (s : SourceStore) (path : Path) : s.processFile ctx disk path = s.processFile ctx' disk path := by
    simp only [SourceStore.processFile, h.classifier, h.limit, h.fileType, h.base]
  have hkey : ctx.config.discoveryKey ctx'.baseDir = ctx'.config.discoveryKey ctx'.baseDir := by
    rw [Configuration.discoveryKey, Configuration.discoveryKey, ← htext, h.base]
  constructor
  · simp only [SourceStore.scan, SourceStore.fed, SourceStore.postProcess, hwalked, hstep, h.base, hkey]
  · simp only [PackageStore.scan, PackageStore.setup, PackageStore.postProcess, hwalked, h.base, hkey]

end Scanning

section Fallbacks

variable [Digest] (ctx : DiscoveryContext)

omit [Digest] in
theorem temp_removeFile (d : Disk) (p : Path) : (d.removeFile p).temp = d.temp := by
  rw [Disk.removeFile]
  split
  · rfl
  · split <;> rfl

omit [Digest] in
theorem TsConfigStore.fallback_fed (paths : List Path) (s : TsConfigStore) :
    (s.fed ctx paths).fallback = s.fallback := by
  induction paths generalizing s with
  | nil => rfl
  | cons path paths ih => exact ih _

omit [Digest] in
theorem path_writeTemp {d d' : Disk} {bytes : ByteArray}
    (h : d.writeTemp bytes = .ok (path, d')) : path = d.temp.joinName (tempName d.made) := by
  obtain ⟨d'', -, he⟩ := bind_eq_ok h
  exact (Prod.mk.inj (Except.ok.inj he)).1.symm

omit [Digest] in
theorem path_writeTsConfig {d d' : Disk} {tsconfig : Json}
    (h : writeTsConfig d tsconfig = .ok (path, d')) : path = d.temp.joinName (tempName d.made) := by
  unfold writeTsConfig at h
  split at h
  · rename_i r hr
    cases h
    exact path_writeTemp hr
  · cases h

theorem TsConfigStore.fallback_scan (d : Disk) : (scan ctx d).2.1.fallback = none ∨
    ∃ n, (scan ctx d).2.1.fallback = some (d.temp.joinName (tempName n)) := by
  have hnone : (fed ctx (ctx.walked d) {}).fallback = none := fallback_fed ctx _ _
  rw [scan, postProcess]
  split
  · exact .inl hnone
  · split
    · exact .inl hnone
    · cases hw : writeFallback ctx (fed ctx (ctx.walked d) {}) d with
      | error e => exact .inl hnone
      | ok r =>
        rw [writeFallback] at hw
        split at hw
        · cases hw
          exact .inl hnone
        · split at hw
          · cases hw
          · rename_i path d' hwrite
            cases hw
            exact .inr ⟨d.made, congrArg some (path_writeTsConfig hwrite)⟩

end Fallbacks

section Rounds

variable [Digest] {disk d : Disk} {ctx : DiscoveryContext} {x : Stores}
  {contexts : DiscoveryContext → Prop}

/-- Nothing is known but what the walk of the context at hand will tell. -/
structure DiscoveryContext.Quiet (ctx : DiscoveryContext) : Prop where
  events : ctx.config.fsEvents = []
  files : ctx.files = none

structure Stores.Scanned (disk : Disk) (ctx : DiscoveryContext) (x : Stores) : Prop where
  base : disk.isDir ctx.baseDir = true
  sources : x.sources = .scan ctx disk
  packages : x.packages = .scan ctx disk

structure Stores.Kept (disk : Disk) (contexts : DiscoveryContext → Prop) (x : Stores) : Prop where
  content : (x.sources = {} ∧ x.packages = {}) ∨ ∃ c, contexts c ∧ x.Scanned disk c
  fallback : x.tsconfigs.fallback = none ∨ ∃ n, x.tsconfigs.fallback = some (disk.temp.joinName (tempName n))

theorem isInitialized_new (h : ctx.Quiet) : SourceStore.isInitialized ctx {} = (false, {}) ∧
    PackageStore.isInitialized ctx {} = false := by
  simp [SourceStore.isInitialized, PackageStore.isInitialized, h.files, FilesCache.isInitialized]

theorem isInitialized_scan (h : ctx.Quiet) (c : DiscoveryContext) (disk : Disk) :
    SourceStore.isInitialized ctx (.scan c disk) =
      (c.config.discoveryKey c.baseDir == ctx.config.discoveryKey ctx.baseDir, .scan c disk) ∧
    PackageStore.isInitialized ctx (.scan c disk) =
      (c.config.discoveryKey c.baseDir == ctx.config.discoveryKey ctx.baseDir) := by
  simp [SourceStore.isInitialized, PackageStore.isInitialized, SourceStore.changed, PackageStore.changed,
    h.files, h.events, FilesCache.isInitialized, FilesCache.setFiles, SourceStore.scan, PackageStore.scan,
    SourceStore.postProcess, PackageStore.postProcess]

theorem Stores.Kept.walkedDisk {base : Path}
    (h : x.Kept disk contexts) (hstill : disk.Still d base) (ready : Bool) :
    (if ready then d else (x.tsconfigs.setup d).2).temp = disk.temp ∧
    ∀ names, (if ready then d else (x.tsconfigs.setup d).2).node (Walk.pathBelow base names) =
      disk.node (Walk.pathBelow base names) := by
  cases ready with
  | true => exact ⟨hstill.temp, hstill.same⟩
  | false =>
    simp only [Bool.false_eq_true, if_false, setup]
    obtain hnone | ⟨n, hn⟩ := h.fallback
    · rw [hnone]
      exact ⟨hstill.temp, hstill.same⟩
    · rw [hn]
      exact ⟨(temp_removeFile _ _).trans hstill.temp, hstill.without n⟩

theorem Stores.Kept.discover (h : x.Kept disk contexts)
    (hctx : contexts ctx) (hquiet : ctx.Quiet) (hstill : disk.Still d ctx.baseDir) :
    (x.discover ctx d).2.1.Kept disk contexts ∧ ((x.discover ctx d).1 = .ok () →
      ∃ c, contexts c ∧ c.config.discoveryKey c.baseDir = ctx.config.discoveryKey ctx.baseDir ∧
        (x.discover ctx d).2.1.Scanned disk c) := by
  have hbase : d.isDir ctx.baseDir = disk.isDir ctx.baseDir := by
    rw [isDir, isDir, show d.node ctx.baseDir = disk.node ctx.baseDir from hstill.same []]
  -- sources and packages are ready together, and then found for the same key
  obtain ⟨ready, hs, hp, hready⟩ : ∃ ready, x.sources.isInitialized ctx = (ready, x.sources) ∧
      x.packages.isInitialized ctx = ready ∧ (ready = true → ∃ c, contexts c ∧
        c.config.discoveryKey c.baseDir = ctx.config.discoveryKey ctx.baseDir ∧ x.Scanned disk c) := by
    obtain ⟨hsources, hpackages⟩ | ⟨c, hc, hscanned⟩ := h.content
    · rw [hsources, hpackages]
      exact ⟨false, (isInitialized_new hquiet).1, (isInitialized_new hquiet).2, by simp⟩
    · rw [hscanned.sources, hscanned.packages]
      refine ⟨_, (isInitialized_scan hquiet c disk).1, (isInitialized_scan hquiet c disk).2, fun he ↦ ?_⟩
      exact ⟨c, hc, eq_of_beq he, hscanned⟩
  generalize htready : x.tsconfigs.isInitialized ctx = tready
  obtain ⟨htemp, hnodes⟩ := h.walkedDisk hstill tready
  simp only [Stores.discover, hs, hp, htready]
  split
  · rename_i hall
    simp only [Bool.and_eq_true] at hall
    exact ⟨h, fun _ ↦ hready hall.1.1⟩
  · split
    · exact ⟨h, by simp⟩
    · rename_i hdir
      rw [hbase, Bool.not_eq_true', Bool.not_eq_false] at hdir
      generalize (if tready then d else (x.tsconfigs.setup d).2) = walked at htemp hnodes ⊢
      obtain ⟨hsources, hpackages⟩ := scan_congr hnodes
      have hfallback : (if tready then (.ok (), x.tsconfigs, walked)
          else scan ctx walked).2.1.fallback = none ∨ ∃ n, (if tready then (.ok (), x.tsconfigs, walked)
          else scan ctx walked).2.1.fallback = some (disk.temp.joinName (tempName n)) := by
        cases tready with
        | true => exact h.fallback
        | false => exact htemp ▸ TsConfigStore.fallback_scan ctx walked
      generalize (if tready then (.ok (), x.tsconfigs, walked) else scan ctx walked) = t at hfallback ⊢
      have hscanned : ∃ c, contexts c ∧ c.config.discoveryKey c.baseDir = ctx.config.discoveryKey ctx.baseDir ∧
          Stores.Scanned disk c
            { sources := if ready then x.sources else .scan ctx walked
              packages := if ready then x.packages else .scan ctx walked
              tsconfigs := t.2.1 } := by
        cases ready with
        | true =>
          obtain ⟨c, hc, hkey, hx⟩ := hready rfl
          exact ⟨c, hc, hkey, hx.base, hx.sources, hx.packages⟩
        | false => exact ⟨ctx, hctx, rfl, hdir, hsources, hpackages⟩
      refine ⟨⟨.inr ?_, hfallback⟩, fun _ ↦ hscanned⟩
      obtain ⟨c, hc, -, hx⟩ := hscanned
      exact ⟨c, hc, hx⟩

abbrev Round := DiscoveryContext × Disk

namespace StoreSet

def discovered (rounds : List Round) : StoreSet StandardStore :=
  rounds.foldl (fun set round ↦ (discover round.1 set round.2).2.1) standard

omit [Digest] in
/-- What a set has selected: the files to analyze and those too big for it, and the manifests. -/
def selection (set : StoreSet StandardStore) :
    Option (Option FileSet × List Path) × Option (PathMap Package) :=
  (set.sources?.map fun s ↦ (s.files.set?, s.skipped), set.packages?.map (·.packages))

def Scanned (disk : Disk) (ctx : DiscoveryContext) (set : StoreSet StandardStore) : Prop :=
  ∃ x : Stores, set.stores = x.toList ∧ x.Scanned disk ctx

variable {set : StoreSet StandardStore}

theorem Scanned.selection_eq (h : set.Scanned disk ctx) : set.selection =
      (some ((SourceStore.scan ctx disk).files.set?, (SourceStore.scan ctx disk).skipped),
        some (PackageStore.scan ctx disk).packages) := by
  obtain ⟨x, hx, hscanned⟩ := h
  simp only [selection, sources?, packages?, hx, Stores.toList, List.findSome?_cons, hscanned.sources,
    hscanned.packages, Option.map_some]

theorem scanned_standard (hquiet : ctx.Quiet) (hbase : disk.isDir ctx.baseDir = true) :
    (discover ctx standard disk).2.1.Scanned disk ctx := by
  refine ⟨_, (discover_toList ctx disk {} 0).2.1, ?_⟩
  have ht : isInitialized ctx {} = false := by simp [isInitialized]
  simp only [Stores.discover, (isInitialized_new hquiet).1, (isInitialized_new hquiet).2, ht, hbase]
  exact ⟨hbase, rfl, rfl⟩

theorem exists_kept (contexts : DiscoveryContext → Prop) {rounds : List Round}
    (h : ∀ round ∈ rounds, contexts round.1 ∧ round.1.Quiet ∧ disk.Still round.2 round.1.baseDir) :
    ∃ x : Stores, (discovered rounds).stores = x.toList ∧ x.Kept disk contexts := by
  refine foldlRecOn
    (motive := fun set : StoreSet StandardStore ↦ ∃ x : Stores, set.stores = x.toList ∧ x.Kept disk contexts)
    rounds _ ⟨{}, rfl, .inl ⟨rfl, rfl⟩, .inl rfl⟩ fun set hset round hmem ↦ ?_
  obtain ⟨x, hx, hkept⟩ := hset
  obtain ⟨hctx, hquiet, hstill⟩ := h round hmem
  exact ⟨_, (discover_stores hx round.1 round.2).2.1, (hkept.discover hctx hquiet hstill).1⟩

theorem Scanned.discover {c : DiscoveryContext} (h : set.Scanned disk c)
    (hquiet : ctx.Quiet) (hkey : c.config.discoveryKey c.baseDir = ctx.config.discoveryKey ctx.baseDir)
    (d : Disk) : (discover ctx set d).2.1.Scanned disk c := by
  obtain ⟨x, hx, hscanned⟩ := h
  refine ⟨_, (discover_stores hx ctx d).2.1, ?_⟩
  obtain ⟨hs, hp⟩ := isInitialized_scan hquiet c disk
  rw [hkey, beq_self_eq_true, ← hscanned.sources] at hs
  rw [hkey, beq_self_eq_true, ← hscanned.packages] at hp
  simp only [Stores.discover, hs, hp]
  split
  · exact hscanned
  · split
    · exact hscanned
    · exact ⟨hscanned.base, hscanned.sources, hscanned.packages⟩

end StoreSet

end Rounds

theorem isName_tempName (n : Nat) : Path.IsName (tempName n) := by
  have hfirst : (tempName n).toList.head? = some 't' := by
    simp [tempName]
  have hne {cs} (hcs : cs.head? ≠ some 't') : (tempName n).toList ≠ cs := fun h ↦ hcs (h ▸ hfirst)
  refine ⟨hne nofun, ?_, hne (by decide), hne (by decide)⟩
  simp only [tempName, String.toList_append, String.toList_ofList, mem_append, not_or]
  refine ⟨⟨by decide, fun h ↦ ?_, fun h ↦ ?_⟩, by decide⟩
  · exact absurd (eq_of_mem_replicate h) (by decide)
  · exact absurd (Nat.isDigit_of_mem_toDigits (by decide) (by decide) h) (by decide)

theorem place_tempName {d : Disk} (htemp : d.temp = ⟨"/tmp"⟩) (n : Nat) : d.place (d.temp.joinName (tempName n)) =
      d.locate (.ofNames true ["tmp"]) >>= fun here ↦ .ok (here ++ [tempName n]) := by
  have hnames : ∀ s ∈ ["tmp"] ++ [tempName n], Path.IsName s := by
    simpa using ⟨by decide, isName_tempName n⟩
  rw [htemp, show (⟨"/tmp"⟩ : Path) = .ofNames true ["tmp"] by decide,
    Path.joinName_ofNames (by decide) (isName_tempName n), Disk.place, Path.parent?_ofNames hnames,
    Path.fileName?_ofNames hnames]
  rfl

namespace StoreSet

def oneScript : Disk :=
  { root := .dir [("p", .dir [("a.js", .file "1".toUTF8)])] }

def excluding (exclusions : List String) : DiscoveryContext :=
  { baseDir := ⟨"/p"⟩, config := { sonarlint := true, maxFilesForTypeChecking := 0, exclusions } }

theorem plain_excluding {exclusions : List String}
    (h : ∀ s ∈ exclusions, ',' ∉ s.toList ∧ '\x00' ∉ s.toList) : (excluding exclusions).Plain := by
  have hothers : ∀ l ∈ [(excluding []).config.jsTsExclusions, (excluding []).config.jsSuffixes,
      (excluding []).config.tsSuffixes, (excluding []).config.cssSuffixes, (excluding []).config.tests],
      ∀ s ∈ l, ',' ∉ s.toList ∧ '\x00' ∉ s.toList := by decide
  have hbase : '\x00' ∉ (excluding []).baseDir.text.toList := by decide
  refine ⟨hbase, fun l hl s hs ↦ DiscoveryContext.forall_separator ?_⟩
  obtain rfl | hl := mem_cons.mp hl
  · exact h s hs
  · exact hothers l hl s hs

theorem node_oneScript : oneScript.node ⟨"/p"⟩ = .ok (.dir [("a.js", .file "1".toUTF8)]) := by
  with_unfolding_all rfl

theorem node_oneScript_script : oneScript.node ⟨"/p/a.js"⟩ = .ok (.file "1".toUTF8) := by
  with_unfolding_all rfl

theorem isDir_oneScript (exclusions : List String) : oneScript.isDir (excluding exclusions).baseDir = true := by
  rw [isDir, show (excluding exclusions).baseDir = ⟨"/p"⟩ from rfl, node_oneScript]
  rfl

theorem still_oneScript (exclusions : List String) : oneScript.Still oneScript (excluding exclusions).baseDir := by
  have hgone (n : Nat) : oneScript.removeFile (oneScript.temp.joinName (tempName n)) = oneScript := by
    rw [Disk.removeFile, place_tempName rfl]
    with_unfolding_all rfl
  exact ⟨rfl, fun _ ↦ rfl, fun n _ ↦ by rw [hgone]⟩

theorem ok_excluding [Digest] (exclusions : List String) (set : StoreSet StandardStore) {d : Disk}
    (hset : ∃ x : Stores, set.stores = x.toList)
    (hbase : d.isDir (excluding exclusions).baseDir = true) :
    ∃ outcome, (discover (excluding exclusions) set d).1 = .ok outcome := by
  have hscan (d : Disk) : (scan (excluding exclusions) d).1 = .ok () := by
    rw [scan, postProcess]
    split
    · rfl
    · split <;> rfl
  obtain ⟨x, hx⟩ := hset
  have hok : (x.discover (excluding exclusions) d).1 = .ok () := by
    simp only [Stores.discover, hbase]
    split
    · rfl
    · split
      · contradiction
      · split
        · rfl
        · exact hscan _
  have hres := (discover_stores hx (excluding exclusions) d).1
  rw [hok] at hres
  cases hd : (discover (excluding exclusions) set d).1 with
  | ok outcome => exact ⟨outcome, rfl⟩
  | error e =>
    rw [hd] at hres
    cases hres

theorem walked_joined : (excluding ["a.js,b.js"]).walked oneScript = [⟨"/p/a.js"⟩] := by
  decide +kernel

theorem walked_apart : (excluding ["a.js", "b.js"]).walked oneScript = [] := by
  decide +kernel

/-- While nothing changes below the base directories, a set that was asked for some contexts selects, for the
last of them, what a new set would select for one of them with the same key text; that is the last one if no
list holds a comma or a NUL character. -/
theorem selection_reused [Digest] (disk : Disk) :
    (∀ (rounds : List Round) (last : Round) (outcome : DiscoveryOutcome),
      (∀ round ∈ last :: rounds, round.1.Quiet ∧ disk.Still round.2 round.1.baseDir) →
      (∀ round ∈ last :: rounds, ∀ round' ∈ last :: rounds,
        round.1.config.discoveryKey round.1.baseDir = round'.1.config.discoveryKey round'.1.baseDir →
        round.1.config.discoveryText round.1.baseDir = round'.1.config.discoveryText round'.1.baseDir) →
      (discover last.1 (discovered rounds) last.2).1 = .ok outcome →
      (∃ round ∈ last :: rounds,
        round.1.config.discoveryText round.1.baseDir = last.1.config.discoveryText last.1.baseDir ∧
        disk.isDir round.1.baseDir = true ∧
        (discover last.1 (discovered rounds) last.2).2.1.selection = (discover round.1 standard disk).2.1.selection) ∧
      ((∀ round ∈ last :: rounds, round.1.Plain) → (discover last.1 (discovered rounds) last.2).2.1.selection =
          (discover last.1 standard disk).2.1.selection)) ∧
    ∀ c ctx : DiscoveryContext, c.Quiet → ctx.Quiet →
      c.config.discoveryText c.baseDir = ctx.config.discoveryText ctx.baseDir →
      disk.isDir c.baseDir = true →
      (∀ d : Disk, (discover ctx (discover c standard disk).2.1 d).2.1.selection =
        (discover c standard disk).2.1.selection) ∧
      (c.Plain → ctx.Plain →
        (discover c standard disk).2.1.selection = (discover ctx standard disk).2.1.selection) := by
  -- contexts with one key text select the same if they are plain
  have hplain {c ctx : DiscoveryContext} (hc : c.Quiet) (hctx : ctx.Quiet)
      (htext : c.config.discoveryText c.baseDir = ctx.config.discoveryText ctx.baseDir)
      (hbase : disk.isDir c.baseDir = true) (hp : c.Plain) (hp' : ctx.Plain) :
      (discover c standard disk).2.1.selection = (discover ctx standard disk).2.1.selection := by
    have hagrees := DiscoveryContext.agrees_of_text hp hp' htext
    obtain ⟨x, hx, hscanned⟩ := scanned_standard hc hbase
    obtain ⟨hs, hps⟩ := hagrees.scan htext disk
    have hfresh := scanned_standard hctx (hagrees.base ▸ hbase)
    rw [hfresh.selection_eq]
    exact Scanned.selection_eq
      ⟨x, hx, hagrees.base ▸ hbase, hscanned.sources.trans hs, hscanned.packages.trans hps⟩
  refine ⟨fun rounds last outcome hrounds hinj hok ↦ ?_, fun c ctx hc hctx htext hbase ↦ ?_⟩
  · obtain ⟨x, hx, hkept⟩ := exists_kept (fun c ↦ ∃ round ∈ last :: rounds, round.1 = c)
      fun round hround ↦ ⟨⟨round, mem_cons_of_mem _ hround, rfl⟩, hrounds round (mem_cons_of_mem _ hround)⟩
    obtain ⟨hquiet, hstill⟩ := hrounds last mem_cons_self
    obtain ⟨hres, hstores, -⟩ := discover_stores hx last.1 last.2
    rw [hok] at hres
    obtain ⟨c, ⟨round, hround, rfl⟩, hkey, hscanned⟩ :=
      (hkept.discover ⟨last, mem_cons_self, rfl⟩ hquiet hstill).2 hres.symm
    have htext := hinj round hround last mem_cons_self hkey
    have hfresh := scanned_standard (hrounds round hround).1 hscanned.base
    have hselection := (Scanned.selection_eq ⟨_, hstores, hscanned⟩).trans hfresh.selection_eq.symm
    refine ⟨⟨round, hround, htext, hscanned.base, hselection⟩, fun hp ↦ hselection.trans ?_⟩
    exact hplain (hrounds round hround).1 hquiet htext hscanned.base (hp round hround)
      (hp last mem_cons_self)
  · refine ⟨fun d ↦ ?_, hplain hc hctx htext hbase⟩
    have hscanned := scanned_standard hc hbase
    rw [(hscanned.discover hctx (congrArg fingerprintText htext) d).selection_eq, hscanned.selection_eq]

theorem selection_reused_excluding :
    letI : Digest := sizeDigest
    ∃ outcome, (discover (excluding []) (discovered [(excluding ["a.js"], oneScript)]) oneScript).1 = .ok outcome ∧
      (discover (excluding []) (discovered [(excluding ["a.js"], oneScript)]) oneScript).2.1.selection =
        (discover (excluding []) standard oneScript).2.1.selection := by
  let _ : Digest := sizeDigest
  have hrounds : ∀ round ∈ [(excluding [], oneScript), (excluding ["a.js"], oneScript)],
      round.1.Quiet ∧ oneScript.Still round.2 round.1.baseDir := by
    simpa using ⟨⟨⟨rfl, rfl⟩, still_oneScript _⟩, ⟨rfl, rfl⟩, still_oneScript _⟩
  have hplain : ∀ round ∈ [(excluding [], oneScript), (excluding ["a.js"], oneScript)], round.1.Plain := by
    simpa using ⟨plain_excluding (by decide), plain_excluding (by decide)⟩
  have hkeys : (excluding ["a.js"]).config.discoveryKey ⟨"/p"⟩ ≠ (excluding []).config.discoveryKey ⟨"/p"⟩ := by
    decide +kernel
  obtain ⟨outcome, hok⟩ := ok_excluding [] (discovered [(excluding ["a.js"], oneScript)])
    ⟨_, (discover_toList (excluding ["a.js"]) oneScript {} 0).2.1⟩ (isDir_oneScript [])
  refine ⟨outcome, hok, ((selection_reused oneScript).1 _ (excluding [], oneScript) outcome hrounds ?_ hok).2 hplain⟩
  simpa using ⟨fun h ↦ absurd h.symm hkeys, fun h ↦ absurd h hkeys⟩

/-- Two exclusions that are joined by a comma exclude nothing; when they stand apart afterwards, what they
exclude stays selected. -/
theorem excluded_script_stays : (∃ outcome, (discover (excluding ["a.js", "b.js"])
      (discover (excluding ["a.js,b.js"]) standard oneScript).2.1 oneScript).1 = .ok outcome) ∧
    (discover (excluding ["a.js", "b.js"])
      (discover (excluding ["a.js,b.js"]) standard oneScript).2.1 oneScript).2.1.selection ≠
      (discover (excluding ["a.js", "b.js"]) standard oneScript).2.1.selection := by
  have hquiet (exclusions : List String) : (excluding exclusions).Quiet := ⟨rfl, rfl⟩
  have hjoined := scanned_standard (hquiet ["a.js,b.js"]) (isDir_oneScript _)
  have hapart := scanned_standard (hquiet ["a.js", "b.js"]) (isDir_oneScript _)
  have hkey : (excluding ["a.js,b.js"]).config.discoveryKey (excluding ["a.js,b.js"]).baseDir =
      (excluding ["a.js", "b.js"]).config.discoveryKey (excluding ["a.js", "b.js"]).baseDir :=
    congrArg fingerprintText (by decide +kernel)
  constructor
  · obtain ⟨x, hx, -⟩ := hjoined
    exact ok_excluding _ _ ⟨x, hx⟩ (isDir_oneScript _)
  · rw [(hjoined.discover (hquiet _) hkey oneScript).selection_eq, hapart.selection_eq]
    intro he
    have hsets := congrArg (fun s ↦ s.1.map fun f ↦ f.1.map fun set ↦ set.entries.length) he
    have hone : SourceStore.processFile (excluding ["a.js,b.js"]) oneScript ⟨"/p/a.js"⟩ {} =
        { staged := [⟨⟨"/p/a.js"⟩, .js, .main, none⟩] } := by
      have hlanguage : (excluding ["a.js,b.js"]).config.classifier.classify ⟨"/p/a.js"⟩ none = some .js := by
        decide +kernel
      have hsize : ¬"1".toUTF8.size > (excluding ["a.js,b.js"]).config.maxFileBytes := by decide +kernel
      have htype : (excluding ["a.js,b.js"]).config.fileTypeOf ⟨"/p/a.js"⟩
          (excluding ["a.js,b.js"]).baseDir = .main := by
        decide +kernel
      simp only [SourceStore.processFile, hlanguage, node_oneScript_script, hsize, htype, if_false]
    simp only [SourceStore.scan, SourceStore.fed, walked_joined, walked_apart, foldl_cons, foldl_nil, hone] at hsets
    revert hsets
    decide

end StoreSet

end AnalysisServer
