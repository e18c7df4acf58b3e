import AnalysisServer.Proofs.Json.Codecs
import AnalysisServer.Proofs.Project.RootFiles
import AnalysisServer.Proofs.Project.WrittenFiles
import Mathlib.Data.Finset.Max

namespace AnalysisServer

open List

open AnalysisServer.Path (IsName ofNames resolveDots)
open Walk (pathBelow)

theorem map_of_mapM_ok {ε α β γ : Type} {f : α → Except ε β} {g : β → γ} {k : α → γ}
    (hf : ∀ a b, f a = .ok b → g b = k a) {as : List α} {bs : List β} (h : as.mapM f = .ok bs) :
    bs.map g = as.map k := by
  induction as generalizing bs with
  | nil =>
    cases h
    rfl
  | cons a as ih =>
    rw [mapM_cons] at h
    obtain ⟨b, hb, hrest⟩ := bind_eq_ok h
    obtain ⟨bs', hbs', hcons⟩ := bind_eq_ok hrest
    cases hcons
    rw [map_cons, map_cons, hf a b hb, ih hbs']

namespace Path

variable {base : Path} {names names' : Location}

theorem resolveDots_append (front : List String) (components : List Component) (names : List String) :
    resolveDots front (components ++ names.map .name) = resolveDots front components ++ names := by
  induction components generalizing front with
  | nil => simp [resolveDots, resolveDots_names]
  | cons c rest ih => cases c <;> simp [resolveDots, ih]

theorem normalize_of_isAbsolute (h : base.isAbsolute = true) :
    base.normalize = ofNames true (resolveDots [] base.components) := by
  rw [normalize, h]

variable {s : String} {p : Path}

theorem isName_of_mem_normal (h : s ∈ resolveDots [] base.components) : IsName s := by
  obtain h | h := isName_of_mem_resolveDots h
  · cases h
  · exact isName_of_mem_components h

theorem normalize_pathBelow (habs : base.isAbsolute = true) (hnames : ∀ s ∈ names, IsName s) :
    (pathBelow base names).normalize = ofNames true (resolveDots [] base.components ++ names) := by
  obtain ⟨-, habsolute, -, hcomponents, -⟩ := below_pathBelow (isEmpty_of_isAbsolute habs) hnames
  rw [normalize, habsolute, habs, hcomponents, resolveDots_append]

theorem ofNames_injOn (hnames : ∀ s ∈ names, IsName s) (hnames' : ∀ s ∈ names', IsName s)
    (h : ofNames true names = ofNames true names') : names = names' := by
  have hcomponents := congrArg components h
  rw [components_ofNames hnames, components_ofNames hnames'] at hcomponents
  exact map_injective_iff.mpr (fun _ _ ↦ Component.name.inj) (append_cancel_left hcomponents)

end Path

section Listings

variable {disk : Disk} {classifier : Classifier} {t dir : Path} {p : Program} {ps fs : List Path}
  {fields : Json.Fields}

theorem Manifest.rootFiles_listing (hps : ∀ q ∈ ps, q.isAbsolute = true)
    (hfields : tsConfigObject (some (ps.map Path.text)) none = .obj fields)
    (h : resolveRootFiles disk classifier dir fields = .ok fs) : fs = Path.sorted (ps.map Path.normalize) := by
  have hfiles : stringList fields "files" = .ok (some (ps.map Path.text)) := by
    have hlookup : fields.lookup "files" = some (.arr ((ps.map Path.text).map Json.str)) := by
      cases hfields
      rfl
    have hread : ((ps.map Path.text).map Json.str).mapM Json.str? = some (ps.map Path.text) :=
      Json.mapM_map_eq_some_iff.mpr fun _ _ ↦ rfl
    simp only [stringList, hlookup, hread]
  have hinclude : stringList fields "include" = .ok none := by
    cases hfields
    rfl
  have hexclude : stringList fields "exclude" = .ok none := by
    cases hfields
    rfl
  have hlisted (file : String) (q : Path) (hq : listedFile disk dir file = .ok q) :
      q = (dir.join ⟨file⟩).normalize := by
    simp only [listedFile] at hq
    split at hq <;> cases hq
    rfl
  unfold resolveRootFiles at h
  rw [hfiles, hinclude, hexclude] at h
  obtain ⟨listed, hmap, hsorted⟩ := bind_eq_ok (x := (ps.map Path.text).mapM (listedFile disk dir)) h
  have hnormal : listed = ps.map Path.normalize := by
    have hall := map_of_mapM_ok (g := id) hlisted hmap
    rw [map_id, map_map] at hall
    rw [hall]
    refine map_congr_left fun q hq ↦ ?_
    have hjoin : dir.join ⟨q.text⟩ = q := if_pos (by rw [show Path.isAbsolute ⟨q.text⟩ = true from hps q hq]; rfl)
    rw [Function.comp_apply, hjoin]
  cases hsorted
  rw [hnormal]
  exact congrArg Path.sorted (append_nil _)

variable [Digest]

theorem Program.contains_iff (h : ofFile disk classifier t = .ok p) (file : Path) :
    p.contains file = true ↔ ∃ q ∈ p.manifest.rootFiles, q.components = file.components := by
  obtain ⟨manifest, -, hbuild⟩ := bind_eq_ok h
  obtain ⟨hashes, hhashes, hp⟩ := bind_eq_ok hbuild
  cases hp
  have hkeys : hashes.map Prod.fst = manifest.rootFiles := by
    have hone (q : Path) (e : Path × String) (he : hashFile disk q = .ok e) : e.1 = q := by
      unfold hashFile at he
      split at he <;> cases he
      rfl
    rw [map_of_mapM_ok (k := fun q ↦ q) hone hhashes, map_id']
  simp only [contains, PathMap.contains, any_eq_true, Path.same_iff]
  constructor
  · rintro ⟨e, he, hsame⟩
    have hmem : e.1 ∈ hashes.map Prod.fst := PathMap.keys_ofList_subset (mem_map_of_mem he)
    exact ⟨e.1, hkeys ▸ hmem, hsame⟩
  · rintro ⟨q, hq, hsame⟩
    obtain ⟨q', hq', hsame'⟩ := PathMap.exists_mem_keys_ofList (show q ∈ hashes.map Prod.fst from hkeys ▸ hq)
    obtain ⟨e, he, rfl⟩ := mem_map.mp hq'
    exact ⟨e, he, hsame'.trans hsame⟩

theorem Program.contains_listing_iff (hps : ∀ q ∈ ps, q.isAbsolute = true)
    (hfields : tsConfigObject (some (ps.map Path.text)) none = .obj fields)
    (hread : Manifest.IsReadAs disk t fields) (hp : ofFile disk classifier t = .ok p) {file : Path}
    (hfile : file.normalize = file) : p.contains file = true ↔ ∃ q ∈ ps, q.normalize = file := by
  obtain ⟨c, -, hread⟩ := hread
  have hroots : p.manifest.rootFiles = Path.sorted (ps.map Path.normalize) := by
    have hsaid := (hread classifier).1
    rw [Manifest.manifest_of_ofFile hp, Manifest.told] at hsaid
    rcases hresolve : Manifest.resolveRootFiles disk classifier (c.parent?.getD ⟨""⟩) fields with e | fs <;>
      rw [hresolve] at hsaid
    · cases hsaid
    · rw [← Manifest.rootFiles_listing hps hfields hresolve]
      exact (Prod.mk.inj (Except.ok.inj hsaid)).1
  rw [contains_iff hp, hroots]
  constructor
  · rintro ⟨q, hq, hsame⟩
    obtain ⟨q', hq', rfl⟩ := mem_map.mp (Path.mem_of_mem_sorted hq)
    exact ⟨q', hq', Path.eq_of_components (Path.normalize_normalize q') hfile hsame⟩
  · rintro ⟨q, hq, rfl⟩
    exact Path.exists_mem_sorted (mem_map_of_mem hq)

end Listings

def DiscoveryContext.scripts (ctx : DiscoveryContext) (d : Disk) : List Path :=
  (ctx.walked d).filter ctx.config.classifier.isScript

variable {d : Disk}

theorem TsConfigStore.scan_fallback [Digest] {ctx : DiscoveryContext} (htemp : d.TakesTemp)
    (hide : ctx.config.sonarlint = false) (horigin : (scan ctx d).2.1.origin = some .fallback) :
    ∃ t fields dir s bytes, (scan ctx d).1 = .ok () ∧ (scan ctx d).2.1.paths = [t] ∧
      tsConfigObject (some ((ctx.scripts d).map Path.text)) none = .obj fields ∧
      Manifest.IsReadAs (scan ctx d).2.2 t fields ∧ d.Gains dir s bytes (scan ctx d).2.2 := by
  have hobject : fallbackObject? ctx (fed ctx (ctx.walked d) {}) =
      some (tsConfigObject (some ((ctx.scripts d).map Path.text)) none) := by
    rw [fallbackObject?, hide, finds_fed]
    simp [DiscoveryContext.scripts]
  obtain ⟨fields, t, store, d', hfields, hwrite, hpaths, hread⟩ := isReadAs_writeFallback htemp hobject
  obtain ⟨dir, s, bytes, hgains⟩ : ∃ dir s bytes, d.Gains dir s bytes d' := by
    obtain ⟨-, ⟨hnone, -⟩ | ⟨bytes, path, htemporary, -⟩⟩ := writeFallback_cases hwrite
    · rw [hnone] at hpaths
      cases hpaths
    · obtain ⟨dir, d'', -, hwritten, hgains⟩ := htemp.exists_gains bytes
      rw [htemporary] at hwritten
      cases hwritten
      exact ⟨dir, _, bytes, hgains⟩
  refine ⟨t, fields, dir, s, bytes, ?_⟩
  unfold scan postProcess at horigin ⊢
  split_ifs at horigin ⊢ with hnamed husual
  · cases horigin
  · cases horigin
  · rw [hwrite]
    exact ⟨rfl, hpaths, hfields, hread, hgains⟩

theorem Disk.Gains.locate_of_get? {d d' : Disk} {dir loc : Location} {bytes : ByteArray}
    {n : Node} (h : d.Gains dir s bytes d') (hp : d.locate p = .ok loc) (hn : d.root.get? loc = some n) :
    d'.locate p = .ok loc := by
  refine locate_sameBut h.sameBut h.isFileOrNone h.current hp ?_
  rintro rfl
  rw [h.free] at hn
  cases hn

theorem eq_of_moved {front here : Location} (all : List Location) (hne : all ≠ [])
    (h : ∀ names ∈ all, ∃ names' ∈ all, front ++ names' = here ++ names) : front = here := by
  have hnonempty : all.toFinset.Nonempty := toFinset_nonempty_iff all |>.mpr hne
  obtain ⟨long, hlong, hlongest⟩ := all.toFinset.exists_max_image List.length hnonempty
  obtain ⟨short, hshort, hshortest⟩ := all.toFinset.exists_min_image List.length hnonempty
  obtain ⟨long', hlong', heq⟩ := h long (mem_toFinset.mp hlong)
  obtain ⟨short', hshort', heq'⟩ := h short (mem_toFinset.mp hshort)
  have hle := hlongest long' (mem_toFinset.mpr hlong')
  have hge := hshortest short' (mem_toFinset.mpr hshort')
  have hlength := congrArg List.length heq
  have hlength' := congrArg List.length heq'
  rw [length_append, length_append] at hlength hlength'
  exact append_inj_left heq (by omega)

structure Fallback [Digest] (ctx : DiscoveryContext) (d : Disk) (t : Path) (d' : Disk) : Prop where
  absolute : ctx.baseDir.isAbsolute = true
  tidy : d.root.Tidy
  base : d.isDir ctx.baseDir = true
  gains : ∃ dir s bytes, d.Gains dir s bytes d'
  read : ∃ fields, tsConfigObject (some ((ctx.scripts d).map Path.text)) none = .obj fields ∧
    Manifest.IsReadAs d' t fields

theorem Session.resolved_of_locate {loc : Location} (h : d.locate p = .ok loc) : resolved d p = ofNames true loc := by
  simp [resolved, Disk.canonical?, Disk.canonical, h, Except.map, Except.toOption]

namespace Fallback

structure Base (ctx : DiscoveryContext) (d : Disk) (here : Location) (es : List (String × Node)) : Prop where
  locate : d.locate ctx.baseDir = .ok here
  get? : d.root.get? here = some (.dir es)
  node : d.node ctx.baseDir = .ok (.dir es)
  tidy : Node.TidyEntries es
  names : ∀ s ∈ here, IsName s

variable {ctx : DiscoveryContext} {d d' : Disk} {here names : Location} {es : List (String × Node)}

theorem Base.isName (hbase : Base ctx d here es) (hnames : names ∈ ctx.reported es) : ∀ s ∈ names, IsName s := by
  obtain ⟨-, content, hfile⟩ := fileAt?_of_mem_reported hbase.tidy hnames
  exact Node.isName_of_tidy (n := .dir es) hbase.tidy (Node.get?_of_fileAt? hfile)

theorem Base.isName_append (hbase : Base ctx d here es) (hnames : names ∈ ctx.reported es) :
    ∀ s ∈ here ++ names, IsName s :=
  fun s hs ↦ (mem_append.mp hs).elim (hbase.names s) (hbase.isName hnames s)

theorem Base.mem_scripts (hbase : Base ctx d here es) {q : Path} : q ∈ ctx.scripts d ↔
    ∃ names ∈ ctx.reported es, pathBelow ctx.baseDir names = q ∧ ctx.config.classifier.isScript q = true := by
  rw [DiscoveryContext.scripts, walked_eq hbase.node hbase.tidy, mem_filter, mem_map]
  constructor
  · rintro ⟨⟨names, hnames, hq⟩, hscript⟩
    exact ⟨names, hnames, hq, hscript⟩
  · rintro ⟨names, hnames, hq, hscript⟩
    exact ⟨⟨names, hnames, hq⟩, hscript⟩

section Records

variable [Digest] {t : Path} {p : Program} {classifier : Classifier} {r : FileRecord}
  (h : Fallback ctx d t d') {path : Path}

include h

theorem exists_base : ∃ here es, Base ctx d here es := by
  obtain ⟨here, es, hlocate, hget⟩ := Disk.exists_dir_of_isDir h.base
  have hnode : d.node ctx.baseDir = .ok (.dir es) := by
    simp [Disk.node, hlocate, hget, bind, Except.bind]
  exact ⟨here, es, hlocate, hget, hnode, Disk.tidy_of_node h.tidy hnode, Node.isName_of_tidy h.tidy hget⟩

theorem resolved_record (hbase : Base ctx d here es) (hnames : names ∈ ctx.reported es)
    (hr : SourceStore.record? ctx d (pathBelow ctx.baseDir names) = some r) :
    Session.resolved d' r.path = ofNames true (here ++ names) := by
  obtain ⟨dir, s, bytes, hgains⟩ := h.gains
  obtain ⟨hne, content, hfile⟩ := fileAt?_of_mem_reported hbase.tidy hnames
  have hget := Node.get?_of_fileAt? hfile
  -- the record was made because its path leads to a file
  have hfault : Disk.fault? ctx.baseDir names = none := by
    have hread := node_reported hbase.node hbase.tidy hne hfile
    cases hf : Disk.fault? ctx.baseDir names with
    | none => rfl
    | some e =>
      rw [hf] at hread
      unfold SourceStore.record? at hr
      rw [hread] at hr
      split at hr <;> cases hr
  have hbelow : d.locate (pathBelow ctx.baseDir names) = .ok (here ++ names) := by
    rw [Disk.locate_pathBelow hbase.locate hbase.get? (hbase.isName hnames) hne hget nofun, hfault]
  have hplace : d.root.get? (here ++ names) = some (.file content) := by
    rwa [Node.get?_append, hbase.get?]
  rw [(SourceStore.path_of_record? hr).1]
  exact Session.resolved_of_locate (hgains.locate_of_get? hbelow hplace)

theorem contains_iff (hp : Program.ofFile d' classifier t = .ok p) (hpath : path ∈ ctx.walked d)
    (hr : SourceStore.record? ctx d path = some r) : p.contains (Session.resolved d' r.path) = true ↔
      ∃ q ∈ ctx.scripts d, q.normalize = Session.resolved d' r.path := by
  obtain ⟨here, es, hbase⟩ := h.exists_base
  obtain ⟨fields, hfields, hread⟩ := h.read
  rw [walked_eq hbase.node hbase.tidy] at hpath
  obtain ⟨names, hnames, rfl⟩ := mem_map.mp hpath
  refine Program.contains_listing_iff (fun q hq ↦ ?_) hfields hread hp ?_
  · exact isAbsolute_of_mem_walked h.absolute (mem_filter.mp hq).1
  · rw [h.resolved_record hbase hnames hr]
    exact Path.normalize_ofNames (hbase.isName_append hnames)

theorem contains_of_plain (hplain : ctx.baseDir.normalize = Session.resolved d ctx.baseDir)
    (hp : Program.ofFile d' classifier t = .ok p) (hpath : path ∈ ctx.scripts d)
    (hr : SourceStore.record? ctx d path = some r) : p.contains (Session.resolved d' r.path) = true := by
  rw [h.contains_iff hp (mem_filter.mp hpath).1 hr]
  obtain ⟨here, es, hbase⟩ := h.exists_base
  obtain ⟨names, hnames, rfl, -⟩ := hbase.mem_scripts.mp hpath
  have hfront : resolveDots [] ctx.baseDir.components = here := by
    rw [Path.normalize_of_isAbsolute h.absolute, Session.resolved_of_locate hbase.locate] at hplain
    exact Path.ofNames_injOn (fun _ ↦ Path.isName_of_mem_normal) hbase.names hplain
  refine ⟨_, hpath, ?_⟩
  rw [Path.normalize_pathBelow h.absolute (hbase.isName hnames), hfront, h.resolved_record hbase hnames hr]

theorem plain_of_contains (hp : Program.ofFile d' classifier t = .ok p) (hne : ctx.scripts d ≠ [])
    (hall : ∀ path ∈ ctx.scripts d, ∃ r, SourceStore.record? ctx d path = some r ∧
      p.contains (Session.resolved d' r.path) = true) :
    ctx.baseDir.normalize = Session.resolved d ctx.baseDir := by
  obtain ⟨here, es, hbase⟩ := h.exists_base
  have hmoved : resolveDots [] ctx.baseDir.components = here := by
    refine eq_of_moved ((ctx.reported es).filter fun names ↦
      ctx.config.classifier.isScript (pathBelow ctx.baseDir names)) ?_ fun names hmem ↦ ?_
    · obtain ⟨path, hpath⟩ := exists_mem_of_ne_nil _ hne
      obtain ⟨names, hnames, rfl, hscript⟩ := hbase.mem_scripts.mp hpath
      exact ne_nil_of_mem (mem_filter.mpr ⟨hnames, hscript⟩)
    · obtain ⟨hnames, hscript⟩ := mem_filter.mp hmem
      have hpath : pathBelow ctx.baseDir names ∈ ctx.scripts d := hbase.mem_scripts.mpr ⟨names, hnames, rfl, hscript⟩
      obtain ⟨r, hr, hcontains⟩ := hall _ hpath
      obtain ⟨q, hq, hnormal⟩ := (h.contains_iff hp (mem_filter.mp hpath).1 hr).mp hcontains
      obtain ⟨names', hnames', rfl, hscript'⟩ := hbase.mem_scripts.mp hq
      rw [h.resolved_record hbase hnames hr, Path.normalize_pathBelow h.absolute (hbase.isName hnames')] at hnormal
      refine ⟨names', mem_filter.mpr ⟨hnames', hscript'⟩, Path.ofNames_injOn (fun s hs ↦ ?_)
        (hbase.isName_append hnames) hnormal⟩
      exact (mem_append.mp hs).elim Path.isName_of_mem_normal (hbase.isName hnames' s)
  rw [Path.normalize_of_isAbsolute h.absolute, hmoved, Session.resolved_of_locate hbase.locate]

end Records

end Fallback

end AnalysisServer
