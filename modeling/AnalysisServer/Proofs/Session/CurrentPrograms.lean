import AnalysisServer.Proofs.Disk.Linkless
import AnalysisServer.Proofs.Project.KeySets
import AnalysisServer.Proofs.Session.Visits
import Mathlib.Data.List.Perm.Subperm

namespace AnalysisServer

open List

/-- A request that names no project file, and tells the base directory of a project in full. -/
def Request.Frugal : Request → Prop
  | .analyzeProject input => ∀ dir, input.configuration.baseDir = some dir → dir.isAbsolute = true
  | .analyzeJsTs input => input.tsConfigs = []
  | .createProgram _ => False
  | _ => True

/-- A disk without links that has a place for temporary files. -/
structure Disk.Direct (d : Disk) : Prop where
  linkless : d.root.isLinkless = true
  temp : d.temp.isAbsolute = true

def Visit.found? {σ : Type} [Digest] (engine : RuleEngine σ) (v : Visit σ) : Option (List Path) :=
  v.request.project?.bind fun input ↦ ((Session.findProjects engine input).run.run v.before).1.toOption

def Visit.lastFound {σ : Type} [Digest] (engine : RuleEngine σ) (visits : List (Visit σ)) : List Path :=
  visits.foldl (fun found v ↦ (v.found? engine).getD found) []

namespace Disk.Direct

variable {d d' : Disk} {ctx : DiscoveryContext} {t t' : TsConfigStore} {r : Except AnalysisError Unit}

theorem removeFile (h : d.Direct) (p : Path) : (d.removeFile p).Direct := by
  constructor
  · exact Disk.isLinkless_removeFile h.linkless p
  · rw [temp_removeFile]
    exact h.temp

theorem writeTemp {bytes : ByteArray} {p : Path} (h : d.Direct) (hw : d.writeTemp bytes = .ok (p, d')) :
    d'.Direct ∧ p.isAbsolute = true := by
  refine ⟨⟨isLinkless_writeTemp h.linkless hw, ?_⟩, ?_⟩
  · rw [temp_writeTemp hw]
    exact h.temp
  · rw [path_writeTemp hw]
    exact Path.isAbsolute_join h.temp _

theorem setup (h : d.Direct) (t : TsConfigStore) : (t.setup d).2.Direct := by
  unfold TsConfigStore.setup
  split
  · exact h.removeFile _
  · exact h

theorem scans (h : d.Direct) (hbase : ctx.baseDir.isAbsolute = true) (hs : TsConfigStore.Scans ctx d r t d') :
    d'.Direct ∧ ∀ p ∈ t.paths, p.isAbsolute = true := by
  cases hs with
  | found _ _ hpaths => exact ⟨h, fun p hp ↦ isAbsolute_of_mem_walked hbase (hpaths p hp)⟩
  | wrote hw _ _ hpaths =>
    obtain ⟨hd', hpath⟩ := h.writeTemp hw
    refine ⟨hd', ?_⟩
    rw [hpaths]
    simpa using hpath
  | failed e _ _ hpaths =>
    rw [hpaths]
    exact ⟨h, nofun⟩

theorem refreshes (h : d.Direct) (hbase : ctx.baseDir.isAbsolute = true)
    (ht : ∀ p ∈ t.paths, p.isAbsolute = true) (hr : t.Refreshes ctx d r t' d') :
    d'.Direct ∧ ∀ p ∈ t'.paths, p.isAbsolute = true := by
  cases hr with
  | ready | baseless => exact ⟨h, ht⟩
  | scanned hs => exact (h.setup t).scans hbase hs

end Disk.Direct

theorem Path.normalize_eq_of_same {p q : Path} (hp : p.isAbsolute = true) (hq : q.isAbsolute = true)
    (h : p.same q = true) : p.normalize = q.normalize := by
  have hcomponents : p.components = q.components := by simpa [same] using h
  rw [normalize, normalize, hp, hq, hcomponents]

namespace Session

variable {σ : Type}

structure Current (s : Session σ) : Prop where
  absolute : ∀ t ∈ s.projectTsConfigs, t.isAbsolute = true
  keyed : s.programs.cache.KeyedBy fun key ↦ ∃ t ∈ s.projectTsConfigs, t.normalize = key
  stores : ∃ x : Stores, s.stores.stores = x.toList ∧ ∀ p ∈ x.tsconfigs.paths, p.isAbsolute = true

section Programs

variable [Digest] {engine : RuleEngine σ} {w w' : Workspace σ} {tsconfigs : List Path}

section Registries

variable {r : Registry} {disk : Disk} {keys : Path → Prop}

theorem keyedBy_reaches {r' : Registry} {ok : Registry.Call → Prop} (hok : ∀ t, ¬ ok (.getOrCreate t))
    (h : r.cache.KeyedBy keys) (hr : r.Reaches ok r') : r'.cache.KeyedBy keys := by
  induction hr with
  | refl => exact h
  | call _ disk classifier hc ih =>
    refine Registry.keyedBy_serve ih ?_
    rintro t rfl
    exact hok t hc

theorem keyedBy_createAll (h : r.cache.KeyedBy keys)
    (ht : ∀ t ∈ tsconfigs, keys (programKey disk t)) (classifier : Classifier) :
    (r.createAll disk classifier tsconfigs).cache.KeyedBy keys :=
  foldlRecOn (motive := fun r : Registry ↦ r.cache.KeyedBy keys) tsconfigs _ h fun _ h t hmem ↦
    Registry.keyedBy_getOrCreate h (ht t hmem)

theorem keyedBy_withoutStale (h : r.cache.KeyedBy keys) (disk : Disk) (events : List FileEvent)
    (previous tsconfigs : List Path) :
    (r.withoutStale disk events previous tsconfigs).cache.KeyedBy fun key ↦
      keys key ∧ ∀ old ∈ previous, key = programKey disk old → tsconfigs.any old.same = true := by
  have hevents : (events.foldl (fun r event ↦ (r.invalidateContaining disk event.path).2) r).cache.KeyedBy keys := by
    refine foldlRecOn (motive := fun r : Registry ↦ r.cache.KeyedBy keys) events _ h fun r h event _ ↦ ?_
    have hone : (r.serve disk .standard (.invalidateContaining event.path)).cache.KeyedBy keys :=
      Registry.keyedBy_serve h nofun
    exact hone
  refine (Registry.keyedBy_foldl_invalidate hevents disk _).mono ?_
  rintro key ⟨hkey, hstale⟩
  refine ⟨hkey, fun old hold hk ↦ ?_⟩
  by_contra hnone
  exact hstale old (mem_filter.mpr ⟨hold, by simpa using hnone⟩) hk

end Registries

omit [Digest] in
theorem Current.of_sameButRules (h : w.session.Current) (hw : w.SameButRules w') : w'.session.Current := by
  obtain ⟨_, _, _, rfl⟩ := hw
  exact ⟨h.absolute, h.keyed, h.stores⟩

theorem Current.discovered {ctx : DiscoveryContext} (h : w.session.Current) (hd : w.disk.Direct)
    (hbase : ctx.baseDir.isAbsolute = true) :
    (w.discovered ctx).session.Current ∧ (w.discovered ctx).disk.Direct ∧
      ∀ tsconfigs, (w.discovered ctx).session.stores.projects = .ok tsconfigs →
        ∀ t ∈ tsconfigs, t.isAbsolute = true := by
  obtain ⟨x, hx, hpaths⟩ := h.stores
  obtain ⟨-, hstores, hdisk⟩ := StoreSet.discover_stores hx ctx w.disk
  obtain ⟨hd', hpaths'⟩ := hd.refreshes hbase hpaths (x.refreshes ctx w.disk)
  have hdirect : (w.discovered ctx).disk.Direct := by
    rw [← hdisk] at hd'
    exact hd'
  refine ⟨⟨h.absolute, h.keyed, _, hstores, hpaths'⟩, hdirect, ?_⟩
  intro tsconfigs ht
  have hset : (w.discovered ctx).session.stores.tsconfigs? = some (x.discover ctx w.disk).2.1.tsconfigs :=
    (StoreSet.stores?_toList hstores).2.2
  rw [StoreSet.projects, hset, Option.map_some, TsConfigStore.tsconfigs] at ht
  split at ht
  · cases ht
  · cases ht
    exact hpaths'

theorem Current.refreshed (h : w.session.Current) (hd : w.disk.Direct)
    (ht : ∀ t ∈ tsconfigs, t.isAbsolute = true) (events : List FileEvent) :
    (w.refreshed events tsconfigs).session.Current := by
  refine ⟨ht, ?_, h.stores⟩
  refine keyedBy_createAll ((keyedBy_withoutStale h.keyed w.disk events _ tsconfigs).mono ?_) ?_ _
  · rintro key ⟨⟨old, hold, rfl⟩, hagain⟩
    have hkey := Disk.programKey_linkless hd.linkless (h.absolute old hold)
    obtain ⟨t, hmem, hsame⟩ := any_eq_true.mp (hagain old hold hkey.symm)
    exact ⟨t, hmem, (Path.normalize_eq_of_same (h.absolute old hold) (ht t hmem) hsame).symm⟩
  · intro t hmem
    exact ⟨t, hmem, (Disk.programKey_linkless hd.linkless (ht t hmem)).symm⟩

theorem Current.finds {input : ProjectInput} {r : Except AnalysisError (List Path)} (h : w.session.Current)
    (hd : w.disk.Direct) (hr : (Request.analyzeProject input).Frugal) (hf : Finds input w r w') :
    w'.session.Current ∧ w'.disk.Direct ∧ w'.session.projectTsConfigs = w.session.projectTsConfigs ∧
      ∀ tsconfigs, r = .ok tsconfigs → ∀ t ∈ tsconfigs, t.isAbsolute = true := by
  cases hf with
  | unready e hw =>
    have hcurrent := h.of_sameButRules hw
    obtain ⟨_, _, _, rfl⟩ := hw
    exact ⟨hcurrent, hd, rfl, nofun⟩
  | @discovery dir w₁ hdir hw _ =>
    have hcurrent := h.of_sameButRules hw
    obtain ⟨_, _, _, rfl⟩ := hw
    obtain ⟨hc, hd', hprojects⟩ := @Current.discovered σ _ _ (input.context dir) hcurrent hd (hr dir hdir)
    refine ⟨hc, hd', rfl, ?_⟩
    intro tsconfigs ht
    obtain ⟨_, -, ht⟩ := bind_eq_ok ht
    exact hprojects tsconfigs ht

omit [Digest] in
theorem Current.step {task : Task} {a : Advance} (h : w.session.Current) (hs : step engine task w = .ok (a, w')) :
    w'.session.Current ∧ w'.disk = w.disk ∧ w'.session.projectTsConfigs = w.session.projectTsConfigs := by
  cases task with
  | file unit =>
    rw [(step_file hs).1]
    exact ⟨h, rfl, rfl⟩
  | project run =>
    cases projectStep hs with
    | enter =>
      refine ⟨⟨h.absolute, ?_, h.stores⟩, rfl, rfl⟩
      unfold enterUnit
      dsimp only
      split
      · exact h.keyed.count _
      · exact h.keyed
    | _ => exact ⟨⟨h.absolute, h.keyed, h.stores⟩, rfl, rfl⟩

theorem Current.began {request : Request} {progress : Progress} (h : w.session.Current) (hd : w.disk.Direct)
    (hr : request.Frugal) (hb : Began engine request w progress w') (streaming : Bool) :
    w'.session.Current ∧ w'.disk.Direct ∧ w'.session.projectTsConfigs =
        (Visit.found? engine ⟨w, request, streaming⟩).getD w.session.projectTsConfigs := by
  have hother (hr : request.project? = none) : Visit.found? engine ⟨w, request, streaming⟩ = none := by
    rw [Visit.found?, hr]
    rfl
  cases hb with
  | rules hr hw _ =>
    refine ⟨h.of_sameButRules hw, ?_⟩
    obtain ⟨_, _, _, rfl⟩ := hw
    exact ⟨hd, by rw [hother (hr ▸ rfl)]; rfl⟩
  | calls hreq hreach _ =>
    refine ⟨⟨h.absolute, keyedBy_reaches ?_ h.keyed hreach, h.stores⟩, hd, by rw [hother hreq]; rfl⟩
    intro t ht
    cases request with
    | analyzeJsTs input =>
      have hmem : t ∈ input.tsConfigs := ht
      rw [show input.tsConfigs = [] from hr] at hmem
      cases hmem
    | createProgram => exact hr
    | _ => cases ht
  | wrote hreq hw =>
    subst hreq
    exact ⟨⟨h.absolute, h.keyed, h.stores⟩, (hd.writeTemp hw).1, rfl⟩
  | lost hreq hf =>
    subst hreq
    obtain ⟨hc, hd', hprojects, -⟩ := h.finds hd hr (Session.finds hf)
    refine ⟨hc, hd', hprojects.trans ?_⟩
    simp only [Visit.found?, Request.project?, Option.bind_some, hf]
    rfl
  | opened hreq hf _ =>
    subst hreq
    obtain ⟨hc, hd', -, habsolute⟩ := h.finds hd hr (Session.finds hf)
    refine ⟨hc.refreshed hd' (habsolute _ rfl) _, hd', ?_⟩
    simp only [Visit.found?, Request.project?, Option.bind_some, hf]
    rfl

theorem Current.after {v : Visit σ} (h : v.before.session.Current) (hd : v.before.disk.Direct)
    (hr : v.request.Frugal) : (v.after engine).session.Current ∧ (v.after engine).disk.Direct ∧
      (v.after engine).session.projectTsConfigs = (v.found? engine).getD v.before.session.projectTsConfigs := by
  have hbegan := h.began hd hr (Session.began engine v.request v.streaming v.before) v.streaming
  refine handle_preserves (P := fun w ↦ w.session.Current ∧ w.disk.Direct ∧ w.session.projectTsConfigs =
    (v.found? engine).getD v.before.session.projectTsConfigs) ?_ hbegan
  rintro task a w w' hs ⟨hc, hd', hprojects⟩
  obtain ⟨hc', hdisk, hsame⟩ := hc.step hs
  rw [hdisk, hsame]
  exact ⟨hc', hd', hprojects⟩

theorem Current.visited {start : Workspace σ} {visits : List (Visit σ)} (hstart : start.session.Current)
    (hdisk : start.disk.Direct) (hnone : start.session.projectTsConfigs = [])
    (h : start.Visited engine (fun _ v ↦ v.request.Frugal ∧ v.before.disk.Direct) visits w) :
    w.session.Current ∧ w.disk.Direct ∧ w.session.projectTsConfigs = Visit.lastFound engine visits := by
  induction h with
  | none => exact ⟨hstart, hdisk, hnone⟩
  | visit _ v hs hv ih =>
    obtain ⟨hcurrent, -, hfound⟩ := ih
    rw [← hs] at hcurrent hfound
    obtain ⟨hc, hd, hprojects⟩ := @Current.after σ _ engine v hcurrent hv.2 hv.1
    refine ⟨hc, hd, hprojects.trans ?_⟩
    rw [hfound, Visit.lastFound, Visit.lastFound, foldl_concat]

omit [Digest] in
theorem current_fresh (engine : RuleEngine σ) (options : SessionOptions) : (fresh engine options).Current :=
  ⟨nofun, ⟨.nil, nofun⟩, {}, rfl, nofun⟩

theorem programs_of_found_projects {options : SessionOptions} {disk : Disk} {visits : List (Visit σ)}
    {w : Workspace σ} (hdisk : disk.Direct)
    (h : Workspace.Visited engine (fun _ v ↦ v.request.Frugal ∧ v.before.disk.Direct)
      ⟨fresh engine options, disk⟩ visits w) :
    (∀ key ∈ w.session.programs.cache.keys, ∃ t ∈ w.session.projectTsConfigs, key = programKey w.disk t) ∧
      w.session.projectTsConfigs = Visit.lastFound engine visits ∧
      w.session.programs.size ≤ (Visit.lastFound engine visits).length := by
  obtain ⟨hc, hd, hfound⟩ := (current_fresh engine options).visited hdisk rfl h
  have hkeys := w.session.programs.cache.keys_sublist
  have hkey (key : Path) (hkey : key ∈ w.session.programs.cache.keys) :
      ∃ t ∈ w.session.projectTsConfigs, t.normalize = key := by
    obtain ⟨e, he, rfl⟩ := mem_map.mp (hkeys.subset hkey)
    exact hc.keyed.all e he
  refine ⟨?_, hfound, ?_⟩
  · intro key hmem
    obtain ⟨t, ht, rfl⟩ := hkey key hmem
    exact ⟨t, ht, (Disk.programKey_linkless hd.linkless (hc.absolute t ht)).symm⟩
  · -- different keys are the normal forms of different project files
    have hsub : w.session.programs.cache.keys ⊆ w.session.projectTsConfigs.map Path.normalize := by
      intro key hmem
      obtain ⟨t, ht, rfl⟩ := hkey key hmem
      exact mem_map_of_mem ht
    calc w.session.programs.size
      _ = w.session.programs.cache.keys.length := by
        rw [Registry.size, Cache.size, Cache.keys, length_map]
      _ ≤ (w.session.projectTsConfigs.map Path.normalize).length :=
        (List.Nodup.subperm (hc.keyed.nodup.sublist hkeys) hsub).length_le
      _ = (Visit.lastFound engine visits).length := by rw [length_map, hfound]

end Programs

def firstVisit [Digest] : Visit (List Path) :=
  { before :=
      ⟨fresh .silent {}, projectDisk [("tsconfig.json", .file "\x7b\"files\":[]\x7d".toUTF8)] [("tmp", .dir [])]⟩
    request := projectRequest [] }

def secondVisit [Digest] : Visit (List Path) :=
  { before := ⟨(firstVisit.after .silent).session, projectDisk [] [("tmp", .dir [])]⟩
    request := projectRequest [⟨⟨"/p/tsconfig.json"⟩, .deleted⟩] }

theorem frugal_projectRequest (events : List FileEvent) : (projectRequest events).Frugal := by
  rintro dir hdir
  cases hdir
  decide

theorem programs_of_lost_project : let _ : Digest := sizeDigest
    let w := secondVisit.after .silent
    (firstVisit.after .silent).session.programs.cache.keys = [⟨"/p/tsconfig.json"⟩] ∧
      (∀ key ∈ w.session.programs.cache.keys, ∃ t ∈ w.session.projectTsConfigs, key = programKey w.disk t) ∧
      w.session.projectTsConfigs = Visit.lastFound .silent [firstVisit, secondVisit] ∧
      w.session.programs.size ≤ (Visit.lastFound .silent [firstVisit, secondVisit]).length := by
  intro _ w
  have hfull : firstVisit.before.disk.Direct := ⟨by decide, by decide⟩
  have hempty : secondVisit.before.disk.Direct := ⟨by decide, by decide⟩
  refine ⟨by decide +kernel, ?_⟩
  have hfirst : Workspace.Visited .silent (fun _ v ↦ v.request.Frugal ∧ v.before.disk.Direct)
      firstVisit.before [firstVisit] (firstVisit.after .silent) :=
    .visit .none firstVisit rfl ⟨frugal_projectRequest _, hfull⟩
  apply programs_of_found_projects hfull
  exact hfirst.visit secondVisit rfl ⟨frugal_projectRequest _, hempty⟩

end Session

end AnalysisServer
