import AnalysisServer.Proofs.Discovery.ProjectFiles

namespace AnalysisServer

namespace Path

variable {p : Path}

theorem isAbsolute_join (h : p.isAbsolute = true) (q : Path) : (p.join q).isAbsolute = true := by
  obtain ⟨cs, hcs⟩ := toList_of_isAbsolute h
  rw [join, isEmpty_of_isAbsolute h, Bool.or_false]
  split
  · assumption
  · split <;> simp [isAbsolute, String.toList_append, hcs]

theorem isAbsolute_pathBelow (h : p.isAbsolute = true) (names : Location) :
    (Walk.pathBelow p names).isAbsolute = true := by
  rw [Walk.pathBelow]
  induction names generalizing p with
  | nil => exact h
  | cons s names ih => exact ih (isAbsolute_join h ⟨s⟩)

end Path

variable {ctx : DiscoveryContext} {d : Disk}

theorem isAbsolute_of_mem_walked (h : ctx.baseDir.isAbsolute = true) (hp : p ∈ ctx.walked d) :
    p.isAbsolute = true := by
  obtain ⟨names, rfl⟩ := mem_walked hp
  exact Path.isAbsolute_pathBelow h names

namespace TsConfigStore

/-- What a walk can come to: project files are found, a temporary one is written, or it cannot be written. -/
inductive Scans (ctx : DiscoveryContext) (d : Disk) : Except AnalysisError Unit → TsConfigStore → Disk → Prop
  | found {t} (horigin : t.origin.isSome = true) (hfallback : t.fallback = none)
      (hpaths : ∀ p ∈ t.paths, p ∈ ctx.walked d) : Scans ctx d (.ok ()) t d
  | wrote {t bytes path d'} (hw : d.writeTemp bytes = .ok (path, d')) (horigin : t.origin.isSome = true)
      (hfallback : t.fallback = some path) (hpaths : t.paths = [path]) : Scans ctx d (.ok ()) t d'
  | failed {t} (e : AnalysisError) (horigin : t.origin = none) (hfallback : t.fallback = none)
      (hpaths : t.paths = []) : Scans ctx d (.error e) t d

inductive Refreshes (ctx : DiscoveryContext) (t : TsConfigStore) (d : Disk) :
    Except AnalysisError Unit → TsConfigStore → Disk → Prop
  | ready (h : t.origin.isSome = true) : Refreshes ctx t d (.ok ()) t d
  | baseless (e : AnalysisError) : Refreshes ctx t d (.error e) t d
  | scanned {r t' d'} (h : Scans ctx (t.setup d).2 r t' d') : Refreshes ctx t d r t' d'

theorem writeTemp_of_writeTsConfig {tsconfig : Json} {r : Path × Disk} (h : writeTsConfig d tsconfig = .ok r) :
    d.writeTemp tsconfig.pretty.toUTF8 = .ok r := by
  unfold writeTsConfig at h
  split at h
  · rename_i hr
    cases h
    exact hr
  · cases h

theorem writeFallback_cases {s t : TsConfigStore} {d' : Disk} (h : writeFallback ctx s d = .ok (t, d')) :
    t.origin = some .fallback ∧ ((t.paths = [] ∧ t.fallback = s.fallback ∧ d' = d) ∨
        ∃ bytes path, d.writeTemp bytes = .ok (path, d') ∧ t.paths = [path] ∧ t.fallback = some path) := by
  unfold writeFallback at h
  split at h
  · cases h
    exact ⟨rfl, .inl ⟨rfl, rfl, rfl⟩⟩
  · split at h
    · cases h
    · rename_i hw
      cases h
      exact ⟨rfl, .inr ⟨_, _, writeTemp_of_writeTsConfig hw, rfl, rfl⟩⟩

theorem scans [Digest] (ctx : DiscoveryContext) (d : Disk) :
    Scans ctx d (scan ctx d).1 (scan ctx d).2.1 (scan ctx d).2.2 := by
  have hfilter (p : Path → Bool) : ∀ path ∈ (ctx.walked d).filter p, path ∈ ctx.walked d :=
    fun path h ↦ (List.mem_filter.mp h).1
  rw [scan, finds_fed, postProcess]
  simp only [List.append_nil, List.isEmpty_reverse, List.reverse_reverse]
  split
  · exact .found rfl rfl (hfilter _)
  · split
    · exact .found rfl rfl (hfilter _)
    · generalize hs : ({ finds := _ } : TsConfigStore) = s
      have hnew : s.origin = none ∧ s.fallback = none ∧ s.paths = [] := by
        rw [← hs]
        exact ⟨rfl, rfl, rfl⟩
      cases hw : writeFallback ctx s d with
      | error e => exact .failed e hnew.1 hnew.2.1 hnew.2.2
      | ok r =>
        obtain ⟨t, d'⟩ := r
        obtain ⟨horigin, ⟨hpaths, hfallback, rfl⟩ | ⟨bytes, path, hwrite, hpaths, hfallback⟩⟩ :=
          writeFallback_cases hw
        · refine .found (by rw [horigin]; rfl) (hfallback.trans hnew.2.1) ?_
          intro p hp
          have hmem : p ∈ t.paths := hp
          rw [hpaths] at hmem
          cases hmem
        · exact .wrote hwrite (by rw [horigin]; rfl) hfallback hpaths

end TsConfigStore

namespace Stores

variable [Digest]

theorem refreshes (ctx : DiscoveryContext) (x : Stores) (d : Disk) :
    x.tsconfigs.Refreshes ctx d (x.discover ctx d).1 (x.discover ctx d).2.1.tsconfigs (x.discover ctx d).2.2 := by
  have horigin (h : x.tsconfigs.isInitialized ctx = true) : x.tsconfigs.origin.isSome = true := by
    simp only [TsConfigStore.isInitialized, Bool.and_eq_true] at h
    exact h.1.2
  unfold discover
  dsimp only
  split
  · rename_i hready
    simp only [Bool.and_eq_true] at hready
    exact .ready (horigin hready.2)
  · split
    · exact .baseless _
    · split
      · exact .ready (horigin ‹_›)
      · exact .scanned (TsConfigStore.scans ctx _)

theorem isInitialized_discover {x : Stores} (h : (x.discover ctx d).1 = .ok ()) :
    (x.discover ctx d).2.1.sources.files.isInitialized = true := by
  have hready (hs : (x.sources.isInitialized ctx).1 = true) :
      (x.sources.isInitialized ctx).2.files.isInitialized = true := by
    unfold SourceStore.isInitialized at hs ⊢
    split
    · rfl
    · rename_i hfiles
      rw [hfiles] at hs
      simp only [Bool.and_eq_true] at hs
      exact hs.1.2
  unfold discover at h ⊢
  dsimp only at h ⊢
  split
  · rename_i hall
    simp only [Bool.and_eq_true] at hall
    exact hready hall.1.1
  · split
    · rename_i hnot hbase
      rw [if_neg hnot, if_pos hbase] at h
      cases h
    · dsimp only
      split
      · exact hready ‹_›
      · rfl

end Stores

end AnalysisServer
