import AnalysisServer.Proofs.Discovery.Records
import AnalysisServer.Proofs.Discovery.Walks

namespace AnalysisServer

section Records

/-- The record of a reported file, if its language is known and it is not too big. -/
def SourceStore.record? (ctx : DiscoveryContext) (disk : Disk) (path : Path) : Option FileRecord :=
  match ctx.config.classifier.classify path none with
  | none => none
  | some language =>
    match disk.node path with
    | .ok (.file bytes) =>
      if bytes.size > ctx.config.maxFileBytes then none
      else some ⟨path, language, ctx.config.fileTypeOf path ctx.baseDir, none⟩
    | _ => none

def SourceStore.isTooBig (ctx : DiscoveryContext) (disk : Disk) (path : Path) : Bool :=
  match ctx.config.classifier.classify path none, disk.node path with
  | some _, .ok (.file bytes) => bytes.size > ctx.config.maxFileBytes
  | _, _ => false

variable {ctx : DiscoveryContext} {disk : Disk} {r : FileRecord}

theorem SourceStore.processFile_eq (path : Path) (s : SourceStore) : s.processFile ctx disk path = { s with
    staged := (record? ctx disk path).toList ++ s.staged
    tooBig := (if isTooBig ctx disk path then [path] else []) ++ s.tooBig } := by
  rw [processFile, record?, isTooBig]
  cases ctx.config.classifier.classify path none with
  | none => rfl
  | some language =>
    cases disk.node path with
    | error e => rfl
    | ok n =>
      cases n with
      | file bytes =>
        simp only [decide_eq_true_eq]
        split <;> rfl
      | link target | dir es => rfl

theorem SourceStore.fed_eq (paths : List Path) (s : SourceStore) : s.fed ctx disk paths = { s with
    staged := (paths.filterMap (record? ctx disk)).reverse ++ s.staged
    tooBig := (paths.filter (isTooBig ctx disk)).reverse ++ s.tooBig } := by
  induction paths generalizing s with
  | nil => rfl
  | cons path paths ih =>
    refine (ih _).trans ?_
    dsimp only
    rw [processFile_eq]
    cases hr : record? ctx disk path <;> cases hbig : isTooBig ctx disk path <;> simp [hr, hbig]

theorem SourceStore.path_of_record? {path : Path} (h : record? ctx disk path = some r) :
    r.path = path ∧ (ctx.config.classifier.classify path none).isSome = true := by
  rw [record?] at h
  split at h
  · cases h
  · rename_i language hl
    split at h
    · split at h
      · cases h
      · cases h
        exact ⟨rfl, by rw [hl]; rfl⟩
    · cases h

theorem SourceStore.set?_scan [Digest] (ctx : DiscoveryContext) (disk : Disk) :
    (SourceStore.scan ctx disk).files.set? =
      some (.ofRecords ctx.baseDir ((ctx.walked disk).filterMap (record? ctx disk))) := by
  simp only [SourceStore.scan, SourceStore.postProcess, FilesCache.setFiles, fed_eq,
    List.append_nil, List.reverse_reverse]

end Records

section Manifests

variable {disk : Disk}

def PackageStore.isManifest (path : Path) : Bool :=
  path.fileName? == some Package.fileName

theorem PackageStore.fed_filter (paths : List Path) (s : PackageStore) :
    s.fed disk paths = s.fed disk (paths.filter isManifest) := by
  induction paths generalizing s with
  | nil => rfl
  | cons path paths ih =>
    by_cases h : isManifest path
    · rw [List.filter_cons_of_pos h]
      exact ih _
    · rw [List.filter_cons_of_neg h]
      have hpass : s.processFile disk path = s := if_neg h
      exact (congrArg (fed disk paths) hpass).trans (ih s)

end Manifests

section ProjectFiles

namespace TsConfigStore

variable {ctx : DiscoveryContext} {d : Disk}

def isUsual (path : Path) : Bool :=
  path.fileName? == some fileName

theorem finds_fed (paths : List Path) (s : TsConfigStore) : s.fed ctx paths = { s with finds :=
        { named := (paths.filter (isProvided ctx)).reverse ++ s.finds.named
          usual := (paths.filter isUsual).reverse ++ s.finds.usual
          scripts := (paths.filter ctx.config.classifier.isScript).reverse ++ s.finds.scripts } } := by
  induction paths generalizing s with
  | nil => rfl
  | cons path paths ih =>
    have hstep : s.processFile ctx path = { s with finds :=
          { named := (if isProvided ctx path then [path] else []) ++ s.finds.named
            usual := (if isUsual path then [path] else []) ++ s.finds.usual
            scripts := (if ctx.config.classifier.isScript path then [path] else []) ++ s.finds.scripts } } := by
      rw [processFile]
      by_cases hn : isProvided ctx path <;> by_cases hu : isUsual path <;>
        by_cases hs : ctx.config.classifier.isScript path <;> simp_all [isUsual]
    show fed ctx paths (s.processFile ctx path) = _
    rw [hstep, ih]
    by_cases hn : isProvided ctx path <;> by_cases hu : isUsual path <;>
      by_cases hs : ctx.config.classifier.isScript path <;> simp [hn, hu, hs]

/-- What can be seen of a store when the name of a temporary file does not count. -/
def view (t : TsConfigStore) : Option TsConfigOrigin × List (Option Path) :=
  (t.origin, t.paths.map fun path ↦ if t.origin = some .fallback then none else some path)

def viewOf (ctx : DiscoveryContext) (paths : List Path) : Option TsConfigOrigin × List (Option Path) :=
  if !ctx.config.tsConfigPaths.isEmpty && !(paths.filter (isProvided ctx)).isEmpty then
    (some .property, (paths.filter (isProvided ctx)).map some)
  else if !(paths.filter isUsual).isEmpty then (some .lookup, (paths.filter isUsual).map some)
  else (some .fallback,
    if ctx.config.sonarlint && decide ((paths.filter ctx.config.classifier.isScript).length ≥
      ctx.config.maxFilesForTypeChecking.toNat) then [] else [none])

theorem isNone_fallbackObject? (ctx : DiscoveryContext) (s : TsConfigStore) : (fallbackObject? ctx s).isNone =
    (ctx.config.sonarlint && decide (s.finds.scripts.length ≥ ctx.config.maxFilesForTypeChecking.toNat)) := by
  rw [fallbackObject?]
  by_cases h : s.finds.scripts.length ≥ ctx.config.maxFilesForTypeChecking.toNat
  · cases ctx.config.sonarlint <;> simp [h]
  · cases ctx.config.sonarlint <;> simp [h]

theorem writeTsConfig_ok (h : ∀ bytes, ∃ r, d.writeTemp bytes = .ok r) (tsconfig : Json) :
    ∃ r, writeTsConfig d tsconfig = .ok r := by
  obtain ⟨r, hr⟩ := h tsconfig.pretty.toUTF8
  refine ⟨r, ?_⟩
  unfold writeTsConfig
  rw [hr]

theorem writeFallback_spec (ctx : DiscoveryContext) (d : Disk) (s : TsConfigStore) :
    (∀ t d', writeFallback ctx s d = .ok (t, d') → t.view = (some .fallback,
      if ctx.config.sonarlint && decide (s.finds.scripts.length ≥ ctx.config.maxFilesForTypeChecking.toNat)
      then [] else [none])) ∧
    ((∀ bytes, ∃ r, d.writeTemp bytes = .ok r) → ∃ r, writeFallback ctx s d = .ok r) := by
  have hnone := isNone_fallbackObject? ctx s
  rw [writeFallback, ← hnone]
  cases fallbackObject? ctx s with
  | none =>
    refine ⟨fun t d' h ↦ ?_, fun _ ↦ ⟨_, rfl⟩⟩
    cases h
    rfl
  | some tsconfig =>
    dsimp only
    cases hw : writeTsConfig d tsconfig with
    | error e =>
      refine ⟨nofun, fun h ↦ ?_⟩
      obtain ⟨r, hr⟩ := writeTsConfig_ok h tsconfig
      rw [hw] at hr
      cases hr
    | ok r =>
      refine ⟨fun t d' h ↦ ?_, fun _ ↦ ⟨_, rfl⟩⟩
      cases h
      rfl

variable [Digest]

theorem scan_spec (ctx : DiscoveryContext) (d : Disk) :
    ((scan ctx d).1 = .ok () → (scan ctx d).2.1.view = viewOf ctx (ctx.walked d) ∧
      (scan ctx d).2.1.key = some (keyFor ctx)) ∧
    ((∀ bytes, ∃ r, d.writeTemp bytes = .ok r) → (scan ctx d).1 = .ok ()) := by
  rw [scan, finds_fed, postProcess, viewOf]
  simp only [List.append_nil, List.isEmpty_reverse, List.reverse_reverse]
  split
  · exact ⟨fun _ ↦ ⟨by simp [view], rfl⟩, fun _ ↦ rfl⟩
  · split
    · exact ⟨fun _ ↦ ⟨by simp [view], rfl⟩, fun _ ↦ rfl⟩
    · generalize hs : ({ finds := _ } : TsConfigStore) = s
      obtain ⟨hview, hok⟩ := writeFallback_spec ctx d s
      cases hw : writeFallback ctx s d with
      | error e =>
        refine ⟨by simp, fun h ↦ ?_⟩
        obtain ⟨r, hr⟩ := hok h
        rw [hw] at hr
        cases hr
      | ok r =>
        refine ⟨fun _ ↦ ⟨?_, rfl⟩, fun _ ↦ rfl⟩
        refine (hview r.1 r.2 hw).trans ?_
        rw [← hs, List.length_reverse]

end TsConfigStore

end ProjectFiles

end AnalysisServer
