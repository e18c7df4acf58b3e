import AnalysisServer.Proofs.Discovery.Incremental
import AnalysisServer.Proofs.Disk.Trees

namespace AnalysisServer

open List

open TsConfigStore (isInitialized keyFor keyText scan scan_spec)

/-- What a disk turns into while temporary files are written to it and taken away. -/
inductive Disk.Littered (disk : Disk) : Disk → Prop
  | same : Littered disk disk
  | write {d d' bytes path} : Littered disk d → d.writeTemp bytes = .ok (path, d') → Littered disk d'
  | remove {d} (n : Nat) : Littered disk d → Littered disk (d.removeFile (disk.temp.joinName (tempName n)))

/-- The content of the file that a path names, if its last name is not followed. -/
def Disk.stored? (d : Disk) (path : Path) : Option ByteArray :=
  match d.place path with
  | .error _ => none
  | .ok here =>
    match d.root.get? here with
    | some (.file bytes) => some bytes
    | _ => none

/-- Temporary files hold what is written to them, and the others do not decide whether one can be written. -/
structure Disk.Shelves (disk : Disk) : Prop where
  steady : ∀ d, disk.Littered d → ∀ bytes, (d.writeTemp bytes).isOk = (disk.writeTemp bytes).isOk
  keeps : ∀ d, disk.Littered d → ∀ bytes path d', d.writeTemp bytes = .ok (path, d') → d'.stored? path = some bytes

theorem temp_writeTemp {d d' : Disk} {bytes : ByteArray} {path : Path} (h : d.writeTemp bytes = .ok (path, d')) :
    d'.temp = d.temp := by
  obtain ⟨here, rfl⟩ := Disk.exists_modify_of_writeTemp h
  rfl

theorem Disk.Littered.temp {disk d : Disk} (h : disk.Littered d) : d.temp = disk.temp := by
  induction h with
  | same => rfl
  | write _ hwrite ih => exact (temp_writeTemp hwrite).trans ih
  | remove n _ ih => exact (temp_removeFile _ _).trans ih

/-- No event is told, and no temporary file is to be seen in the base directory. -/
structure DiscoveryContext.Settled (disk : Disk) (ctx : DiscoveryContext) : Prop where
  events : ctx.config.fsEvents = []
  named : '\x00' ∉ ctx.baseDir.text.toList
  apart : ∀ d, disk.Littered d → d.isDir ctx.baseDir = disk.isDir ctx.baseDir ∧ ctx.walked d = ctx.walked disk

variable {ctx : DiscoveryContext}

namespace TsConfigStore

section Keys

variable {ctx ctx' : DiscoveryContext}

theorem takeWhile_keyText (h : '\x00' ∉ ctx.baseDir.text.toList) :
    (keyText ctx).toList.takeWhile (· ≠ '\x00') = ctx.baseDir.text.toList := by
  have hbase : ∀ c ∈ ctx.baseDir.text.toList, decide (c ≠ '\x00') = true := by
    intro c hc
    exact decide_eq_true fun he ↦ h (he ▸ hc)
  have htail (tail : List Char) (htail : tail.takeWhile (· ≠ '\x00') = []) :
      (ctx.baseDir.text.toList ++ tail).takeWhile (· ≠ '\x00') = ctx.baseDir.text.toList := by
    rw [takeWhile_append_of_pos hbase, htail, append_nil]
  rw [keyText]
  split
  · simpa using htail [] rfl
  · simpa [List.intercalate] using htail ('\x00' :: (",".intercalate ctx.config.tsConfigPaths).toList) rfl

theorem baseDir_of_keyText (h : '\x00' ∉ ctx.baseDir.text.toList) (h' : '\x00' ∉ ctx'.baseDir.text.toList)
    (he : keyText ctx = keyText ctx') : ctx.baseDir = ctx'.baseDir := by
  have htexts : ctx.baseDir.text.toList = ctx'.baseDir.text.toList := by
    rw [← takeWhile_keyText h, he, takeWhile_keyText h']
  exact congrArg Path.mk (String.toList_inj.mp htexts)

/-- All that decides which project files are found, but the base directory and the configured paths. -/
structure Alike (ctx ctx' : DiscoveryContext) : Prop where
  exclusions : ctx.config.exclusionPatterns = ctx'.config.exclusionPatterns
  classifier : ctx.config.classifier = ctx'.config.classifier
  sonarlint : ctx.config.sonarlint = ctx'.config.sonarlint
  limit : ctx.config.maxFilesForTypeChecking = ctx'.config.maxFilesForTypeChecking

def Plain (ctx : DiscoveryContext) : Prop :=
  ∀ s ∈ ctx.config.tsConfigPaths, ',' ∉ s.toList ∧ '\x00' ∉ s.toList

theorem tsConfigPaths_of_keyText (h : '\x00' ∉ ctx.baseDir.text.toList)
    (h' : '\x00' ∉ ctx'.baseDir.text.toList) (hp : Plain ctx) (hp' : Plain ctx')
    (he : keyText ctx = keyText ctx') : ctx.config.tsConfigPaths = ctx'.config.tsConfigPaths := by
  have hpieces {ctx} (h : '\x00' ∉ ctx.baseDir.text.toList) (hp : Plain ctx) :
      ∀ s ∈ ctx.baseDir.text :: if ctx.config.tsConfigPaths.isEmpty then []
        else [",".intercalate ctx.config.tsConfigPaths], '\x00' ∉ s.toList := by
    intro s hs
    rcases mem_cons.mp hs with rfl | hs
    · exact h
    · split at hs
      · cases hs
      · rw [mem_singleton.mp hs]
        exact not_mem_intercalate (c := ',') rfl (by decide) fun s hs ↦ (hp s hs).2
  have hlists := shownList_eq_of_intercalate (c := '\x00') rfl (hpieces h hp) (hpieces h' hp') he
  have hrest := (List.cons.inj hlists).2
  cases hl : ctx.config.tsConfigPaths with
  | nil =>
    cases hl' : ctx'.config.tsConfigPaths with
    | nil => rfl
    | cons s' l' => simp [hl, hl'] at hrest
  | cons s l =>
    cases hl' : ctx'.config.tsConfigPaths with
    | nil => simp [hl, hl'] at hrest
    | cons s' l' =>
      have hjoined : ",".intercalate (s :: l) = ",".intercalate (s' :: l') := by
        simpa [hl, hl'] using hrest
      have hshown := shownList_eq_of_intercalate (c := ',') rfl (fun s hs ↦ (hp s (hl ▸ hs)).1)
        (fun s hs ↦ (hp' s (hl' ▸ hs)).1) hjoined
      rwa [shownList_of_ne_nil (by simp)] at hshown

end Keys

/-- What a store holds: its origin and its paths, with the content of a temporary file in place of its path. -/
abbrev Held := Option TsConfigOrigin × List (Path ⊕ Option ByteArray)

def held (t : TsConfigStore) (d : Disk) : Held :=
  (t.origin, t.paths.map fun path ↦ if t.origin = some .fallback then .inr (d.stored? path) else .inl path)

variable (ctx : DiscoveryContext) (paths : List Path)

def wanted? : Option Json :=
  let t := fed ctx paths {}
  if !ctx.config.tsConfigPaths.isEmpty && !t.finds.named.isEmpty then none
  else if !t.finds.usual.isEmpty then none
  else fallbackObject? ctx t

def heldOf : Held :=
  let t := fed ctx paths {}
  if !ctx.config.tsConfigPaths.isEmpty && !t.finds.named.isEmpty then
    (some .property, t.finds.named.reverse.map .inl)
  else if !t.finds.usual.isEmpty then (some .lookup, t.finds.usual.reverse.map .inl)
  else (some .fallback, (fallbackObject? ctx t).toList.map fun tsconfig ↦ .inr (some tsconfig.pretty.toUTF8))

theorem isSome_heldOf : (heldOf ctx paths).1.isSome = true := by
  rw [heldOf]
  split
  · rfl
  · split <;> rfl

section Alike

variable {ctx} {ctx' : DiscoveryContext}

section

variable (h : Alike ctx ctx') (hbase : ctx.baseDir = ctx'.baseDir)

include h hbase

theorem Alike.walked (d : Disk) : ctx.walked d = ctx'.walked d := by
  rw [DiscoveryContext.walked, DiscoveryContext.walked, hbase, h.exclusions]

theorem Alike.fed
    (hpaths : ctx.config.tsConfigPaths = ctx'.config.tsConfigPaths) (paths : List Path) (t : TsConfigStore) :
    t.fed ctx paths = t.fed ctx' paths := by
  have hprovided : isProvided ctx = isProvided ctx' := by
    funext path
    simp only [isProvided, providedGlobs, hbase, hpaths]
  rw [finds_fed, finds_fed, hprovided, h.classifier]

theorem Alike.fallbackObject? (t : TsConfigStore) : fallbackObject? ctx t = TsConfigStore.fallbackObject? ctx' t := by
  simp only [TsConfigStore.fallbackObject?, h.sonarlint, h.limit, hbase]

theorem Alike.wanted? (hpaths : ctx.config.tsConfigPaths = ctx'.config.tsConfigPaths) (paths : List Path) :
    wanted? ctx paths = TsConfigStore.wanted? ctx' paths := by
  simp only [TsConfigStore.wanted?, h.fed hbase hpaths, h.fallbackObject? hbase, hpaths]

theorem Alike.heldOf (hpaths : ctx.config.tsConfigPaths = ctx'.config.tsConfigPaths) (paths : List Path) :
    heldOf ctx paths = TsConfigStore.heldOf ctx' paths := by
  simp only [TsConfigStore.heldOf, h.fed hbase hpaths, h.fallbackObject? hbase, hpaths]

end

end Alike

variable {ctx} [Digest] {d d' : Disk} {tsconfig : Json} {path : Path}

theorem scan_of_none (h : wanted? ctx (ctx.walked d) = none) :
    ∃ t, scan ctx d = (.ok (), t, d) ∧ t.key = some (keyFor ctx) ∧ t.fallback = none ∧
      ∀ d', t.held d' = heldOf ctx (ctx.walked d) := by
  have hnone : (fed ctx (ctx.walked d) {}).fallback = none := fallback_fed ctx _ _
  rw [scan, postProcess, heldOf]
  rw [wanted?] at h
  split
  · exact ⟨_, rfl, rfl, hnone, fun d' ↦ by simp [held]⟩
  · rename_i hnamed
    rw [if_neg hnamed] at h
    split
    · exact ⟨_, rfl, rfl, hnone, fun d' ↦ by simp [held]⟩
    · rename_i husual
      rw [if_neg husual] at h
      rw [writeFallback, h]
      exact ⟨_, rfl, rfl, hnone, fun d' ↦ rfl⟩

theorem scan_of_some (h : wanted? ctx (ctx.walked d) = some tsconfig) :
    heldOf ctx (ctx.walked d) = (some .fallback, [.inr (some tsconfig.pretty.toUTF8)]) ∧
    (∀ path d', d.writeTemp tsconfig.pretty.toUTF8 = .ok (path, d') →
      ∃ t, scan ctx d = (.ok (), t, d') ∧ t.key = some (keyFor ctx) ∧ t.fallback = some path ∧
        t.held d' = (some .fallback, [.inr (d'.stored? path)])) ∧
    ∀ e, d.writeTemp tsconfig.pretty.toUTF8 = .error e →
      ∃ t, scan ctx d = (.error e.toError, t, d) ∧ t.origin = none ∧ t.fallback = none := by
  have hnone : (fed ctx (ctx.walked d) {}).fallback = none := fallback_fed ctx _ _
  have horigin : (fed ctx (ctx.walked d) {}).origin = none := by rw [finds_fed]
  rw [wanted?] at h
  rw [heldOf, scan]
  generalize fed ctx (ctx.walked d) {} = t at h hnone horigin ⊢
  split at h
  · cases h
  · rename_i hnamed
    split at h
    · cases h
    · rename_i husual
      refine ⟨?_, fun path d' hwrite ↦ ?_, fun e hwrite ↦ ?_⟩
      · simp only [if_neg hnamed, if_neg husual, h]
        rfl
      · have hfile : writeTsConfig d tsconfig = .ok (path, d') := by
          unfold writeTsConfig
          rw [hwrite]
        rw [postProcess, if_neg hnamed, if_neg husual, writeFallback, h]
        dsimp only
        rw [hfile]
        exact ⟨_, rfl, rfl, rfl, rfl⟩
      · have hfile : writeTsConfig d tsconfig = .error e.toError := by
          unfold writeTsConfig
          rw [hwrite]
        rw [postProcess, if_neg hnamed, if_neg husual, writeFallback, h]
        dsimp only
        rw [hfile]
        exact ⟨t, rfl, horigin, hnone⟩

theorem scan_ok_iff_isOk : (scan ctx d).1 = .ok () ↔ ∀ tsconfig, wanted? ctx (ctx.walked d) = some tsconfig →
      (d.writeTemp tsconfig.pretty.toUTF8).isOk = true := by
  cases hwanted : wanted? ctx (ctx.walked d) with
  | none =>
    obtain ⟨t, hscan, -⟩ := scan_of_none hwanted
    rw [hscan]
    exact ⟨nofun, fun _ ↦ rfl⟩
  | some tsconfig =>
    obtain ⟨-, hwritten, hfailed⟩ := scan_of_some hwanted
    cases hwrite : d.writeTemp tsconfig.pretty.toUTF8 with
    | ok r =>
      obtain ⟨t, hscan, -⟩ := hwritten r.1 r.2 hwrite
      rw [hscan]
      refine ⟨fun _ tsconfig' he ↦ ?_, fun _ ↦ rfl⟩
      cases he
      rw [hwrite]
      rfl
    | error e =>
      obtain ⟨t, hscan, -⟩ := hfailed e hwrite
      rw [hscan]
      refine ⟨nofun, fun h ↦ ?_⟩
      have := h tsconfig rfl
      rw [hwrite] at this
      cases this

section Littered

variable {disk : Disk} (hshelves : disk.Shelves) (hd : disk.Littered d) (hwalked : ctx.walked d = ctx.walked disk)

include hshelves hd hwalked

theorem scan_littered : disk.Littered (scan ctx d).2.2 ∧
    ((scan ctx d).1 = .ok () → (scan ctx d).2.1.key = some (keyFor ctx) ∧
      (scan ctx d).2.1.held (scan ctx d).2.2 = heldOf ctx (ctx.walked disk)) ∧
    ((scan ctx d).1 ≠ .ok () → (scan ctx d).2.1.origin = none) := by
  rw [← hwalked]
  cases hwanted : wanted? ctx (ctx.walked d) with
  | none =>
    obtain ⟨t, hscan, hkey, -, hheld⟩ := scan_of_none hwanted
    rw [hscan]
    exact ⟨hd, fun _ ↦ ⟨hkey, hheld d⟩, fun hne ↦ absurd rfl hne⟩
  | some tsconfig =>
    obtain ⟨hheldOf, hwritten, hfailed⟩ := scan_of_some hwanted
    cases hwrite : d.writeTemp tsconfig.pretty.toUTF8 with
    | ok r =>
      obtain ⟨t, hscan, hkey, -, hheld⟩ := hwritten r.1 r.2 hwrite
      rw [hscan]
      refine ⟨hd.write hwrite, fun _ ↦ ⟨hkey, ?_⟩, fun hne ↦ absurd rfl hne⟩
      rw [hheldOf, hheld, hshelves.keeps d hd _ r.1 r.2 hwrite]
    | error e =>
      obtain ⟨t, hscan, horigin, -⟩ := hfailed e hwrite
      rw [hscan]
      exact ⟨hd, nofun, fun _ ↦ horigin⟩

theorem scan_ok_iff : (scan ctx d).1 = .ok () ↔ (scan ctx disk).1 = .ok () := by
  rw [scan_ok_iff_isOk, scan_ok_iff_isOk, hwalked]
  simp only [hshelves.steady d hd]

end Littered

end TsConfigStore

section Sessions

variable [Digest] {disk d : Disk} {ctx : DiscoveryContext} {x : Stores} {P : DiscoveryContext → Prop}

theorem Stores.discover_tsconfigs (ctx : DiscoveryContext) (x : Stores) (d : Disk) :
    (x.tsconfigs.isInitialized ctx = true →
      (x.discover ctx d).2.1.tsconfigs = x.tsconfigs ∧ (x.discover ctx d).2.2 = d) ∧
    (x.tsconfigs.isInitialized ctx = false → d.isDir ctx.baseDir = false →
      (x.discover ctx d).1 ≠ .ok () ∧ (x.discover ctx d).2.1.tsconfigs = x.tsconfigs ∧ (x.discover ctx d).2.2 = d) ∧
    (x.tsconfigs.isInitialized ctx = false → d.isDir ctx.baseDir = true →
      (x.discover ctx d).1 = (scan ctx (x.tsconfigs.setup d).2).1 ∧
        (x.discover ctx d).2.1.tsconfigs = (scan ctx (x.tsconfigs.setup d).2).2.1 ∧
        (x.discover ctx d).2.2 = (scan ctx (x.tsconfigs.setup d).2).2.2) := by
  refine ⟨fun hready ↦ ?_, fun hready hdir ↦ ?_, fun hready hdir ↦ ?_⟩
  · simp only [discover, hready, Bool.and_true, if_true]
    split
    · exact ⟨rfl, rfl⟩
    · split <;> exact ⟨rfl, rfl⟩
  · simp [discover, hready, hdir]
  · simp [discover, hready, hdir]

structure TsConfigStore.Kept (disk : Disk) (P : DiscoveryContext → Prop) (t : TsConfigStore) (d : Disk) :
    Prop where
  littered : disk.Littered d
  fallback : t.fallback = none ∨ ∃ n, t.fallback = some (disk.temp.joinName (Disk.tempName n))
  content : t.origin = none ∨ ∃ c, P c ∧ disk.isDir c.baseDir = true ∧ (scan c disk).1 = .ok () ∧
    t.key = some (keyFor c) ∧ t.held d = heldOf c (c.walked disk)

theorem TsConfigStore.Kept.setup {t : TsConfigStore} (h : t.Kept disk P d) : disk.Littered (t.setup d).2 := by
  obtain hnone | ⟨n, hn⟩ := h.fallback
  · simpa only [TsConfigStore.setup, hnone] using h.littered
  · simpa only [TsConfigStore.setup, hn] using h.littered.remove n

theorem TsConfigStore.isInitialized_settled (h : ctx.Settled disk) (t : TsConfigStore) :
    t.isInitialized ctx = true ↔ t.origin.isSome = true ∧ t.key = some (keyFor ctx) := by
  simp [isInitialized, isDirty, h.events]

theorem TsConfigStore.Kept.discover (hshelves : disk.Shelves) (h : x.tsconfigs.Kept disk P d) (hctx : P ctx)
    (hsettled : ctx.Settled disk) :
    (x.discover ctx d).2.1.tsconfigs.Kept disk P (x.discover ctx d).2.2 ∧
    ((x.discover ctx d).1 = .ok () → ∃ c, P c ∧ keyFor c = keyFor ctx ∧ disk.isDir c.baseDir = true ∧
      (scan c disk).1 = .ok () ∧
      (x.discover ctx d).2.1.tsconfigs.held (x.discover ctx d).2.2 = heldOf c (c.walked disk)) := by
  obtain ⟨hstay, hbaseless, hscan⟩ := Stores.discover_tsconfigs ctx x d
  cases hready : x.tsconfigs.isInitialized ctx with
  | true =>
    obtain ⟨htsconfigs, hdisk⟩ := hstay hready
    rw [htsconfigs, hdisk]
    refine ⟨h, fun _ ↦ ?_⟩
    obtain ⟨horigin, hkey⟩ := (isInitialized_settled hsettled _).mp hready
    obtain hnew | ⟨c, hc, hbase, hok, hkey', hheld⟩ := h.content
    · simp [hnew] at horigin
    · rw [hkey'] at hkey
      exact ⟨c, hc, Option.some.inj hkey, hbase, hok, hheld⟩
  | false =>
    cases hdir : d.isDir ctx.baseDir with
    | false =>
      obtain ⟨hne, htsconfigs, hdisk⟩ := hbaseless hready hdir
      rw [htsconfigs, hdisk]
      exact ⟨h, fun hok ↦ absurd hok hne⟩
    | true =>
      obtain ⟨hres, htsconfigs, hdisk⟩ := hscan hready hdir
      rw [hres, htsconfigs, hdisk]
      have hd := h.setup
      have hwalked := (hsettled.apart _ hd).2
      obtain ⟨hlittered, hfull, hempty⟩ := scan_littered hshelves hd hwalked
      have hfound (hok : (scan ctx (x.tsconfigs.setup d).2).1 = .ok ()) : disk.isDir ctx.baseDir = true ∧
          (scan ctx disk).1 = .ok () :=
        ⟨(hsettled.apart _ h.littered).1 ▸ hdir, (scan_ok_iff hshelves hd hwalked).mp hok⟩
      refine ⟨⟨hlittered, ?_, ?_⟩, fun hok ↦ ?_⟩
      · have := fallback_scan ctx (x.tsconfigs.setup d).2
        rwa [hd.temp] at this
      · by_cases hok : (scan ctx (x.tsconfigs.setup d).2).1 = .ok ()
        · obtain ⟨hbase, hfresh⟩ := hfound hok
          exact .inr ⟨ctx, hctx, hbase, hfresh, (hfull hok).1, (hfull hok).2⟩
        · exact .inl (hempty hok)
      · obtain ⟨hbase, hfresh⟩ := hfound hok
        exact ⟨ctx, hctx, rfl, hbase, hfresh, (hfull hok).2⟩

namespace StoreSet

def session (disk : Disk) (contexts : List DiscoveryContext) : StoreSet StandardStore × Disk :=
  contexts.foldl (fun x ctx ↦ (discover ctx x.1 x.2).2) (standard, disk)

omit [Digest] in
def projectFiles (x : StoreSet StandardStore × Disk) : Option TsConfigStore.Held :=
  x.1.tsconfigs?.map (·.held x.2)

theorem exists_kept_session (hshelves : disk.Shelves) (contexts : List DiscoveryContext)
    (h : ∀ c ∈ contexts, P c ∧ c.Settled disk) :
    ∃ x : Stores, (session disk contexts).1.stores = x.toList ∧
      x.tsconfigs.Kept disk P (session disk contexts).2 := by
  refine foldlRecOn (motive := fun y : StoreSet StandardStore × Disk ↦
      ∃ x : Stores, y.1.stores = x.toList ∧ x.tsconfigs.Kept disk P y.2) contexts _
    ⟨{}, rfl, .same, .inl rfl, .inl rfl⟩ fun y hy ctx hmem ↦ ?_
  obtain ⟨x, hx, hkept⟩ := hy
  obtain ⟨hctx, hsettled⟩ := h ctx hmem
  obtain ⟨-, hstores, hdisk⟩ := discover_stores hx ctx y.2
  refine ⟨_, hstores, ?_⟩
  rw [hdisk]
  exact (hkept.discover hshelves hctx hsettled).1

theorem projectFiles_of_ok (hshelves : disk.Shelves) (contexts : List DiscoveryContext) {last : DiscoveryContext}
    (h : ∀ c ∈ last :: contexts, P c ∧ c.Settled disk) {outcome : DiscoveryOutcome}
    (hok : (discover last (session disk contexts).1 (session disk contexts).2).1 = .ok outcome) :
    ∃ c, P c ∧ keyFor c = keyFor last ∧ disk.isDir c.baseDir = true ∧ (scan c disk).1 = .ok () ∧
      projectFiles (discover last (session disk contexts).1 (session disk contexts).2).2 =
        some (TsConfigStore.heldOf c (c.walked disk)) := by
  obtain ⟨x, hx, hkept⟩ := exists_kept_session hshelves contexts fun c hc ↦ h c (.tail _ hc)
  obtain ⟨hlast, hsettled⟩ := h last (.head _)
  obtain ⟨hres, hstores, hdisk⟩ := discover_stores hx last (session disk contexts).2
  rw [hok] at hres
  obtain ⟨c, hc, hkey, hbase, hscan, hheld⟩ := (hkept.discover hshelves hlast hsettled).2 hres.symm
  refine ⟨c, hc, hkey, hbase, hscan, ?_⟩
  rw [projectFiles, (stores?_toList hstores).2.2, hdisk]
  exact congrArg some hheld

theorem discover_standard_ok (ctx : DiscoveryContext) (disk : Disk) :
    (∃ outcome, (discover ctx standard disk).1 = .ok outcome) ↔
      disk.isDir ctx.baseDir = true ∧ (scan ctx disk).1 = .ok () := by
  have ht : isInitialized ctx {} = false := by simp [isInitialized]
  constructor
  · rintro ⟨outcome, hok⟩
    have hdir : disk.isDir ctx.baseDir = true := by
      by_contra hdir
      have hne := ((Stores.discover_tsconfigs ctx {} disk).2.1 ht (Bool.eq_false_iff.mpr hdir)).1
      rw [← (discover_toList ctx disk {} 0).1] at hne
      exact hne (congrArg (Except.map fun _ ↦ ()) hok)
    refine ⟨hdir, ?_⟩
    rw [← (discover_standard ctx hdir).1, hok]
    rfl
  · rintro ⟨hdir, hok⟩
    exact exists_ok_of_map ((discover_standard ctx hdir).1.trans hok)

variable {outcome : DiscoveryOutcome} {c : DiscoveryContext}

theorem projectFiles_standard (hshelves : disk.Shelves) (hsettled : ctx.Settled disk)
    (hok : (discover ctx standard disk).1 = .ok outcome) :
    projectFiles (discover ctx standard disk).2 = some (TsConfigStore.heldOf ctx (ctx.walked disk)) := by
  have hall : ∀ c ∈ [ctx], c = ctx ∧ c.Settled disk := by
    intro c hc
    obtain rfl := mem_singleton.mp hc
    exact ⟨rfl, hsettled⟩
  obtain ⟨c, rfl, -, -, -, hheld⟩ := projectFiles_of_ok hshelves [] hall hok
  exact hheld

theorem projectFiles_stay (hshelves : disk.Shelves) (hc : c.Settled disk)
    (hctx : ctx.Settled disk) (htext : keyText c = keyText ctx)
    (hok : (discover c standard disk).1 = .ok outcome) :
    (∃ o, (discover ctx (session disk [c]).1 (session disk [c]).2).1 = .ok o) ∧
    projectFiles (discover ctx (session disk [c]).1 (session disk [c]).2).2 =
      projectFiles (discover c standard disk).2 := by
  have hfull := projectFiles_standard hshelves hc hok
  have hbase : disk.isDir ctx.baseDir = true := by
    rw [← TsConfigStore.baseDir_of_keyText hc.named hctx.named htext]
    exact ((discover_standard_ok c disk).mp ⟨_, hok⟩).1
  obtain ⟨x, hx, hkept⟩ := exists_kept_session (P := (· = c)) hshelves [c] fun c' hc' ↦ by
    obtain rfl := mem_singleton.mp hc'
    exact ⟨rfl, hc⟩
  have hheld : x.tsconfigs.held (session disk [c]).2 = TsConfigStore.heldOf c (c.walked disk) := by
    have : projectFiles (session disk [c]) = _ := hfull
    rw [projectFiles, (stores?_toList hx).2.2] at this
    exact Option.some.inj this
  have horigin : x.tsconfigs.origin.isSome = true := by
    have : (x.tsconfigs.held (session disk [c]).2).1.isSome = true := by
      rw [hheld]
      exact TsConfigStore.isSome_heldOf c _
    exact this
  have hready : x.tsconfigs.isInitialized ctx = true := by
    refine (TsConfigStore.isInitialized_settled hctx _).mpr ⟨horigin, ?_⟩
    obtain hnew | ⟨c', rfl, -, -, hkey, -⟩ := hkept.content
    · simp [hnew] at horigin
    · rw [hkey, keyFor, htext]
      rfl
  obtain ⟨hres, hstores, hdisk⟩ := discover_stores hx ctx (session disk [c]).2
  obtain ⟨hsame, hdisk'⟩ := (Stores.discover_tsconfigs ctx x (session disk [c]).2).1 hready
  refine ⟨exists_ok_of_map (hres.trans ?_), ?_⟩
  · rw [← (hctx.apart _ hkept.littered).1] at hbase
    exact (Stores.discover_of_isDir hbase rfl rfl hready rfl).1
  · rw [hfull, projectFiles, (stores?_toList hstores).2.2, hdisk, hsame, hdisk']
    exact congrArg some hheld

theorem projectFiles_alike (hshelves : disk.Shelves) (hc : c.Settled disk)
    (hctx : ctx.Settled disk) (halike : TsConfigStore.Alike c ctx) (hp : TsConfigStore.Plain c)
    (hp' : TsConfigStore.Plain ctx) (htext : keyText c = keyText ctx)
    (hok : (discover c standard disk).1 = .ok outcome) :
    projectFiles (discover c standard disk).2 = projectFiles (discover ctx standard disk).2 := by
  have hbase := TsConfigStore.baseDir_of_keyText hc.named hctx.named htext
  have hpaths := TsConfigStore.tsConfigPaths_of_keyText hc.named hctx.named hp hp' htext
  have hwalked := halike.walked hbase disk
  obtain ⟨hdir, hscan⟩ := (discover_standard_ok c disk).mp ⟨_, hok⟩
  have hscan' : (scan ctx disk).1 = .ok () := by
    rw [TsConfigStore.scan_ok_iff_isOk, halike.wanted? hbase hpaths, hwalked] at hscan
    exact TsConfigStore.scan_ok_iff_isOk.mpr hscan
  obtain ⟨outcome', hok'⟩ := (discover_standard_ok ctx disk).mpr ⟨hbase ▸ hdir, hscan'⟩
  rw [projectFiles_standard hshelves hc hok, projectFiles_standard hshelves hctx hok',
    halike.heldOf hbase hpaths, hwalked]

/-- For any contexts that were asked for before, a set shows after a successful discovery what a new set
shows. -/
def ShowsFresh (disk : Disk) (P : DiscoveryContext → Prop) : Prop :=
  ∀ (history : List DiscoveryContext) (last : DiscoveryContext) (outcome : DiscoveryOutcome),
    (∀ c ∈ last :: history, P c) →
    (discover last (session disk history).1 (session disk history).2).1 = .ok outcome →
    projectFiles (discover last (session disk history).1 (session disk history).2).2 =
      projectFiles (discover last standard disk).2

/-- While nothing but temporary files comes and goes, reuse of project files is sound among some contexts just
if those with one key text lead to the same project files; they do if they differ in base directories and
configured paths only and no path holds a comma or a NUL character. -/
theorem projectFiles_reused_iff (disk : Disk) (P : DiscoveryContext → Prop) (hshelves : disk.Shelves)
    (hsettled : ∀ c, P c → c.Settled disk)
    (hinj : ∀ c c', P c → P c' → keyFor c = keyFor c' → keyText c = keyText c') :
    (∀ (history : List DiscoveryContext) (last : DiscoveryContext) (outcome : DiscoveryOutcome),
      (∀ c ∈ last :: history, P c) →
      (discover last (session disk history).1 (session disk history).2).1 = .ok outcome →
      ∃ c ∈ last :: history, keyText c = keyText last ∧ (∃ o, (discover c standard disk).1 = .ok o) ∧
        projectFiles (discover last (session disk history).1 (session disk history).2).2 =
          projectFiles (discover c standard disk).2) ∧
    (ShowsFresh disk P ↔ ∀ c c', P c → P c' → keyText c = keyText c' → (∃ o, (discover c standard disk).1 = .ok o) →
      projectFiles (discover c standard disk).2 = projectFiles (discover c' standard disk).2) ∧
    ((∀ c c', P c → P c' → TsConfigStore.Alike c c') → (∀ c, P c → TsConfigStore.Plain c) → ShowsFresh disk P) := by
  refine (fun hearlier ↦ ⟨hearlier, (fun hiff ↦ ⟨hiff, fun halike hplain ↦ hiff.mpr ?alike⟩) ?fresh⟩) ?earlier
  case earlier =>
    intro history last outcome hall hok
    obtain ⟨c, hc, hkey, hbase, hscan, hheld⟩ := projectFiles_of_ok (P := (· ∈ last :: history)) hshelves
      history (fun c hc ↦ ⟨hc, hsettled c (hall c hc)⟩) hok
    obtain ⟨o, ho⟩ := (discover_standard_ok c disk).mpr ⟨hbase, hscan⟩
    refine ⟨c, hc, hinj c last (hall c hc) (hall last (.head _)) hkey, ⟨o, ho⟩, ?_⟩
    rw [hheld, projectFiles_standard hshelves (hsettled c (hall c hc)) ho]
  case fresh =>
    constructor
    · rintro hfresh c c' hc hc' htext ⟨o, ho⟩
      obtain ⟨⟨o', ho'⟩, hstay⟩ := projectFiles_stay hshelves (hsettled c hc) (hsettled c' hc') htext ho
      rw [← hstay]
      exact hfresh [c] c' o' (by simpa using ⟨hc', hc⟩) ho'
    · intro hsame history last outcome hall hok
      obtain ⟨c, hc, htext, hfull, hheld⟩ := hearlier history last outcome hall hok
      rw [hheld]
      exact hsame c last (hall c hc) (hall last mem_cons_self) htext hfull
  case alike =>
    rintro c c' hc hc' htext ⟨o, ho⟩
    exact projectFiles_alike hshelves (hsettled c hc) (hsettled c' hc') (halike c c' hc hc') (hplain c hc)
      (hplain c' hc') htext ho

end StoreSet

end Sessions

namespace StoreSet

section Shelf

variable (es fs : List (String × Node)) (made : Nat)

theorem temp_shelf : (shelf es fs made).temp = ⟨"/tmp"⟩ :=
  rfl

theorem get?_shelf (name : String) : (shelf es fs made).root.get? ["tmp", name] = fs.lookup name := by
  show (Node.dir fs).get? [name] = _
  rw [Node.get?_cons_dir]
  cases fs.lookup name <;> rfl

variable {es fs made}

section

variable (hfs : ∀ e ∈ fs, ∃ bytes, e.2 = .file bytes)

include hfs

theorem file_of_lookup {name : String} {n : Node} (h : fs.lookup name = some n) : ∃ bytes, n = .file bytes := by
  obtain ⟨before, after, rfl, -⟩ := lookup_eq_some_iff.mp h
  exact hfs (name, n) (by simp)

theorem writeTemp_shelf (bytes : ByteArray) :
    (shelf es fs made).writeTemp bytes = .ok ((shelf es fs made).temp.joinName (Disk.tempName made),
      shelf es (Node.insertEntry (Disk.tempName made) (.file bytes) fs) (made + 1)) := by
  have hwrite : (shelf es fs made).write ((shelf es fs made).temp.joinName (Disk.tempName made)) bytes =
      .ok (shelf es (Node.insertEntry (Disk.tempName made) (.file bytes) fs) made) := by
    rw [Disk.write, place_shelf]
    simp only [bind, Except.bind, get?_shelf]
    cases hlookup : fs.lookup (Disk.tempName made) with
    | none => rfl
    | some n =>
      obtain ⟨bytes', rfl⟩ := file_of_lookup hfs hlookup
      rfl
  rw [Disk.writeTemp, show (shelf es fs made).made = made from rfl]
  simp only [bind, Except.bind, hwrite]
  rfl

theorem removeFile_shelf (n : Nat) :
    (shelf es fs made).removeFile ((shelf es fs made).temp.joinName (Disk.tempName n)) =
      shelf es (Node.eraseEntry (Disk.tempName n) fs) made := by
  rw [Disk.removeFile, place_shelf]
  simp only [get?_shelf]
  cases hlookup : fs.lookup (Disk.tempName n) with
  | none => rfl
  | some n' =>
    obtain ⟨bytes', rfl⟩ := file_of_lookup hfs hlookup
    rfl

end

theorem littered_scratch {d : Disk} (h : (scratch es).Littered d) :
    ∃ fs made, d = shelf es fs made ∧ ∀ e ∈ fs, ∃ bytes, e.2 = .file bytes := by
  induction h with
  | same => exact ⟨[], 0, rfl, by simp⟩
  | write _ hwrite ih =>
    obtain ⟨fs, made, rfl, hfs⟩ := ih
    rw [writeTemp_shelf hfs] at hwrite
    obtain ⟨-, rfl⟩ := Prod.mk.inj (Except.ok.inj hwrite)
    refine ⟨_, _, rfl, fun e he ↦ ?_⟩
    rcases Node.mem_insertEntry he with rfl | he
    · exact ⟨_, rfl⟩
    · exact hfs e he
  | remove n _ ih =>
    obtain ⟨fs, made, rfl, hfs⟩ := ih
    exact ⟨_, made, removeFile_shelf hfs n, fun e he ↦ hfs e (mem_filter.mp he).1⟩

theorem isOk_writeTemp_shelf (hfs : ∀ e ∈ fs, ∃ bytes, e.2 = .file bytes) (bytes : ByteArray) :
    ((shelf es fs made).writeTemp bytes).isOk = true := by
  rw [writeTemp_shelf hfs]
  rfl

theorem shelves_scratch (es : List (String × Node)) : (scratch es).Shelves := by
  have hscratch : scratch es = shelf es [] 0 := rfl
  refine ⟨fun d hd bytes ↦ ?_, fun d hd bytes path d' hwrite ↦ ?_⟩
  · obtain ⟨fs, made, rfl, hfs⟩ := littered_scratch hd
    rw [isOk_writeTemp_shelf hfs, hscratch, isOk_writeTemp_shelf (by simp)]
  · obtain ⟨fs, made, rfl, hfs⟩ := littered_scratch hd
    rw [writeTemp_shelf hfs] at hwrite
    obtain ⟨rfl, rfl⟩ := Prod.mk.inj (Except.ok.inj hwrite)
    have hplace := place_shelf es (Node.insertEntry (Disk.tempName made) (.file bytes) fs) (made + 1) made
    rw [Disk.stored?, temp_shelf]
    rw [temp_shelf] at hplace
    rw [hplace]
    simp only [get?_shelf, Node.lookup_insertEntry]

theorem settled_scratch (htidy : Node.TidyEntries es) (hevents : ctx.config.fsEvents = [])
    (hbase : ctx.baseDir = ⟨"/p"⟩) : ctx.Settled (scratch es) := by
  refine ⟨hevents, by rw [hbase]; decide, fun d hd ↦ ?_⟩
  obtain ⟨fs, made, rfl, -⟩ := littered_scratch hd
  have hnode : (shelf es fs made).node ctx.baseDir = .ok (.dir es) := hbase ▸ node_shelf es fs made
  have hnode' : (scratch es).node ctx.baseDir = .ok (.dir es) := hbase ▸ node_scratch es
  exact ⟨by rw [Disk.isDir, Disk.isDir, hnode, hnode'], by rw [walked_eq hnode htidy, walked_eq hnode' htidy]⟩

theorem ok_of_scratch (hbase : ctx.baseDir = ⟨"/p"⟩) (es : List (String × Node)) :
    ∃ outcome, (discover ctx standard (scratch es)).1 = .ok outcome := by
  refine (discover_standard_ok ctx (scratch es)).mpr ⟨?_, ?_⟩
  · rw [hbase, Disk.isDir, node_scratch]
    rfl
  · exact (scan_spec ctx (scratch es)).2 (spare_scratch es).writes

end Shelf

def listing (exclusions : List String) : DiscoveryContext :=
  { baseDir := ⟨"/p"⟩, config := { exclusions } }

/-- The only script is excluded by neither of the contexts. -/
theorem projectFiles_reused_iff_listing :
    (∃ o, (discover (listing ["b.js"]) (session (scratch (flat oneScriptFile)) [listing []]).1
      (session (scratch (flat oneScriptFile)) [listing []]).2).1 = .ok o) ∧
    projectFiles (discover (listing ["b.js"]) (session (scratch (flat oneScriptFile)) [listing []]).1
        (session (scratch (flat oneScriptFile)) [listing []]).2).2 =
      projectFiles (discover (listing ["b.js"]) standard (scratch (flat oneScriptFile))).2 ∧
    ShowsFresh (scratch (flat oneScriptFile)) (fun c ↦ c = listing [] ∨ c = listing ["b.js"]) := by
  have htidy : Node.TidyEntries (flat oneScriptFile) := tidy_flat (by decide) (by decide)
  have hsettled (exclusions : List String) : (listing exclusions).Settled (scratch (flat oneScriptFile)) :=
    settled_scratch htidy rfl rfl
  have hok (exclusions : List String) :
      ∃ o, (discover (listing exclusions) standard (scratch (flat oneScriptFile))).1 = .ok o :=
    ok_of_scratch rfl _
  have hsame : projectFiles (discover (listing []) standard (scratch (flat oneScriptFile))).2 =
      projectFiles (discover (listing ["b.js"]) standard (scratch (flat oneScriptFile))).2 := by
    obtain ⟨o, ho⟩ := hok []
    obtain ⟨o', ho'⟩ := hok ["b.js"]
    rw [projectFiles_standard (shelves_scratch _) (hsettled _) ho,
      projectFiles_standard (shelves_scratch _) (hsettled _) ho', walked_eq (node_scratch _) htidy,
      walked_eq (node_scratch _) htidy]
    decide +kernel
  have hfresh : ShowsFresh (scratch (flat oneScriptFile)) fun c ↦ c = listing [] ∨ c = listing ["b.js"] := by
    refine (projectFiles_reused_iff _ _ (shelves_scratch _) ?_ ?_).2.1.mpr ?_
    · rintro c (rfl | rfl) <;> exact hsettled _
    · rintro c c' (rfl | rfl) (rfl | rfl) _ <;> rfl
    · rintro c c' (rfl | rfl) (rfl | rfl) _ _
      · rfl
      · exact hsame
      · exact hsame.symm
      · rfl
  obtain ⟨o, ho⟩ := hok []
  obtain ⟨⟨o', ho'⟩, -⟩ := projectFiles_stay (shelves_scratch _) (hsettled []) (hsettled ["b.js"]) rfl ho
  exact ⟨⟨o', ho'⟩, hfresh [listing []] (listing ["b.js"]) o' (by simp) ho', hfresh⟩

theorem excluded_projectFile_stays : (∃ o, (discover (excluding ["tsconfig.json"])
      (session (scratch (flat [("tsconfig.json", "{}".toUTF8)])) [excluding []]).1
      (session (scratch (flat [("tsconfig.json", "{}".toUTF8)])) [excluding []]).2).1 = .ok o) ∧
    projectFiles (discover (excluding ["tsconfig.json"])
        (session (scratch (flat [("tsconfig.json", "{}".toUTF8)])) [excluding []]).1
        (session (scratch (flat [("tsconfig.json", "{}".toUTF8)])) [excluding []]).2).2 =
      some (some .lookup, [.inl ⟨"/p/tsconfig.json"⟩]) ∧
    projectFiles (discover (excluding ["tsconfig.json"]) standard
        (scratch (flat [("tsconfig.json", "{}".toUTF8)]))).2 =
      some (some .fallback, []) := by
  have htidy : Node.TidyEntries (flat [("tsconfig.json", "{}".toUTF8)]) := tidy_flat (by decide) (by decide)
  have hsettled (exclusions : List String) :
      (excluding exclusions).Settled (scratch (flat [("tsconfig.json", "{}".toUTF8)])) :=
    settled_scratch htidy rfl rfl
  obtain ⟨o, ho⟩ := ok_of_scratch (show (excluding []).baseDir = ⟨"/p"⟩ from rfl)
    (flat [("tsconfig.json", "{}".toUTF8)])
  obtain ⟨o', ho'⟩ := ok_of_scratch (show (excluding ["tsconfig.json"]).baseDir = ⟨"/p"⟩ from rfl)
    (flat [("tsconfig.json", "{}".toUTF8)])
  obtain ⟨hdone, hstay⟩ := projectFiles_stay (shelves_scratch _) (hsettled []) (hsettled ["tsconfig.json"]) rfl ho
  refine ⟨hdone, hstay.trans ?_, ?_⟩
  · rw [projectFiles_standard (shelves_scratch _) (hsettled _) ho, walked_eq (node_scratch _) htidy]
    decide +kernel
  · rw [projectFiles_standard (shelves_scratch _) (hsettled _) ho', walked_eq (node_scratch _) htidy]
    decide +kernel

end StoreSet

end AnalysisServer
