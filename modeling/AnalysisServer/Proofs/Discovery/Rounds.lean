import AnalysisServer.Discovery.Standard
import AnalysisServer.Proofs.Discovery.Tours

namespace AnalysisServer

def Walk.Event.file? : Walk.Event → Option Path
  | .file path => some path
  | .directory _ => none

def DiscoveryContext.walked (ctx : DiscoveryContext) (disk : Disk) : List Path :=
  (Walk.walk disk ctx.baseDir ctx.config.exclusionPatterns).events.filterMap Walk.Event.file?

section Feeding

variable (ctx : DiscoveryContext) (disk : Disk) (paths : List Path)

def SourceStore.fed (s : SourceStore) : SourceStore :=
  paths.foldl (fun s path ↦ s.processFile ctx disk path) s

def PackageStore.fed (s : PackageStore) : PackageStore :=
  paths.foldl (fun s path ↦ s.processFile disk path) s

def TsConfigStore.fed (s : TsConfigStore) : TsConfigStore :=
  paths.foldl (fun s path ↦ s.processFile ctx path) s

end Feeding

structure Stores where
  sources : SourceStore := {}
  packages : PackageStore := {}
  tsconfigs : TsConfigStore := {}

namespace Stores

def toList (x : Stores) : List StandardStore :=
  [.sources x.sources, .packages x.packages, .tsconfigs x.tsconfigs]

def marked (x : Stores) (a b c : Bool) : List (StoreSet.Marked StandardStore) :=
  [(.sources x.sources, a), (.packages x.packages, b), (.tsconfigs x.tsconfigs, c)]

end Stores

variable [Digest]

namespace StoreSet

variable (ctx : DiscoveryContext) (disk : Disk) (x : Stores) (a b c : Bool)

def fed (events : List Walk.Event) : Stores where
  sources := if a then x.sources.fed ctx disk (events.filterMap Walk.Event.file?) else x.sources
  packages := if b then x.packages.fed disk (events.filterMap Walk.Event.file?) else x.packages
  tsconfigs := if c then x.tsconfigs.fed ctx (events.filterMap Walk.Event.file?) else x.tsconfigs

theorem feed_marked (events : List Walk.Event) (event : Walk.Event) :
    eachPending (feed ctx event) ((fed ctx disk x a b c events).marked a b c) disk =
      ((fed ctx disk x a b c (events ++ [event])).marked a b c, disk) := by
  simp only [fed, List.filterMap_append, SourceStore.fed, PackageStore.fed, TsConfigStore.fed, List.foldl_append]
  cases event <;> cases a <;> cases b <;> cases c <;> rfl

/-- No store touches the disk when it is told an entry, so the walk is that of the disk as it is. -/
theorem walk_marked : (visitor ctx).walk ctx.baseDir ctx.config.exclusionPatterns (x.marked a b c, disk) =
    ((Walk.walk disk ctx.baseDir ctx.config.exclusionPatterns).summary,
      (fed ctx disk x a b c (Walk.walk disk ctx.baseDir ctx.config.exclusionPatterns).events).marked a b c, disk) := by
  have halike : (visitor ctx).Alike (Walk.recorder disk) ctx.baseDir fun y events ↦
      y = ((fed ctx disk x a b c events).marked a b c, disk) := by
    constructor
    · rintro _ events rfl names
      rfl
    · rintro event _ events rfl
      exact feed_marked ctx disk x a b c events event
  have hstart : (x.marked a b c, disk) = ((fed ctx disk x a b c []).marked a b c, disk) := by
    cases a <;> cases b <;> cases c <;> rfl
  obtain ⟨hsummary, hfed⟩ := halike.walk ctx.config.exclusionPatterns hstart
  exact Prod.ext hsummary hfed

end StoreSet

def SourceStore.scan (ctx : DiscoveryContext) (disk : Disk) : SourceStore :=
  (fed ctx disk (ctx.walked disk) {}).postProcess ctx

def PackageStore.scan (ctx : DiscoveryContext) (disk : Disk) : PackageStore :=
  (fed disk (ctx.walked disk) (setup ctx {})).postProcess ctx

def TsConfigStore.scan (ctx : DiscoveryContext) (disk : Disk) :
    Except AnalysisError Unit × TsConfigStore × Disk :=
  (fed ctx (ctx.walked disk) {}).postProcess ctx disk

namespace Stores

def discover (ctx : DiscoveryContext) (x : Stores) (disk : Disk) :
    Except AnalysisError Unit × Stores × Disk :=
  let s := x.sources.isInitialized ctx
  let packagesReady := x.packages.isInitialized ctx
  let tsconfigsReady := x.tsconfigs.isInitialized ctx
  if s.1 && packagesReady && tsconfigsReady then (.ok (), { x with sources := s.2 }, disk)
  else if !disk.isDir ctx.baseDir then
    (.error (StoreSet.missingBase ctx), { x with sources := s.2 }, disk)
  else
    let disk := if tsconfigsReady then disk else (x.tsconfigs.setup disk).2
    let t := if tsconfigsReady then (.ok (), x.tsconfigs, disk) else TsConfigStore.scan ctx disk
    (t.1,
      { sources := if s.1 then s.2 else .scan ctx disk
        packages := if packagesReady then x.packages else .scan ctx disk
        tsconfigs := t.2.1 },
      t.2.2)

theorem discover_of_isDir {ctx : DiscoveryContext} {x : Stores} {disk : Disk}
    (h : disk.isDir ctx.baseDir = true) {s : SourceStore} {a b c : Bool}
    (ha : x.sources.isInitialized ctx = (a, s)) (hb : x.packages.isInitialized ctx = b)
    (hc : x.tsconfigs.isInitialized ctx = c) {walked : Disk}
    (hwalked : (if c then disk else (x.tsconfigs.setup disk).2) = walked) :
    (x.discover ctx disk).1 = (if c then .ok () else (TsConfigStore.scan ctx walked).1) ∧
    (x.discover ctx disk).2.1 =
      { sources := if a then s else .scan ctx walked
        packages := if b then x.packages else .scan ctx walked
        tsconfigs := if c then x.tsconfigs else (TsConfigStore.scan ctx walked).2.1 } := by
  simp only [discover, ha, hb, hc, h, hwalked]
  cases a <;> cases b <;> cases c <;> exact ⟨rfl, rfl⟩

end Stores

namespace StoreSet

variable (ctx : DiscoveryContext) (disk : Disk)

theorem mark_toList (x : Stores) : mark ctx x.toList disk =
      (Stores.marked { x with sources := (x.sources.isInitialized ctx).2 }
        (!(x.sources.isInitialized ctx).1) (!x.packages.isInitialized ctx) (!x.tsconfigs.isInitialized ctx),
        disk) :=
  rfl

theorem setup_marked (x : Stores) (a b c : Bool) : tryPending (FileStore.setup ctx) (x.marked a b c) disk =
      (.ok (),
        Stores.marked
          { sources := if a then {} else x.sources
            packages := if b then .setup ctx {} else x.packages
            tsconfigs := if c then {} else x.tsconfigs } a b c,
        if c then (x.tsconfigs.setup disk).2 else disk) := by
  cases a <;> cases b <;> cases c <;> rfl

theorem postProcess_marked (x : Stores) (a b c : Bool) :
    tryPending (FileStore.postProcess ctx) (x.marked a b c) disk =
      ((if c then x.tsconfigs.postProcess ctx disk else (.ok (), x.tsconfigs, disk)).1,
        Stores.marked
          { sources := if a then x.sources.postProcess ctx else x.sources
            packages := if b then x.packages.postProcess ctx else x.packages
            tsconfigs := (if c then x.tsconfigs.postProcess ctx disk else (.ok (), x.tsconfigs, disk)).2.1 }
          a b c,
        (if c then x.tsconfigs.postProcess ctx disk else (.ok (), x.tsconfigs, disk)).2.2) := by
  cases c with
  | false => cases a <;> cases b <;> rfl
  | true =>
    obtain ⟨⟨r, t, d⟩, hp⟩ : ∃ t, x.tsconfigs.postProcess ctx disk = t := ⟨_, rfl⟩
    cases r <;> cases a <;> cases b <;>
      simp [Stores.marked, tryPending, FileStore.postProcess, StandardStore.postProcess, HasDisk.disk,
        HasDisk.setDisk, hp]

theorem discover_toList (x : Stores) (walks : Nat) :
    ((discover ctx ⟨x.toList, walks⟩ disk).1.map fun _ ↦ ()) = (x.discover ctx disk).1 ∧
    (discover ctx ⟨x.toList, walks⟩ disk).2.1.stores = (x.discover ctx disk).2.1.toList ∧
    (discover ctx ⟨x.toList, walks⟩ disk).2.2 = (x.discover ctx disk).2.2 := by
  simp only [discover, mark_toList, setup_marked, walk_marked, fed, postProcess_marked, Stores.discover]
  obtain ⟨a, ha⟩ : ∃ a, (x.sources.isInitialized ctx).1 = a := ⟨_, rfl⟩
  obtain ⟨b, hb⟩ : ∃ b, x.packages.isInitialized ctx = b := ⟨_, rfl⟩
  obtain ⟨c, hc⟩ : ∃ c, x.tsconfigs.isInitialized ctx = c := ⟨_, rfl⟩
  have hall : (Stores.marked { x with sources := (x.sources.isInitialized ctx).2 } (!a) (!b) (!c)).all
      (fun s ↦ !s.2) = (a && b && c) := by
    cases a <;> cases b <;> cases c <;> rfl
  have hdisk (d : Disk) : HasDisk.disk d = d := rfl
  simp only [ha, hb, hc, hall, hdisk]
  split
  · exact ⟨rfl, rfl, rfl⟩
  · split
    · exact ⟨rfl, rfl, rfl⟩
    · cases c with
      | true => cases a <;> cases b <;> exact ⟨rfl, rfl, rfl⟩
      | false =>
        obtain ⟨⟨r, t, d⟩, ht⟩ : ∃ t, TsConfigStore.scan ctx (x.tsconfigs.setup disk).2 = t := ⟨_, rfl⟩
        have hpost := ht
        rw [TsConfigStore.scan, DiscoveryContext.walked] at hpost
        simp only [Bool.not_false, Bool.false_eq_true, if_true, if_false, hpost, ht]
        cases r <;> cases a <;> cases b <;> exact ⟨rfl, rfl, rfl⟩

theorem discover_stores {x : Stores} {set : StoreSet StandardStore} (hx : set.stores = x.toList)
    (ctx : DiscoveryContext) (d : Disk) :
    ((discover ctx set d).1.map fun _ ↦ ()) = (x.discover ctx d).1 ∧
    (discover ctx set d).2.1.stores = (x.discover ctx d).2.1.toList ∧
    (discover ctx set d).2.2 = (x.discover ctx d).2.2 := by
  have hset : set = ⟨x.toList, set.walks⟩ := by rw [← hx]
  rw [hset]
  exact discover_toList ctx d x set.walks

end StoreSet

end AnalysisServer
