import AnalysisServer.Proofs.Path.Ancestors
import AnalysisServer.Proofs.Project.RootFiles
import AnalysisServer.Proofs.Session.Stores

namespace AnalysisServer

open List

open AnalysisServer.Path (IsName)

section Tidiness

namespace Node

variable {es : List (String × Node)} {s : String} {n : Node}

theorem TidyEntries.insertEntry (h : TidyEntries es) (hs : IsName s) (hn : n.Tidy) :
    TidyEntries (Node.insertEntry s n es) := by
  induction es with
  | nil => exact ⟨hs, hn, by simp, trivial⟩
  | cons e es ih =>
    obtain ⟨s', m⟩ := e
    obtain ⟨hs', hm, hlt, hes⟩ := h
    rw [Node.insertEntry]
    split
    · rename_i hbefore
      refine ⟨hs, hn, forall_mem_cons.mpr ⟨hbefore, fun e he ↦ ?_⟩, hs', hm, hlt, hes⟩
      exact Std.lt_trans hbefore (hlt e he)
    · rename_i hbefore
      split
      · rename_i heq
        subst heq
        exact ⟨hs, hn, hlt, hes⟩
      · rename_i hne
        refine ⟨hs', hm, fun e he ↦ ?_, ih hes⟩
        obtain rfl | he := mem_insertEntry he
        · exact Std.lt_of_le_of_ne (Std.not_lt.mp hbefore) (Ne.symm hne)
        · exact hlt e he

theorem TidyEntries.eraseEntry (h : TidyEntries es) (s : String) : TidyEntries (Node.eraseEntry s es) := by
  induction es with
  | nil => exact h
  | cons e es ih =>
    obtain ⟨hs', hm, hlt, hes⟩ := h
    rw [Node.eraseEntry, filter_cons]
    split
    · exact ⟨hs', hm, fun e he ↦ hlt e (mem_filter.mp he).1, ih hes⟩
    · exact ih hes

theorem Tidy.remove (h : n.Tidy) (x : Location) : (Node.remove x n).Tidy := by
  induction x generalizing n with
  | nil => trivial
  | cons s rest ih =>
    cases n with
    | dir es =>
      cases rest with
      | nil => exact TidyEntries.eraseEntry h s
      | cons s' rest =>
        cases hes : es.lookup s with
        | none => simpa only [Node.remove, hes] using h
        | some c =>
          obtain ⟨hs, hc⟩ := tidy_of_lookup h hes
          rw [remove_cons_dir (cons_ne_nil _ _) hes]
          exact TidyEntries.insertEntry h hs (ih hc)
    | _ => cases rest <;> exact h

end Node

theorem Disk.tidy_removeFile {d : Disk} (h : d.root.Tidy) (p : Path) : (d.removeFile p).root.Tidy := by
  rw [removeFile]
  split
  · exact h
  · split
    · exact h
    · exact h.remove _

end Tidiness

namespace PackageStore

variable {s : PackageStore} {ctx : DiscoveryContext} {disk : Disk} {base dir file path : Path} {m : Package}

/-- Manifests are in different directories, and the absolute ones of these are at or below the base directory. -/
structure Based (s : PackageStore) : Prop where
  ascending : PathMap.Ascending s.packages
  below : ∀ dir ∈ PathMap.keys s.packages, dir.isAbsolute = true →
    ∃ base, s.baseDir = some base ∧ base.components <+: dir.components

def IsBelow (base path : Path) : Prop :=
  base.text.isEmpty = false ∧ ∃ names, names ≠ [] ∧ (∀ s ∈ names, IsName s) ∧ path = Walk.pathBelow base names

theorem isBelow_of_mem_walked (htidy : disk.root.Tidy) (h : path ∈ ctx.walked disk) : IsBelow ctx.baseDir path := by
  by_cases hdir : ∃ es, disk.node ctx.baseDir = .ok (.dir es)
  · obtain ⟨es, hnode⟩ := hdir
    obtain ⟨here, hlocate, -⟩ := Disk.exists_locate hnode
    have hes := Disk.tidy_of_node htidy hnode
    rw [walked_eq hnode hes] at h
    obtain ⟨names, hnames, rfl⟩ := mem_map.mp h
    obtain ⟨hne, bytes, hfile⟩ := fileAt?_of_mem_reported hes hnames
    exact ⟨(Disk.follow_of_locate hlocate).1, names, hne,
      Node.isName_of_tidy (n := .dir es) hes (Node.get?_of_fileAt? hfile), rfl⟩
  · have hnone : ctx.walked disk = [] := congrArg (List.filterMap Walk.Event.file?)
      (Walk.Visitor.walk_idle (v := Walk.recorder disk) ctx.config.exclusionPatterns (.inr fun es hes ↦ hdir ⟨es, hes⟩))
    rw [hnone] at h
    cases h

theorem IsBelow.parent? (h : IsBelow base path) (hparent : path.parent? = some dir) (hdir : dir.isAbsolute = true) :
    base.components <+: dir.components := by
  obtain ⟨hbase, names, hne, hnames, rfl⟩ := h
  obtain ⟨-, -, -, hcomponents, -⟩ := below_pathBelow hbase hnames
  have hpath := Path.isAbsolute_of_parent? hparent hdir
  obtain ⟨hnone, -⟩ | ⟨q, c, hsome, -, hlast⟩ := Path.parent?_of_isAbsolute hpath
  · rw [hnone] at hparent
    cases hparent
  · obtain rfl : q = dir := Option.some.inj (hsome.symm.trans hparent)
    rw [hlast, ← dropLast_append_getLast (l := names.map Component.name) (by simpa using hne),
      ← append_assoc] at hcomponents
    exact (append_inj_left' hcomponents rfl) ▸ prefix_append _ _

theorem baseDir_processFile (disk : Disk) (path : Path) (s : PackageStore) :
    (s.processFile disk path).baseDir = s.baseDir := by
  unfold processFile
  split
  · split <;> rfl
  · rfl

theorem Based.processFile (h : s.Based) (hbase : s.baseDir = some base) (hpath : IsBelow base path) (disk : Disk) :
    (s.processFile disk path).Based := by
  unfold PackageStore.processFile
  split
  · split
    · rename_i m dir _ hparent
      refine ⟨h.ascending.insert _ _, fun dir' hdir' habsolute ↦ ?_⟩
      obtain rfl | hdir' := PathMap.keys_insert_subset hdir'
      · exact ⟨base, hbase, hpath.parent? hparent habsolute⟩
      · exact h.below dir' hdir' habsolute
    · exact h
  · exact h

theorem Based.fed (h : s.Based) (hbase : s.baseDir = some base) {paths : List Path}
    (hpaths : ∀ path ∈ paths, IsBelow base path) (disk : Disk) : (s.fed disk paths).Based := by
  induction paths generalizing s with
  | nil => exact h
  | cons path paths ih =>
    obtain ⟨hpath, hpaths⟩ := forall_mem_cons.mp hpaths
    exact ih (h.processFile hbase hpath disk) ((baseDir_processFile disk path s).trans hbase) hpaths

theorem based_setup (ctx : DiscoveryContext) (s : PackageStore) : (s.setup ctx).Based :=
  ⟨.nil, by simp [setup, PathMap.keys]⟩

theorem based_scan [Digest] (htidy : disk.root.Tidy) : (scan ctx disk).Based := by
  obtain ⟨hascending, hbelow⟩ :=
    (based_setup ctx {}).fed rfl (fun path hpath ↦ isBelow_of_mem_walked htidy hpath) disk
  exact ⟨hascending, hbelow⟩

section Lookup

theorem get?_packages (h : s.Based) (hmem : (dir, m) ∈ s.packages) {q : Path} (hq : q.components = dir.components) :
    PathMap.get? q s.packages = some m := by
  have hget := PathMap.get?_of_mem (h.ascending.imp PathMap.not_same_of_order) hmem
  have hsame : (fun e : Path × Package ↦ e.1.same q) = fun e ↦ e.1.same dir := by
    simp only [Path.same, hq]
  rwa [PathMap.get?, hsame]

theorem mem_of_get? {q : Path} (h : PathMap.get? q s.packages = some m) :
    ∃ dir, (dir, m) ∈ s.packages ∧ q.components = dir.components := by
  obtain ⟨⟨dir, m'⟩, hfind, rfl⟩ := Option.map_eq_some_iff.mp h
  have hsame := List.find?_some hfind
  dsimp only at hsame
  exact ⟨dir, mem_of_find?_eq_some hfind, (Path.same_iff.mp hsame).symm⟩

theorem mem_ascendingNames {name : String} {names : List String} : name ∈ ascendingNames names ↔ name ∈ names := by
  have hinsert (n : String) (ns : List String) : name ∈ insertName n ns ↔ name = n ∨ name ∈ ns := by
    induction ns with
    | nil => simp [insertName]
    | cons m ms ih =>
      rw [insertName]
      split
      · exact mem_cons
      · split
        · simp_all
        · rw [mem_cons, ih, mem_cons, or_left_comm]
  have hfold (acc : List String) :
      name ∈ names.foldl (fun acc n ↦ insertName n acc) acc ↔ name ∈ names ∨ name ∈ acc := by
    induction names generalizing acc with
    | nil => simp
    | cons n ns ih => rw [foldl_cons, ih, hinsert, mem_cons, or_left_comm, or_assoc]
  rw [ascendingNames, hfold, or_iff_left not_mem_nil]

theorem mem_searched (hfile : file.isAbsolute = true) {q : Path} (hq : q ∈ file.ancestors)
    (hbase : ∀ base, s.baseDir = some base → base.components <+: q.components) : q ∈ s.searched file := by
  unfold searched
  dsimp only
  split
  · rename_i i hi
    obtain ⟨hlt, hany, -⟩ := List.findIdx?_eq_some_iff_getElem.mp hi
    obtain ⟨j, hj, rfl⟩ := mem_iff_getElem.mp hq
    cases hsome : s.baseDir with
    | none =>
      rw [hsome] at hany
      cases hany
    | some base =>
      rw [hsome, Option.any_some] at hany
      have hstop := congrArg List.length (Path.same_iff.mp hany)
      have hlength := (hbase base hsome).length_le
      have hle : j ≤ i := by
        refine Nat.le_of_not_lt fun hij ↦ ?_
        have habove := pairwise_iff_getElem.mp (Path.pairwise_ancestorsUpTo hfile) i j hlt hj hij
        have := habove.length_lt
        simp only [Path.ancestors] at hstop hlength
        omega
      exact mem_take_iff_getElem.mpr ⟨j, by omega, rfl⟩
  · exact hq

theorem Based.exists_base (h : s.Based) (hmem : (dir, m) ∈ s.packages) (hfile : file.isAbsolute = true)
    (hdir : dir.IsAbove file) : ∃ base, s.baseDir = some base ∧ base.components <+: dir.components := by
  refine h.below dir (mem_map_of_mem hmem) (Path.isAbsolute_of_head? ?_)
  obtain ⟨c, cs, hcs⟩ := exists_cons_of_ne_nil hdir.1
  obtain ⟨more, hmore⟩ := hdir.2.1
  have hhead := Path.head?_components hfile
  rw [← hmore, hcs] at hhead
  rw [hcs]
  exact hhead

theorem mem_dependenciesFor (h : s.Based) (hfile : file.isAbsolute = true) (name : String) :
    name ∈ s.dependenciesFor file ↔ ∃ dir m, (dir, m) ∈ s.packages ∧ dir.IsAbove file ∧ name ∈ m.dependencies := by
  rw [dependenciesFor, mem_ascendingNames, mem_flatMap]
  constructor
  · rintro ⟨q, hq, hname⟩
    have hq : q ∈ file.ancestors := by
      unfold searched at hq
      dsimp only at hq
      split at hq
      · exact mem_of_mem_take hq
      · exact hq
    split at hname
    · rename_i m hm
      obtain ⟨dir, hmem, hcomponents⟩ := mem_of_get? hm
      exact ⟨dir, m, hmem, (Path.isAbove_iff hfile).mpr ⟨q, hq, hcomponents⟩, hname⟩
    · cases hname
  · rintro ⟨dir, m, hmem, hdir, hname⟩
    obtain ⟨q, hq, hcomponents⟩ := (Path.isAbove_iff hfile).mp hdir
    obtain ⟨base, hbase, hbelow⟩ := h.exists_base hmem hfile hdir
    refine ⟨q, mem_searched hfile hq fun base' hbase' ↦ ?_, ?_⟩
    · obtain rfl : base = base' := Option.some.inj (hbase.symm.trans hbase')
      rwa [hcomponents]
    · rwa [get?_packages h hmem hcomponents]

theorem mem_of_nearest? (hfile : file.isAbsolute = true) (h : s.nearest? file = some m) :
    ∃ dir, (dir, m) ∈ s.packages ∧ dir.IsAbove file := by
  obtain ⟨q, hq, hm⟩ := exists_of_findSome?_eq_some h
  obtain ⟨dir, hmem, hcomponents⟩ := mem_of_get? hm
  exact ⟨dir, hmem, (Path.isAbove_iff hfile).mpr ⟨q, hq, hcomponents⟩⟩

end Lookup

end PackageStore

section Discoveries

variable [Digest]

/-- The stores of a session after discoveries, from different directories and on disks that have changed meanwhile, and
after releases. -/
inductive StoreSet.Discovered : StoreSet StandardStore → Prop
  | new : Discovered .standard
  | discover {set : StoreSet StandardStore} (h : Discovered set) (ctx : DiscoveryContext) {disk : Disk}
      (htidy : disk.root.Tidy) : Discovered (StoreSet.discover ctx set disk).2.1
  | clear {set : StoreSet StandardStore} (h : Discovered set) (ctx : DiscoveryContext) (disk : Disk) :
      Discovered (StoreSet.clear ctx set disk).2.1

theorem Stores.based_discover {ctx : DiscoveryContext} {x : Stores} {disk : Disk} (htidy : disk.root.Tidy)
    (h : x.packages.Based) : (x.discover ctx disk).2.1.packages.Based := by
  have hsetup : (x.tsconfigs.setup disk).2.root.Tidy := by
    unfold TsConfigStore.setup
    cases x.tsconfigs.fallback with
    | none => exact htidy
    | some p => exact Disk.tidy_removeFile htidy p
  unfold discover
  dsimp only
  split
  · exact h
  split
  · exact h
  dsimp only
  split
  · exact h
  · split
    · exact PackageStore.based_scan htidy
    · exact PackageStore.based_scan hsetup

theorem StoreSet.Discovered.based {set : StoreSet StandardStore} (h : set.Discovered) :
    ∃ x : Stores, set.stores = x.toList ∧ x.packages.Based := by
  induction h with
  | new => exact ⟨{}, rfl, .nil, by simp [PathMap.keys]⟩
  | @discover set _ ctx disk htidy ih =>
    obtain ⟨x, hx, hbased⟩ := ih
    obtain ⟨stores, walks⟩ := set
    subst hx
    exact ⟨_, (discover_toList ctx disk x walks).2.1, Stores.based_discover htidy hbased⟩
  | clear _ ctx disk ih =>
    obtain ⟨x, hx, -⟩ := ih
    exact ⟨_, (clear_stores hx ctx disk).1, PackageStore.based_setup ctx {}⟩

/-- A file sees the dependencies of the manifests that are recorded in directories above it, those of the nearest one
among them, and none from outside the base directory. -/
theorem dependencies_visible {set : StoreSet StandardStore} (h : set.Discovered) {s : PackageStore}
    (hs : set.packages? = some s) {file : Path} (hfile : file.isAbsolute = true) :
    (∀ name, name ∈ s.dependenciesFor file ↔
      ∃ dir m, (dir, m) ∈ s.packages ∧ dir.IsAbove file ∧ name ∈ m.dependencies) ∧
    (∀ m, s.nearest? file = some m → m.dependencies ⊆ s.dependenciesFor file) ∧
    (s.baseDir.any file.startsWith = false → s.dependenciesFor file = [] ∧ s.nearest? file = none) := by
  obtain ⟨x, hx, hbased⟩ := h.based
  obtain rfl : x.packages = s := by
    rw [StoreSet.packages?, hx] at hs
    exact Option.some.inj hs
  have hmem := PackageStore.mem_dependenciesFor hbased hfile
  refine ⟨hmem, fun m hm name hname ↦ ?_, fun houtside ↦ ?_⟩
  · obtain ⟨dir, hdir, habove⟩ := PackageStore.mem_of_nearest? hfile hm
    exact (hmem name).mpr ⟨dir, m, hdir, habove, hname⟩
  · have hnone {dir : Path} {m : Package} (hdir : (dir, m) ∈ x.packages.packages) : ¬ dir.IsAbove file := by
      intro habove
      obtain ⟨base, hbase, hbelow⟩ := hbased.exists_base hdir hfile habove
      rw [hbase, Option.any_some, Path.startsWith, Bool.eq_false_iff] at houtside
      exact houtside (List.isPrefixOf_iff_prefix.mpr (hbelow.trans habove.2.1))
    refine ⟨eq_nil_iff_forall_not_mem.mpr fun name hname ↦ ?_, Option.eq_none_iff_forall_ne_some.mpr fun m hm ↦ ?_⟩
    · obtain ⟨dir, m, hdir, habove, -⟩ := (hmem name).mp hname
      exact hnone hdir habove
    · obtain ⟨dir, hdir, habove⟩ := PackageStore.mem_of_nearest? hfile hm
      exact hnone hdir habove

end Discoveries

def nestedPackages : Disk :=
  { root := .dir [("p", .dir [("package.json", .file "\x7b\"dependencies\":\x7b\"a\":\"1\"\x7d\x7d".toUTF8),
      ("q", .dir [("package.json", .file "\x7b\"dependencies\":\x7b\"b\":\"1\"\x7d\x7d".toUTF8)])])] }

theorem dependencies_visible_nested : let _ : Digest := sizeDigest
    ∃ set s, StoreSet.Discovered set ∧ set.packages? = some s ∧ Path.isAbsolute ⟨"/p/q/x.js"⟩ = true ∧
      s.dependenciesFor ⟨"/p/q/x.js"⟩ = ["a", "b"] ∧
      ∃ dir m, (dir, m) ∈ s.packages ∧ dir.IsAbove ⟨"/p/q/x.js"⟩ ∧ "b" ∈ m.dependencies := by
  intro _
  have htidy : nestedPackages.root.Tidy := by
    simp only [nestedPackages, Node.Tidy, Node.TidyEntries]
    decide
  have hset := StoreSet.Discovered.new.discover { baseDir := ⟨"/p"⟩, config := {} } htidy
  have hevaluated : ((StoreSet.discover { baseDir := ⟨"/p"⟩, config := {} } .standard nestedPackages).2.1.packages?.map
      (·.dependenciesFor ⟨"/p/q/x.js"⟩)) = some ["a", "b"] := by
    decide +kernel
  obtain ⟨s, hs, hfound⟩ := Option.map_eq_some_iff.mp hevaluated
  refine ⟨_, s, hset, hs, rfl, hfound, ?_⟩
  exact ((dependencies_visible hset hs rfl).1 "b").mp (hfound ▸ by decide)

end AnalysisServer
