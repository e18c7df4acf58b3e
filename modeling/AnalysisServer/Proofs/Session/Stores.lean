import AnalysisServer.Proofs.Discovery.Records
import AnalysisServer.Proofs.Session.Effects

namespace AnalysisServer

section Tidiness

def StoreSet.Tidy (set : StoreSet StandardStore) : Prop :=
  ∃ x : Stores, set.stores = x.toList ∧ ∀ files, x.sources.files.set? = some files → files.Distinct

variable [Digest] {ctx : DiscoveryContext} {x : Stores} {set : StoreSet StandardStore} {disk : Disk}

theorem SourceStore.distinct_isInitialized (ctx : DiscoveryContext) {s : SourceStore}
    (h : ∀ files, s.files.set? = some files → files.Distinct) :
    ∀ files, (s.isInitialized ctx).2.files.set? = some files → files.Distinct := by
  unfold SourceStore.isInitialized
  split
  · intro files hfiles
    cases hfiles
    exact FileSet.distinct_ofRecords _ _
  · exact h

theorem SourceStore.distinct_scan (ctx : DiscoveryContext) (disk : Disk) (files : FileSet)
    (h : (SourceStore.scan ctx disk).files.set? = some files) : files.Distinct := by
  cases h
  exact FileSet.distinct_ofRecords _ _

theorem Stores.distinct_discover (h : ∀ files, x.sources.files.set? = some files → files.Distinct) :
    ∀ files, (x.discover ctx disk).2.1.sources.files.set? = some files → files.Distinct := by
  have hready := SourceStore.distinct_isInitialized ctx h
  unfold Stores.discover
  dsimp only
  split
  · exact hready
  · split
    · exact hready
    · dsimp only
      split
      · exact hready
      · exact SourceStore.distinct_scan ctx _

theorem StoreSet.Tidy.discover (h : set.Tidy) : (StoreSet.discover ctx set disk).2.1.Tidy := by
  obtain ⟨x, hx, hfiles⟩ := h
  obtain ⟨stores, walks⟩ := set
  subst hx
  exact ⟨_, (discover_toList ctx disk x walks).2.1, Stores.distinct_discover hfiles⟩

theorem StoreSet.clear_stores (hx : set.stores = x.toList) (ctx : DiscoveryContext) (d : Disk) :
    (StoreSet.clear ctx set d).2.1.stores = Stores.toList { packages := .setup ctx {} } ∧
      (StoreSet.clear ctx set d).2.2 = (x.tsconfigs.setup d).2 := by
  have hmarked : x.toList.map (fun s ↦ (s, true)) = x.marked true true true := rfl
  simp only [StoreSet.clear, hx, hmarked, setup_marked]
  exact ⟨rfl, rfl⟩

theorem StoreSet.Tidy.clear (h : set.Tidy) : (StoreSet.clear ctx set disk).2.1.Tidy := by
  obtain ⟨x, hx, -⟩ := h
  exact ⟨_, (StoreSet.clear_stores hx ctx disk).1, nofun⟩

end Tidiness

namespace Session

variable {σ : Type} [Digest] {engine : RuleEngine σ} {options : SessionOptions} {s : Session σ} {w w' : Workspace σ}

theorem Finds.tidy {input : ProjectInput} {r : Except AnalysisError (List Path)} (h : Finds input w r w')
    (hw : w.session.stores.Tidy) : w'.session.stores.Tidy := by
  cases h with
  | unready _ h =>
    obtain ⟨_, _, _, rfl⟩ := h
    exact hw
  | discovery _ h _ =>
    obtain ⟨_, _, _, rfl⟩ := h
    exact hw.discover

theorem Began.tidy {request : Request} {progress : Progress} (h : Began engine request w progress w')
    (hw : w.session.stores.Tidy) : w'.session.stores.Tidy := by
  cases h with
  | rules _ h _ =>
    obtain ⟨_, _, _, rfl⟩ := h
    exact hw
  | calls | wrote => exact hw
  | lost _ hf => exact (finds hf).tidy hw
  | opened _ hf _ =>
    have htidy := (finds hf).tidy hw
    exact htidy

theorem close_tidy {w : Workspace σ} (h : w.session.stores.Tidy) : (close w).session.stores.Tidy := by
  unfold close
  dsimp only
  split
  · split
    · exact h.clear
    · exact h
  · exact h

/-- A session that has served requests from its start on, whatever happened to the disk meanwhile. -/
inductive Reachable (engine : RuleEngine σ) (options : SessionOptions) : Session σ → Prop
  | fresh : Reachable engine options (.fresh engine options)
  | begin {s : Session σ} (h : Reachable engine options s) (request : Request) (streaming : Bool) (disk : Disk) :
      Reachable engine options (Session.begin engine request streaming ⟨s, disk⟩).2.session
  | step {s : Session σ} (h : Reachable engine options s) {disk : Disk} {task : Task} {a : Advance}
      {w : Workspace σ} (hs : Session.step engine task ⟨s, disk⟩ = .ok (a, w)) :
      Reachable engine options w.session
  | close {s : Session σ} (h : Reachable engine options s) (disk : Disk) :
      Reachable engine options (Session.close ⟨s, disk⟩).session

theorem Reachable.tidy (h : Reachable engine options s) : s.stores.Tidy := by
  induction h with
  | fresh => exact ⟨{}, rfl, nofun⟩
  | begin _ request streaming disk ih => exact (began engine request streaming ⟨_, disk⟩).tidy ih
  | step _ hs ih => exact (step_kept hs).2 ▸ ih
  | close _ disk ih => exact close_tidy ih

end Session

end AnalysisServer
