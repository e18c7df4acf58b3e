import AnalysisServer.Proofs.Session.Stores

namespace AnalysisServer

theorem StoreSet.Tidy.records {set : StoreSet StandardStore} {records : List FileRecord} (h : set.Tidy)
    (hr : set.records = .ok records) : records.Pairwise fun r r' ↦ r.path.same r'.path = false := by
  obtain ⟨x, hx, hfiles⟩ := h
  have hset : set.records = x.sources.files.read.map FileSet.records := by
    unfold StoreSet.records sources?
    rw [hx]
    rfl
  rw [hset] at hr
  unfold FilesCache.read at hr
  split at hr
  · rename_i files hf
    cases hr
    exact hfiles files hf
  · cases hr

namespace Session

variable {σ : Type} [Digest] {engine : RuleEngine σ} {input : ProjectInput} {streaming : Bool} {dir : Path}
  {w w' : Workspace σ} {run : ProjectRun}

structure Gathered (input : ProjectInput) (streaming : Bool) (dir : Path) (w : Workspace σ) (run : ProjectRun)
    (w' : Workspace σ) : Prop where
  stores : w'.session.stores = (StoreSet.discover ⟨dir, input.configuration, input.files⟩ w.session.stores w.disk).2.1
  classifier : w'.session.classifier = input.configuration.classifier
  linter : w'.session.linter.isSome
  todo : w'.session.stores.records = .ok run.todo
  configuration : run.configuration = input.configuration
  streaming : run.streaming = streaming
  current : run.current = none
  files : run.output.files = []
  filesAnalyzed : run.output.summary.filesAnalyzed = []

theorem begin_project {progress : Progress} (h : begin engine (.analyzeProject input) streaming w = (progress, w')) :
    (∃ e, progress = .done (.error e)) ∨
      ∃ dir w₁ run, w₁.session.stores = w.session.stores ∧ progress = .more (.project run) ∧
        Gathered input streaming dir w₁ run w' := by
  unfold begin at h
  rw [start_project, Action.run_bind, Action.run_bind] at h
  rcases hf : (findProjects engine input).run.run w with ⟨r, w₂⟩
  rw [hf] at h
  cases r with
  | error e =>
    cases h
    exact .inl ⟨e, rfl⟩
  | ok tsconfigs =>
    obtain ⟨summary, hfiles, hopen⟩ := openProjects_run input streaming tsconfigs w₂
    dsimp only at h
    rw [hopen] at h
    cases hrecords : w₂.session.stores.records with
    | error e =>
      rw [hrecords] at h
      cases h
      exact .inl ⟨e, rfl⟩
    | ok records =>
      rw [hrecords] at h
      cases h
      generalize hr : (Except.ok tsconfigs : Except AnalysisError _) = r at hf
      cases finds hf with
      | unready e => cases hr
      | @discovery dir w₁ hdir hrules hlinter =>
        refine .inr ⟨dir, w₁, _, ?_, rfl, rfl, rfl, hlinter, hrecords, rfl, rfl, rfl, rfl, hfiles⟩
        obtain ⟨_, _, _, rfl⟩ := hrules
        rfl

end Session

end AnalysisServer
