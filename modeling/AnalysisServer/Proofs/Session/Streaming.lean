import AnalysisServer.Proofs.Session.Effects
import AnalysisServer.Proofs.Session.Gathering
import AnalysisServer.Proofs.Session.Serving
import AnalysisServer.Proofs.Session.Units

namespace AnalysisServer

open List

def Partial.entry (part : Partial) : Path × FileResult :=
  (part.filename, part.result)

def collect (files : PathMap FileResult) (parts : List Partial) : PathMap FileResult :=
  (parts.map Partial.entry).foldl (fun files e ↦ PathMap.insert e.1 e.2 files) files

theorem collect_append (files : PathMap FileResult) (parts parts' : List Partial) :
    collect files (parts ++ parts') = collect (collect files parts) parts' := by
  rw [collect, map_append, foldl_append]
  rfl

section Keeping

variable (files : PathMap FileResult)

/-- The analysis that keeps its results, in place of one that sends them on. -/
def ProjectRun.keeping (run : ProjectRun) : ProjectRun :=
  { run with streaming := false, output := { run.output with files } }

def Response.keeping : Response → Response
  | .project o => .project { o with files }
  | response => response

def Task.keeping : Task → Task
  | .project run => .project (run.keeping files)
  | task => task

def Progress.keeping : Progress → Progress
  | .done outcome => .done (outcome.map (Response.keeping files))
  | .more task => .more (task.keeping files)

def Advance.keeping (a : Advance) : Advance :=
  { progress := a.progress.keeping (collect files a.delivered.toList) }

end Keeping

namespace Session

variable {σ : Type} {engine : RuleEngine σ} {input : ProjectInput} {run : ProjectRun}
  {files : PathMap FileResult} {w w' : Workspace σ}

section Equations

theorem deliver_keeping (hs : run.streaming = true) (p : Path) (result : FileResult) :
    (run.keeping files).deliver p result =
      ((run.deliver p result).1.keeping (collect files (run.deliver p result).2.toList), none) := by
  simp only [ProjectRun.deliver, hs, if_true]
  rfl

theorem nextRecord_keeping (hs : run.streaming = true) (r : FileRecord) (w : Workspace σ) :
    nextRecord (run.keeping files) r w =
      ((nextRecord run r w).1.keeping (collect files (nextRecord run r w).2.1.toList), none,
        (nextRecord run r w).2.2) := by
  have hcontent : contentOf (run.keeping files).configuration r w.disk = contentOf run.configuration r w.disk := rfl
  rw [nextRecord_eq, nextRecord_eq, hcontent]
  rcases contentOf run.configuration r w.disk with e | _ | content
  · dsimp only
    rw [deliver_keeping hs]
  · rfl
  · rfl

theorem stepProject_keeping (hs : run.streaming = true) (files : PathMap FileResult) (w : Workspace σ) :
    stepProject engine (run.keeping files) w = (stepProject engine run w).map fun r ↦ (r.1.keeping files, r.2) := by
  have hrest (todo : List FileRecord) : (run.keeping files).onTo todo = (run.onTo todo).keeping files := rfl
  have hs' (todo : List FileRecord) : (run.onTo todo).streaming = true := hs
  cases hc : run.current with
  | some unit =>
    have hc' : (run.keeping files).current = some unit := hc
    rw [stepProject_current hc, stepProject_current hc']
    rcases resultOf engine w.session unit with (e | _ | _) | result
    · rfl
    · rfl
    · rfl
    · dsimp only
      rw [hrest, deliver_keeping (hs' _)]
      rfl
  | none =>
    have hc' : (run.keeping files).current = none := hc
    cases ht : run.todo with
    | nil =>
      have ht' : (run.keeping files).todo = [] := ht
      simp only [stepProject, hc, ht, hc', ht']
      rfl
    | cons r rest =>
      have ht' : (run.keeping files).todo = r :: rest := ht
      rw [stepProject_next hc ht, stepProject_next hc' ht', hrest, nextRecord_keeping (hs' rest)]
      rfl

theorem finish_sent (fuel : Nat) (task : Task) (w : Workspace σ) (sent : List Partial) :
    finish engine fuel task w sent = ((finish engine fuel task w []).1, (finish engine fuel task w []).2.1,
        sent ++ (finish engine fuel task w []).2.2) := by
  induction fuel generalizing task w sent with
  | zero => simp [finish]
  | succ fuel ih =>
    simp only [finish]
    rcases step engine task w with h | ⟨⟨outcome | task', delivered⟩, w'⟩
    · simp
    · simp
    · dsimp only
      rw [ih task' w' (sent ++ _), ih task' w' ([] ++ _)]
      simp

theorem finish_succ (fuel : Nat) (task : Task) (w : Workspace σ) : finish engine (fuel + 1) task w [] =
      match step engine task w with
      | .error h => (.error h, w, [])
      | .ok (⟨.done outcome, delivered⟩, w') => (.ok outcome, w', delivered.toList)
      | .ok (⟨.more task, delivered⟩, w') =>
        ((finish engine fuel task w' []).1, (finish engine fuel task w' []).2.1,
          delivered.toList ++ (finish engine fuel task w' []).2.2) := by
  simp only [finish]
  rcases step engine task w with h | ⟨⟨outcome | task', delivered⟩, w'⟩
  · rfl
  · rfl
  · exact finish_sent fuel task' w' _

theorem finish_keeping (fuel : Nat) (hs : run.streaming = true) (files : PathMap FileResult) (w : Workspace σ) :
    finish engine fuel (.project (run.keeping files)) w [] =
      ((finish engine fuel (.project run) w []).1.map fun outcome ↦
          outcome.map (Response.keeping (collect files (finish engine fuel (.project run) w []).2.2)),
        (finish engine fuel (.project run) w []).2.1, []) := by
  induction fuel generalizing run files w with
  | zero => rfl
  | succ fuel ih =>
    have hkeeping : step engine (.project (run.keeping files)) w =
        (step engine (.project run) w).map fun r ↦ (r.1.keeping files, r.2) := stepProject_keeping hs files w
    rw [finish_succ, finish_succ, hkeeping]
    rcases hstep : step engine (.project run) w with h | ⟨⟨outcome | task, delivered⟩, w'⟩
    · rfl
    · rfl
    · -- what this step has sent on is kept from here on
      obtain ⟨run', -, rfl, -, hs', -⟩ := (projectStep hstep).more rfl
      have hgo := ih (hs'.trans hs) (collect files delivered.toList) w'
      rw [collect_append]
      simp only [Except.map, Advance.keeping, Progress.keeping, Task.keeping, hgo]
      rfl

variable [Digest]

theorem prepareProject_keeping (engine : RuleEngine σ) (input : ProjectInput) :
    prepareProject engine input false = ProjectRun.keeping [] <$> prepareProject engine input true := by
  simp only [prepareProject_eq, openProjects, map_bind, map_pure]
  rfl

theorem start_keeping (engine : RuleEngine σ) (input : ProjectInput) : start engine (.analyzeProject input) false =
      Progress.keeping [] <$> start engine (.analyzeProject input) true := by
  have hstart (streaming : Bool) : start engine (.analyzeProject input) streaming =
      (fun run ↦ .more (.project run)) <$> prepareProject engine input streaming := rfl
  rw [hstart, hstart, prepareProject_keeping, Functor.map_map, Functor.map_map]
  rfl

theorem begin_keeping (engine : RuleEngine σ) (input : ProjectInput) (w : Workspace σ) :
    begin engine (.analyzeProject input) false w = ((begin engine (.analyzeProject input) true w).1.keeping [],
        (begin engine (.analyzeProject input) true w).2) := by
  unfold begin
  rw [start_keeping, ExceptT.run_map, StateT.run_map]
  rcases (start engine (.analyzeProject input) true).run.run w with ⟨_ | progress, w'⟩ <;> rfl

theorem handle_keeping (engine : RuleEngine σ) (input : ProjectInput) (w : Workspace σ) :
    handle engine (.analyzeProject input) false w =
      ((handle engine (.analyzeProject input) true w).1.map fun outcome ↦
          outcome.map (Response.keeping (collect [] (handle engine (.analyzeProject input) true w).2.2)),
        (handle engine (.analyzeProject input) true w).2.1, []) := by
  unfold handle
  rw [begin_keeping]
  rcases hb : begin engine (.analyzeProject input) true w with ⟨outcome | task, w'⟩
  · rfl
  · obtain ⟨e, he⟩ | ⟨dir, w₁, run, -, hrun, hgathered⟩ := begin_project hb
    · cases he
    · cases hrun
      exact finish_keeping _ hgathered.streaming [] w'

end Equations

section Halting

variable {h : Halt}

variable {task : Task} {fuel : Nat} {sent : List Partial}

theorem step_halt (hstep : step engine task w = .error h) :
    (∀ e, h ≠ .failed e) ∧ ∃ ctx, engine.evaluate w.session.engine ctx = .error h := by
  have hunit {unit} (hh : ∀ e, h ≠ .failed e) (hu : analyzeUnit engine w.session unit = .error h) :
      (∀ e, h ≠ .failed e) ∧ ∃ ctx, engine.evaluate w.session.engine ctx = .error h :=
    ⟨hh, analyzeUnit_halt (fun e he ↦ (hh e he).elim) hu⟩
  cases task with
  | file unit =>
    simp only [step] at hstep
    split at hstep
    · cases hstep
    · cases hstep
    · rename_i h' hne hu
      cases hstep
      exact hunit hne hu
  | project run =>
    change stepProject engine run w = _ at hstep
    cases hc : run.current with
    | some unit =>
      rw [stepProject_current hc] at hstep
      split at hstep
      · cases hstep
      · cases hstep
      · rename_i h' hne hu
        cases hstep
        exact hunit hne (analyzeUnit_of_resultOf hu)
    | none =>
      cases ht : run.todo with
      | nil =>
        simp only [stepProject, hc, ht] at hstep
        cases hstep
      | cons r rest =>
        rw [stepProject_next hc ht] at hstep
        cases hstep

theorem finish_halt {sent' : List Partial}
    (hfuel : stepsLeft task ≤ fuel) (hf : finish engine fuel task w sent = (.error h, w', sent')) :
    ∃ task, step engine task w' = .error h := by
  induction fuel generalizing task w sent with
  | zero => cases task <;> cases hfuel
  | succ fuel ih =>
    simp only [finish] at hf
    rcases hstep : step engine task w with h' | ⟨⟨outcome | task', delivered⟩, w₁⟩
    · rw [hstep] at hf
      cases hf
      exact ⟨task, hstep⟩
    · rw [hstep] at hf
      cases hf
    · rw [hstep] at hf
      refine ih ?_ hf
      cases task with
      | file unit =>
        obtain ⟨-, -, outcome, hdone⟩ := step_file hstep
        cases hdone
      | project run =>
        obtain ⟨run', -, rfl, hleft, -⟩ := (projectStep hstep).more rfl
        simp only [stepsLeft] at hfuel ⊢
        omega

theorem handle_halt [Digest] {request : Request} {streaming : Bool}
    (hf : handle engine request streaming w = (.error h, w', sent)) :
    (∀ e, h ≠ .failed e) ∧ ∃ ctx, engine.evaluate w'.session.engine ctx = .error h := by
  unfold handle at hf
  split at hf
  · cases hf
  · obtain ⟨task, hstep⟩ := finish_halt (Nat.le_refl _) hf
    exact step_halt hstep

end Halting

end Session

def Action.Yields {σ α : Type} (P : α → Prop) (a : Action σ α) : Prop :=
  ∀ w x w', a.run.run w = (.ok x, w') → P x

theorem Action.Yields.bind {σ α β : Type} {P : β → Prop} {a : Action σ α} {k : α → Action σ β}
    (hk : ∀ x, (k x).Yields P) : (a >>= k).Yields P := by
  intro w y w' h
  rw [run_bind] at h
  split at h
  · exact hk _ _ _ _ h
  · cases h

theorem Action.Yields.pure {σ α : Type} {P : α → Prop} {x : α} (hx : P x) : (pure x : Action σ α).Yields P := by
  intro w y w' h
  cases h
  exact hx

/-- The results that were sent on are those of the files that count as analyzed. These come in the order of
the paths, before those that have their turn still to come. -/
structure ProjectRun.Tells (paths : List Path) (parts : List Partial) (run : ProjectRun) : Prop where
  streaming : run.streaming = true
  files : run.output.files = []
  analyzed : parts.map Partial.filename = run.output.summary.filesAnalyzed
  order : (run.output.summary.filesAnalyzed ++ run.ahead).Sublist paths

def Progress.Tells (paths : List Path) (parts : List Partial) : Progress → Prop
  | .more (.project run) => run.Tells paths parts
  | .more (.file _) => False
  | .done (.ok (.project o)) =>
    o.files = [] ∧ parts.map Partial.filename = o.summary.filesAnalyzed ∧ o.summary.filesAnalyzed.Sublist paths
  | .done (.ok _) => False
  | .done (.error _) => True

/-- Whatever is served, if it is a project then the results that were sent on are those of its files. -/
def Progress.Reports (parts : List Partial) : Progress → Prop
  | .more (.project run) => ∃ paths, run.Tells paths parts
  | .done (.ok (.project o)) => parts.map Partial.filename = o.summary.filesAnalyzed
  | _ => True

variable {progress : Progress}

theorem Progress.Tells.reports {paths : List Path} {parts : List Partial}
    (h : progress.Tells paths parts) : progress.Reports parts := by
  rcases progress with (_ | _ | _ | _ | _ | _ | _) | _ | _
  case more.project => exact ⟨paths, h⟩
  case done.ok.project => exact h.2.1
  all_goals trivial

namespace ProjectRun

variable {paths : List Path} {parts : List Partial} {run : ProjectRun}

theorem ahead_current {unit : SourceUnit} (hc : run.current = some unit) :
    run.ahead = unit.path :: run.todo.map FileRecord.path := by
  rw [ahead, hc]
  rfl

theorem ahead_next {r : FileRecord} {rest : List FileRecord} (hc : run.current = none)
    (ht : run.todo = r :: rest) : run.ahead = r.path :: rest.map FileRecord.path := by
  rw [ahead, hc, ht]
  rfl

theorem Tells.deliver (h : run.Tells paths parts) {todo : List FileRecord} {p : Path}
    (hahead : run.ahead = p :: todo.map FileRecord.path) (result : FileResult) :
    ((run.onTo todo).deliver p result).1.Tells paths (parts ++ ((run.onTo todo).deliver p result).2.toList) := by
  have hs : (run.onTo todo).streaming = true := h.streaming
  unfold ProjectRun.deliver
  rw [if_pos hs]
  refine ⟨hs, h.files, ?_, ?_⟩
  · rw [map_append, h.analyzed]
    rfl
  · have horder := h.order
    rwa [hahead, append_cons] at horder

end ProjectRun

namespace Session

variable {σ : Type} {engine : RuleEngine σ} {w w' : Workspace σ} {paths : List Path}
  {parts : List Partial} {a : Advance}

section Telling

theorem step_tells (h : (Progress.more task).Tells paths parts)
    (hs : step engine task w = .ok (a, w')) : a.progress.Tells paths (parts ++ a.delivered.toList) := by
  cases task with
  | file unit => cases h
  | project run =>
    cases projectStep hs with
    | ended hc ht =>
      rw [Option.toList_none, append_nil]
      exact ⟨h.files, h.analyzed, (sublist_append_left _ _).trans h.order⟩
    | @enter r rest content hc ht hr =>
      rw [Option.toList_none, append_nil]
      refine ⟨h.streaming, h.files, h.analyzed, ?_⟩
      have horder := h.order
      rwa [ProjectRun.ahead_next hc ht] at horder
    | skip warning hc ht hr =>
      rw [Option.toList_none, append_nil]
      refine ⟨h.streaming, h.files, h.analyzed, ?_⟩
      have horder := h.order
      rw [ProjectRun.ahead_next hc ht] at horder
      exact ((sublist_cons_self _ _).append_left _).trans horder
    | lose hc ht hr => exact h.deliver (ProjectRun.ahead_next hc ht) _
    | report hc hu => exact h.deliver (ProjectRun.ahead_current hc) _
    | abort hc hu => trivial

variable {outcome : Except AnalysisError Response}

theorem finish_tells
    (h : (Progress.more task).Tells paths parts) (hf : finish engine fuel task w parts = (.ok outcome, w', sent)) :
    (Progress.done outcome).Tells paths sent := by
  induction fuel generalizing task w parts with
  | zero => cases hf
  | succ fuel ih =>
    simp only [finish] at hf
    rcases hstep : step engine task w with h' | ⟨⟨outcome | task', delivered⟩, w₁⟩ <;> rw [hstep] at hf
    · cases hf
    · cases hf
      exact step_tells h hstep
    · exact ih (step_tells h hstep) hf

theorem collect_perm (h : (parts.map Partial.filename).Pairwise fun p q ↦ p.same q = false) :
    (parts.map Partial.entry).Perm (collect [] parts) := by
  refine (PathMap.perm_ofList ?_).symm
  rw [pairwise_map] at h ⊢
  exact h

variable [Digest] {input : ProjectInput}

theorem Gathered.tells {dir : Path} {run : ProjectRun} (hg : Gathered input true dir w run w') :
    run.Tells (run.todo.map FileRecord.path) [] := by
  refine ⟨hg.streaming, hg.files, hg.filesAnalyzed.symm, ?_⟩
  rw [hg.filesAnalyzed, ProjectRun.ahead, hg.current]
  exact List.Sublist.refl _

theorem begin_tells (h : begin engine (.analyzeProject input) true w = (progress, w')) (hw : w.session.stores.Tidy) :
    ∃ paths : List Path, (paths.Pairwise fun p q ↦ p.same q = false) ∧ progress.Tells paths [] := by
  obtain ⟨e, rfl⟩ | ⟨dir, w₁, run, -, rfl, hg⟩ := begin_project h
  · exact ⟨[], .nil, trivial⟩
  · refine ⟨run.todo.map FileRecord.path, ?_, hg.tells⟩
    have htidy := (began engine (.analyzeProject input) true w).tidy hw
    rw [h] at htidy
    exact pairwise_map.mpr (htidy.records hg.todo)

theorem handle_tells
    (h : handle engine (.analyzeProject input) true w = (.ok outcome, w', sent)) (hw : w.session.stores.Tidy) :
    ∃ paths : List Path, (paths.Pairwise fun p q ↦ p.same q = false) ∧ (Progress.done outcome).Tells paths sent := by
  unfold handle at h
  rcases hb : begin engine (.analyzeProject input) true w with ⟨outcome | task, w₁⟩ <;> rw [hb] at h
  · cases h
    exact begin_tells hb hw
  · obtain ⟨paths, hpaths, htells⟩ := begin_tells hb hw
    exact ⟨paths, hpaths, finish_tells htells h⟩

end Telling

section Reporting

theorem step_reports {task : Task} (h : (Progress.more task).Reports parts)
    (hs : step engine task w = .ok (a, w')) : a.progress.Reports (parts ++ a.delivered.toList) := by
  cases task with
  | project run =>
    obtain ⟨paths, hrun⟩ := h
    have htells : (Progress.more (.project run)).Tells paths parts := hrun
    exact (step_tells htells hs).reports
  | file unit =>
    simp only [step] at hs
    split at hs <;> cases hs <;> trivial

variable [Digest] {request : Request} {progress : Progress}

theorem begin_reports (h : begin engine request true w = (progress, w')) : progress.Reports [] := by
  have hplain (hr : (start engine request true).Yields (Progress.Reports [])) : progress.Reports [] := by
    unfold begin at h
    split at h
    · rename_i hrun
      cases h
      exact hr _ _ _ hrun
    · cases h
      trivial
  cases request with
  | analyzeProject input =>
    obtain ⟨e, rfl⟩ | ⟨dir, w₁, run, -, rfl, hg⟩ := begin_project h
    · trivial
    · exact ⟨_, hg.tells⟩
  | tsConfigFiles t => exact hplain (.bind fun _ ↦ .bind fun _ ↦ .bind fun _ ↦ .pure trivial)
  | _ => exact hplain (.bind fun _ ↦ .pure trivial)

theorem Serving.reports (h : Serving engine request true parts progress) : progress.Reports parts := by
  induction h with
  | begin hb => exact begin_reports hb
  | step _ hs ih => exact step_reports ih hs
  | fail => trivial

theorem Replies.filesAnalyzed {o : ProjectOutput}
    (h : Replies engine request true (parts.map .part ++ [Reply.final (.ok (.project o))])) :
    parts.map Partial.filename = o.summary.filesAnalyzed := by
  obtain hnil | ⟨told, progress, hs, heq⟩ := h
  · exact absurd hnil (concat_ne_nil _ _)
  · cases progress with
    | more task =>
      -- as long as there is more to come only parts were said
      have hlast : Reply.final (.ok (.project o)) ∈ told.map Reply.part ++ Progress.final (.more task) :=
        heq ▸ mem_append_right _ (mem_singleton_self _)
      obtain hlast | hlast := mem_append.mp hlast
      · obtain ⟨part, -, hpart⟩ := mem_map.mp hlast
        cases hpart
      · cases hlast
    | done outcome =>
      obtain ⟨hparts, hfinal⟩ := append_inj' heq rfl
      have htold : parts = told := (map_inj_right fun _ _ h ↦ Reply.part.inj h).mp hparts
      cases hfinal
      exact htold ▸ hs.reports

end Reporting

def analyzed (check : ProjectOutput → Workspace σ → Bool) :
    Except Halt (Except AnalysisError Response) × Workspace σ × List Partial → Bool
  | (.ok (.ok (.project o)), w, []) => check o w
  | _ => false

def faultyPair : ProjectInput :=
  { configuration := { baseDir := some ⟨"/"⟩, sonarlint := true, maxFilesForTypeChecking := 0 }
    files := some [(⟨"/a.js"⟩, { content := some "(" }), (⟨"/b.css"⟩, { content := some "" })] }

end Session

end AnalysisServer
