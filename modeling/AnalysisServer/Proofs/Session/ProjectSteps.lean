import AnalysisServer.Session.Task

namespace AnalysisServer

namespace ProjectRun

def onTo (run : ProjectRun) (todo : List FileRecord) : ProjectRun :=
  { run with todo, current := none }

def ahead (run : ProjectRun) : List Path :=
  run.current.toList.map SourceUnit.path ++ run.todo.map FileRecord.path

end ProjectRun

namespace Session

variable {σ : Type} {engine : RuleEngine σ} {run : ProjectRun} {w : Workspace σ} {a : Advance}
  {w' : Workspace σ} {unit : SourceUnit}

def contentOf (c : Configuration) (r : FileRecord) (disk : Disk) : Except AnalysisError (Option String) :=
  match r.content with
  | some content => .ok (some content)
  | none => readBounded disk c.maxFileBytes r.path

/-- What a unit comes to in a project, unless the analysis ends with it. -/
def resultOf (engine : RuleEngine σ) (s : Session σ) (unit : SourceUnit) : Except Halt FileResult :=
  match analyzeUnit engine s unit with
  | .ok output => .ok (.analyzed output)
  | .error (.failed e) => if e.isPerFile then .ok (.failed e.payload) else .error (.failed e)
  | .error h => .error h

theorem analyzeUnit_of_resultOf {s : Session σ} {h : Halt}
    (hr : resultOf engine s unit = .error h) : analyzeUnit engine s unit = .error h := by
  unfold resultOf at hr
  split at hr
  · cases hr
  · split at hr <;> cases hr
    assumption
  · cases hr
    assumption

inductive ProjectStep (engine : RuleEngine σ) (run : ProjectRun) (w : Workspace σ) :
    Advance → Workspace σ → Prop
  | ended (hc : run.current = none) (ht : run.todo = []) :
      ProjectStep engine run w { progress := .done (.ok (.project run.output)) }
        { w with session := { w.session with lastConfiguration := some run.configuration } }
  | enter {r rest content} (hc : run.current = none)
      (ht : run.todo = r :: rest) (hr : contentOf run.configuration r w.disk = .ok (some content)) :
      ProjectStep engine run w
        { progress := .more (.project (enterUnit (run.onTo rest) r content w).1) }
        (enterUnit (run.onTo rest) r content w).2
  | skip {r rest} (warning : String) (hc : run.current = none)
      (ht : run.todo = r :: rest) (hr : contentOf run.configuration r w.disk = .ok none) :
      ProjectStep engine run w { progress := .more (.project ((run.onTo rest).warn warning)) } w
  | lose {r rest e} (hc : run.current = none)
      (ht : run.todo = r :: rest) (hr : contentOf run.configuration r w.disk = .error e) :
      ProjectStep engine run w
        { progress := .more (.project ((run.onTo rest).deliver r.path (.failed e.payload)).1)
          delivered := ((run.onTo rest).deliver r.path (.failed e.payload)).2 } w
  | report {unit result} (hc : run.current = some unit)
      (hu : resultOf engine w.session unit = .ok result) : ProjectStep engine run w
        { progress := .more (.project ((run.onTo run.todo).deliver unit.path result).1)
          delivered := ((run.onTo run.todo).deliver unit.path result).2 } w
  | abort {unit e} (hc : run.current = some unit)
      (hu : resultOf engine w.session unit = .error (.failed e)) :
      ProjectStep engine run w { progress := .done (.error e) } w

theorem nextRecord_eq (run : ProjectRun) (r : FileRecord) (w : Workspace σ) :
    nextRecord run r w =
      match contentOf run.configuration r w.disk with
      | .ok (some content) => ((enterUnit run r content w).1, none, (enterUnit run r content w).2)
      | .ok none =>
        let limit := toString run.configuration.maxFileSize.toNat
        (run.warn ("Skipped " ++ r.path.text ++ ": larger than " ++ limit ++ " KB"), none, w)
      | .error e => ((run.deliver r.path (.failed e.payload)).1, (run.deliver r.path (.failed e.payload)).2, w) := by
  unfold nextRecord contentOf
  cases r.content with
  | some content => rfl
  | none => rcases readBounded w.disk run.configuration.maxFileBytes r.path with e | _ | content <;> rfl

theorem stepProject_current (hc : run.current = some unit) : stepProject engine run w =
      match resultOf engine w.session unit with
      | .ok result =>
        .ok ({ progress := .more (.project ((run.onTo run.todo).deliver unit.path result).1)
               delivered := ((run.onTo run.todo).deliver unit.path result).2 }, w)
      | .error (.failed e) => .ok ({ progress := .done (.error e) }, w)
      | .error h => .error h := by
  simp only [stepProject, hc, resultOf]
  rcases analyzeUnit engine w.session unit with (e | _ | _) | output
  · dsimp only
    cases e.isPerFile <;> rfl
  all_goals rfl

theorem stepProject_next {r : FileRecord} {rest : List FileRecord} (hc : run.current = none)
    (ht : run.todo = r :: rest) :
    stepProject engine run w =
      .ok ({ progress := .more (.project (nextRecord (run.onTo rest) r w).1)
             delivered := (nextRecord (run.onTo rest) r w).2.1 }, (nextRecord (run.onTo rest) r w).2.2) := by
  simp only [stepProject, hc, ht, ProjectRun.onTo]

theorem projectStep (h : step engine (.project run) w = .ok (a, w')) : ProjectStep engine run w a w' := by
  change stepProject engine run w = _ at h
  cases hc : run.current with
  | some unit =>
    rw [stepProject_current hc] at h
    split at h
    · cases h
      exact .report hc ‹_›
    · cases h
      exact .abort hc ‹_›
    · cases h
  | none =>
    cases ht : run.todo with
    | nil =>
      simp only [stepProject, hc, ht] at h
      cases h
      exact .ended hc ht
    | cons r rest =>
      rw [stepProject_next hc ht, nextRecord_eq] at h
      have hcontent : contentOf (run.onTo rest).configuration r w.disk = contentOf run.configuration r w.disk := rfl
      rw [hcontent] at h
      rcases hr : contentOf run.configuration r w.disk with e | _ | content <;> rw [hr] at h <;> cases h
      · exact .lose hc ht hr
      · exact .skip _ hc ht hr
      · exact .enter hc ht hr

theorem ProjectStep.more {task : Task} (h : ProjectStep engine run w a w') (ha : a.progress = .more task) :
    ∃ run' programs, task = .project run' ∧ run'.left < run.left ∧ run'.streaming = run.streaming ∧
      run'.configuration = run.configuration ∧ w' = { w with session := { w.session with programs } } := by
  have hdeliver (run : ProjectRun) (p : Path) (result : FileResult) :
      (run.deliver p result).1.left = run.left ∧ (run.deliver p result).1.streaming = run.streaming ∧
        (run.deliver p result).1.configuration = run.configuration := by
    unfold ProjectRun.deliver
    dsimp only
    split <;> exact ⟨rfl, rfl, rfl⟩
  cases h with
  | ended | abort => cases ha
  | enter hc ht =>
    cases ha
    exact ⟨_, _, rfl, by simp [ProjectRun.left, enterUnit, ProjectRun.onTo, hc, ht]; omega, rfl, rfl, rfl⟩
  | skip warning hc ht =>
    cases ha
    exact ⟨_, _, rfl, by simp [ProjectRun.left, ProjectRun.warn, ProjectRun.onTo, hc, ht], rfl, rfl, rfl⟩
  | lose hc ht =>
    cases ha
    obtain ⟨hleft, hs, hkept⟩ := hdeliver (run.onTo _) _ _
    exact ⟨_, _, rfl, by rw [hleft]; simp [ProjectRun.left, ProjectRun.onTo, hc, ht], hs, hkept, rfl⟩
  | report hc =>
    cases ha
    obtain ⟨hleft, hs, hkept⟩ := hdeliver (run.onTo run.todo) _ _
    exact ⟨_, _, rfl, by rw [hleft]; simp [ProjectRun.left, ProjectRun.onTo, hc], hs, hkept, rfl⟩

/-- What every step keeps or ends with holds of an analysis that ends well. -/
theorem finish_project {I : ProjectRun → Workspace σ → List Partial → Prop}
    {Q : Response → Workspace σ → List Partial → Prop}
    (hstep : ∀ {run w parts a w'}, I run w parts → ProjectStep engine run w a w' →
      (∃ run', a.progress = .more (.project run') ∧ I run' w' (parts ++ a.delivered.toList)) ∨
      (∃ response, a.progress = .done (.ok response) ∧ Q response w' (parts ++ a.delivered.toList)) ∨
      ∃ e, a.progress = .done (.error e))
    {fuel : Nat} {parts sent : List Partial} {response : Response} (h : I run w parts)
    (hf : finish engine fuel (.project run) w parts = (.ok (.ok response), w', sent)) : Q response w' sent := by
  induction fuel generalizing run w parts with
  | zero => cases hf
  | succ fuel ih =>
    simp only [finish] at hf
    rcases hs : step engine (.project run) w with h' | ⟨a, w₁⟩ <;> rw [hs] at hf
    · cases hf
    · obtain ⟨run', ha, hkept⟩ | ⟨response', ha, hdone⟩ | ⟨e, ha⟩ := hstep h (projectStep hs) <;>
        simp only [ha] at hf
      · exact ih hkept hf
      · cases hf
        exact hdone
      · cases hf

end Session

end AnalysisServer
