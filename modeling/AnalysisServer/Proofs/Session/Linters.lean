import AnalysisServer.Proofs.Session.Beginnings

namespace AnalysisServer

def Request.file? : Request → Option (FileInput × FileKind)
  | analyzeJsTs input => some (input, .script)
  | analyzeCss input => some (input, .style)
  | analyzeHtml input => some (input, .markup)
  | analyzeYaml input => some (input, .yaml)
  | _ => none

namespace Session

variable {σ : Type}

variable [Digest] {input : FileInput} {kind : FileKind} {unit : SourceUnit}

theorem linter_of_prepareFile {w w' : Workspace σ} (h : (prepareFile input kind).run.run w = (.ok unit, w')) :
    w.session.linter.isSome := by
  cases hl : w.session.linter with
  | some linter => rfl
  | none =>
    have hfail : (prepareFile input kind).run.run w = (.error linterMissing, w) := by
      unfold prepareFile
      rw [Action.run_bind]
      show ((if w.session.linter.isNone then _ else _ : Action σ SourceUnit)).run.run w = _
      rw [hl]
      rfl
    rw [hfail] at h
    cases h

theorem begin_initLinter (engine : RuleEngine σ) (linter : Linter) (streaming : Bool) (w : Workspace σ) :
    (∃ w', begin engine (.initLinter linter) streaming w = (.done (.ok .ack), w') ∧ w'.session.linter = some linter) ∨
      ∃ e w', begin engine (.initLinter linter) streaming w = (.done (.error e), w') ∧
        w'.session.linter = w.session.linter := by
  have hstart : start engine (.initLinter linter) streaming =
      (do initLinter engine linter; return .done (.ok .ack)) := rfl
  unfold begin
  rw [hstart, Action.run_bind]
  obtain ⟨-, hl⟩ := initLinter_rules engine linter w
  rcases hr : (initLinter engine linter).run.run w with ⟨e | _, w'⟩ <;> rw [hr] at hl
  · exact .inr ⟨e, w', rfl, hl⟩
  · exact .inl ⟨w', rfl, hl⟩

theorem begin_file (engine : RuleEngine σ) {request : Request}
    (h : request.file? = some (input, kind)) (streaming : Bool) (w : Workspace σ) :
    (∃ unit w', begin engine request streaming w = (.more (.file unit), w') ∧
        w'.session.linter = w.session.linter ∧ w.session.linter.isSome) ∨
      ∃ e w', begin engine request streaming w = (.done (.error e), w') ∧ w'.session.linter = w.session.linter := by
  have hstart : start engine request streaming =
      (do let unit ← prepareFile input kind; return .more (.file unit)) := by
    cases request <;> cases h <;> rfl
  have hcalls : (prepareFile input kind : Action σ _).CallsOnly fun _ ↦ True :=
    prepareFile_callsOnly fun _ _ _ ↦ trivial
  obtain ⟨programs, -, hw⟩ := hcalls w
  unfold begin
  rw [hstart, Action.run_bind]
  rcases hr : (prepareFile input kind).run.run w with ⟨r, w'⟩
  rw [hr] at hw
  obtain rfl : w' = w.withPrograms programs := hw
  cases r with
  | ok unit => exact .inl ⟨unit, _, rfl, rfl, linter_of_prepareFile hr⟩
  | error e => exact .inr ⟨e, _, rfl, rfl⟩

omit [Digest] in
theorem step_file {engine : RuleEngine σ} {w w' : Workspace σ} {a : Advance}
    (h : step engine (.file unit) w = .ok (a, w')) :
    w' = w ∧ a.delivered = none ∧ ∃ outcome, a.progress = .done outcome := by
  simp only [step] at h
  split at h
  · cases h
    exact ⟨rfl, rfl, _, rfl⟩
  · cases h
    exact ⟨rfl, rfl, _, rfl⟩
  · cases h

end Session

end AnalysisServer
