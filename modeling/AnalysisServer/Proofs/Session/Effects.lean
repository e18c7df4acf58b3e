import AnalysisServer.Proofs.Session.Linters
import AnalysisServer.Proofs.Session.ProjectSteps

namespace AnalysisServer

theorem Request.linterAfter_twice (r : Request) (l : Option Linter) :
    r.linterAfter (r.linterAfter l) = r.linterAfter l := by
  cases r with
  | analyzeProject input =>
    simp only [linterAfter]
    split
    · split <;> rfl
    · rfl
  | _ => rfl

namespace Session

variable {σ : Type} [Digest] {engine : RuleEngine σ} {request : Request} {w w' : Workspace σ}

theorem Began.linter {progress : Progress} (h : Began engine request w progress w')
    (hok : ∀ e, progress ≠ .done (.error e)) : w'.session.linter = request.linterAfter w.session.linter := by
  cases h with
  | @rules linter _ hr _ outcome hl =>
    subst hr
    cases outcome with
    | error e => exact absurd rfl (hok e)
    | ok => exact hl rfl
  | calls hr _ _ hl =>
    cases request with
    | initLinter => cases hl
    | analyzeProject => cases hr
    | _ => rfl
  | wrote hr =>
    subst hr
    rfl
  | lost => exact absurd rfl (hok _)
  | opened hr hf =>
    subst hr
    generalize hok : (Except.ok _ : Except AnalysisError (List Path)) = r at hf
    cases finds hf with
    | unready => cases hok
    | discovery _ _ _ hafter => exact hafter

theorem begin_linter {streaming : Bool} {progress : Progress} (h : begin engine request streaming w = (progress, w'))
    (hok : ∀ e, progress ≠ .done (.error e)) : w'.session.linter = request.linterAfter w.session.linter := by
  have hbegan := began engine request streaming w
  rw [h] at hbegan
  exact hbegan.linter hok

omit [Digest] in
theorem step_kept {task : Task} {a : Advance} {w w' : Workspace σ} (h : step engine task w = .ok (a, w')) :
    w'.session.linter = w.session.linter ∧ w'.session.stores = w.session.stores := by
  cases task with
  | file unit =>
    rw [(step_file h).1]
    exact ⟨rfl, rfl⟩
  | project run => cases projectStep h <;> exact ⟨rfl, rfl⟩

end Session

end AnalysisServer
