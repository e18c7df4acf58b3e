import AnalysisServer.Proofs.Session.Streaming
import AnalysisServer.Proofs.Session.Visits

namespace AnalysisServer

def Halt.IsFault (h : Halt) : Prop :=
  ∃ e, h = .failed e ∧ e.IsFault

namespace Session

section Units

variable {s : Session (List Path)} {u : SourceUnit} {h : Halt} (hl : s.linter.isSome = true)

include hl

theorem analyzeSource_silent (ha : analyzeSource .silent s u = .error h) : h.IsFault := by
  unfold analyzeSource at ha
  split at ha
  · rename_i hnone
    rw [hnone] at hl
    cases hl
  · split at ha
    · rename_i hparse
      cases ha
      exact ⟨_, rfl, Source.parse_fault hparse⟩
    · cases ha

theorem analyzeEmbedded_silent {total : FileOutput} {snippets : List Snippet}
    (ha : analyzeEmbedded .silent s u total snippets = .error h) : h.IsFault := by
  induction snippets generalizing total with
  | nil => cases ha
  | cons snippet rest ih =>
    simp only [analyzeEmbedded] at ha
    split at ha
    · rename_i halt hsource
      obtain ⟨e, rfl, message, line, rfl⟩ := analyzeSource_silent hl hsource
      cases ha
      exact ⟨_, rfl, _, _, rfl⟩
    · exact ih ha

theorem analyzeUnit_silent (ha : analyzeUnit .silent s u = .error h) : h.IsFault := by
  unfold analyzeUnit at ha
  split at ha
  · exact analyzeEmbedded_silent hl ha
  · exact analyzeEmbedded_silent hl ha
  · split at ha
    · exact analyzeEmbedded_silent hl ha
    · exact analyzeSource_silent hl ha

theorem resultOf_silent (u : SourceUnit) : ∃ result, resultOf .silent s u = .ok result := by
  unfold resultOf
  cases ha : analyzeUnit .silent s u with
  | ok output => exact ⟨_, rfl⟩
  | error h =>
    obtain ⟨e, rfl, message, line, rfl⟩ := analyzeUnit_silent hl ha
    exact ⟨_, rfl⟩

end Units

section Projects

variable {σ : Type} {engine : RuleEngine σ} {run : ProjectRun} {w w' : Workspace σ} {a : Advance}

theorem finish_silent {fuel : Nat} {w : Workspace (List Path)} (hl : w.session.linter.isSome = true)
    (hfuel : run.left < fuel) (sent : List Partial) :
    ∃ output programs sent', finish .silent fuel (.project run) w sent = (.ok (.ok (.project output)),
        { w with session := { w.session with programs, lastConfiguration := some run.configuration } }, sent') := by
  induction fuel generalizing run w sent with
  | zero => cases hfuel
  | succ fuel ih =>
    rw [finish]
    cases hs : step .silent (.project run) w with
    | error halt =>
      obtain ⟨-, ctx, heval⟩ := step_halt hs
      cases heval
    | ok r =>
      obtain ⟨a, w'⟩ := r
      have hstep := projectStep hs
      cases hp : a.progress with
      | more task =>
        obtain ⟨run', programs, rfl, hleft, -, hconfiguration, rfl⟩ := hstep.more hp
        simp only [hp]
        rw [← hconfiguration]
        exact ih (w := { w with session := { w.session with programs } }) hl (by omega) _
      | done outcome =>
        simp only [hp]
        cases hstep with
        | ended =>
          cases hp
          exact ⟨_, _, _, rfl⟩
        | abort hc hu =>
          obtain ⟨result, hresult⟩ := resultOf_silent hl _
          cases hresult.symm.trans hu
        | _ => cases hp

theorem finish_file (fuel : Nat) (unit : SourceUnit) (w : Workspace σ) (sent : List Partial) :
    (finish engine fuel (.file unit) w sent).2.1 = w := by
  cases fuel with
  | zero => rfl
  | succ fuel =>
    rw [finish]
    split
    · rfl
    · rename_i hs
      obtain ⟨hw, -, outcome, hdone⟩ := step_file hs
      dsimp only
      rw [hdone, hw]

end Projects

end Session

end AnalysisServer
