import AnalysisServer.Session.Task

namespace AnalysisServer

def AnalysisError.IsFault (e : AnalysisError) : Prop :=
  ∃ message line, e = .parsing message line

namespace Source

variable {d : Dialect} {s t : State} {c : Char} {e : AnalysisError} {rest : List Char}

theorem closeBracket_fault (h : closeBracket s c = .error e) : e.IsFault := by
  unfold closeBracket at h
  split at h
  · cases h
    exact ⟨_, _, rfl⟩
  · split at h <;> cases h
    exact ⟨_, _, rfl⟩

theorem plainStep_fault (h : plainStep d s c = .error e) : e.IsFault := by
  unfold plainStep at h
  split at h
  · cases h
  · split at h
    · cases h
    · split at h
      · cases h
      · split at h
        · cases h
        · split at h
          · cases h
          · split at h
            · cases hb : closeBracket s c with
              | ok s' => rw [hb] at h; cases h
              | error e' =>
                rw [hb] at h
                cases h
                exact closeBracket_fault hb
            · cases h

theorem codeStep_fault (h : codeStep d s c rest = .error e) : e.IsFault := by
  unfold codeStep at h
  split at h
  · cases h
  · split at h
    · cases h
    · exact plainStep_fault h

theorem step_fault (h : step d s c rest = .error e) : e.IsFault := by
  unfold step at h
  split at h
  · cases h
  · -- only code can be at fault; comments, strings and the like go on whatever comes
    cases hm : s.mode with
    | code =>
      simp only [hm] at h
      exact codeStep_fault h
    | flags =>
      simp only [hm] at h
      split at h
      · cases h
      · exact codeStep_fault h
    | lineComment | blockComment =>
      simp only [hm] at h
      split at h <;> cases h
    | string | template | regex =>
      simp only [hm] at h
      repeat' split at h
      all_goals cases h

theorem run_fault {cs : List Char} (h : run d s cs = .error e) : e.IsFault := by
  induction cs generalizing s with
  | nil => cases h
  | cons c rest ih =>
    simp only [run] at h
    split at h
    · exact ih h
    · rename_i hstep
      cases h
      exact step_fault hstep

theorem finish_fault (h : finish s = .error e) : e.IsFault := by
  unfold finish at h
  split at h
  · cases h
    exact ⟨_, _, rfl⟩
  · cases h
    exact ⟨_, _, rfl⟩
  · split at h
    · cases h
      exact ⟨_, _, rfl⟩
    · split at h <;> cases h

theorem parse_fault {language : Language} {source : String} (h : parse language source = .error e) : e.IsFault := by
  simp only [parse, bind, Except.bind] at h
  split at h
  · rename_i hrun
    cases h
    exact run_fault hrun
  · split at h
    · rename_i hfinish
      cases h
      exact finish_fault hfinish
    · cases h

end Source

def Halt.IsOfRules (h : Halt) : Prop :=
  ∀ e, h = .failed e → ¬ e.IsFault ∧ e ≠ Session.linterMissing

namespace Session

variable {σ : Type} {engine : RuleEngine σ} {s : Session σ} {u : SourceUnit} {h : Halt} {snippets : List Snippet}

theorem analyzeSource_halt (hh : h.IsOfRules) (ha : analyzeSource engine s u = .error h) :
    ∃ ctx, engine.evaluate s.engine ctx = .error h := by
  unfold analyzeSource at ha
  split at ha
  · cases ha
    exact ((hh _ rfl).2 rfl).elim
  · split at ha
    · rename_i hparse
      cases ha
      exact ((hh _ rfl).1 (Source.parse_fault hparse)).elim
    · split at ha
      · rename_i heval
        cases ha
        exact ⟨_, heval⟩
      · cases ha

theorem analyzeEmbedded_halt {total : FileOutput} (hh : h.IsOfRules)
    (ha : analyzeEmbedded engine s u total snippets = .error h) :
    ∃ ctx, engine.evaluate s.engine ctx = .error h := by
  induction snippets generalizing total with
  | nil => cases ha
  | cons snippet rest ih =>
    simp only [analyzeEmbedded] at ha
    split at ha
    · rename_i halt hsource
      -- only faults are moved, so the halt is the one of the snippet
      have hhalt : halt = h := by
        simp only [Except.error.injEq] at ha
        cases halt with
        | failed e =>
          simp only [shiftHalt] at ha
          unfold shiftError at ha
          split at ha
          · exact ((hh _ ha.symm).1 ⟨_, _, rfl⟩).elim
          · exact ha
        | crashed | waiting => exact ha
      exact analyzeSource_halt hh (hhalt ▸ hsource)
    · exact ih ha

theorem analyzeUnit_halt (hh : h.IsOfRules) (ha : analyzeUnit engine s u = .error h) :
    ∃ ctx, engine.evaluate s.engine ctx = .error h := by
  unfold analyzeUnit at ha
  split at ha
  · exact analyzeEmbedded_halt hh ha
  · exact analyzeEmbedded_halt hh ha
  · split at ha
    · exact analyzeEmbedded_halt hh ha
    · exact analyzeSource_halt hh ha

end Session

end AnalysisServer
