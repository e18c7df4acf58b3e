import AnalysisServer.Proofs.Session.Singles
import Mathlib.Data.List.Pairwise

namespace AnalysisServer

namespace ProjectRun

variable (run : ProjectRun) (p : Path) (result : FileResult)

theorem todo_deliver : (run.deliver p result).1.todo = run.todo := by
  unfold deliver
  split <;> rfl

theorem current_deliver : (run.deliver p result).1.current = run.current := by
  unfold deliver
  split <;> rfl

end ProjectRun

namespace Session

variable {σ : Type} {engine : RuleEngine σ} {w₀ w w' : Workspace σ} {records : List FileRecord} {r : FileRecord}
  {parts sent : List Partial} {run : ProjectRun} {p : Path} {result : FileResult} {u : SourceUnit} {a : Advance}

def IsUnitOf (w₀ : Workspace σ) (records : List FileRecord) (u : SourceUnit) : Prop :=
  ∃ r ∈ records, ∃ run content, unitOf run r content w₀ = u

def IsResult (engine : RuleEngine σ) (w₀ : Workspace σ) (records : List FileRecord) (p : Path) (result : FileResult) :
    Prop :=
  (∃ e, result = .failed e) ∨
    ∃ u, IsUnitOf w₀ records u ∧ u.path.same p = true ∧ resultOf engine w₀.session u = .ok result

structure AreResults (engine : RuleEngine σ) (w₀ : Workspace σ) (records : List FileRecord) (sent : List Partial)
    (o : ProjectOutput) : Prop where
  sent : ∀ part ∈ sent, IsResult engine w₀ records part.filename part.result
  kept : ∀ p result, PathMap.get? p o.files = some result → IsResult engine w₀ records p result

structure Traced (engine : RuleEngine σ) (w₀ : Workspace σ) (records : List FileRecord) (sent : List Partial)
    (run : ProjectRun) : Prop where
  todo : ∀ r ∈ run.todo, r ∈ records
  current : ∀ u, run.current = some u → IsUnitOf w₀ records u
  results : AreResults engine w₀ records sent run.output

theorem IsResult.of_same {p' : Path} (h : IsResult engine w₀ records p result) (hp : p.same p' = true) :
    IsResult engine w₀ records p' result := by
  obtain he | ⟨u, hu, hsame, hr⟩ := h
  · exact .inl he
  · refine .inr ⟨u, hu, ?_, hr⟩
    rw [Path.same_iff] at hsame hp ⊢
    exact hsame.trans hp

theorem AreResults.deliver (run : ProjectRun) (h : AreResults engine w₀ records sent run.output)
    (hr : IsResult engine w₀ records p result) :
    AreResults engine w₀ records (sent ++ (run.deliver p result).2.toList) (run.deliver p result).1.output := by
  unfold ProjectRun.deliver
  split
  · refine ⟨fun part hpart ↦ ?_, h.kept⟩
    obtain hpart | hpart := List.mem_append.mp hpart
    · exact h.sent part hpart
    · cases List.mem_singleton.mp hpart
      exact hr
  · refine ⟨by simpa using h.sent, fun q result' hq ↦ ?_⟩
    rw [PathMap.get?_insert] at hq
    split at hq
    · rename_i hsame
      cases hq
      exact hr.of_same hsame
    · exact h.kept q result' hq

theorem Traced.step (h : Traced engine w₀ records parts run) (hw : Stays w₀ w) (hs : ProjectStep engine run w a w') :
    (∃ run', a.progress = .more (.project run') ∧ Traced engine w₀ records (parts ++ a.delivered.toList) run') ∨
      (∃ o, a.progress = .done (.ok (.project o)) ∧ AreResults engine w₀ records (parts ++ a.delivered.toList) o) ∨
      ∃ e, a.progress = .done (.error e) := by
  have hsent : parts ++ (none : Option Partial).toList = parts := List.append_nil _
  cases hs with
  | ended hc ht => exact .inr (.inl ⟨_, rfl, by rw [hsent]; exact h.results⟩)
  | enter hc ht hr =>
    rename_i r rest content
    refine .inl ⟨_, rfl, ?_⟩
    rw [hsent, enterUnit_current]
    refine ⟨fun r' hr' ↦ h.todo r' (ht ▸ List.mem_cons_of_mem r hr'), fun u hu ↦ ?_, h.results⟩
    cases hu
    exact ⟨r, h.todo r (ht ▸ List.mem_cons_self), _, content, hw.unitOf.symm⟩
  | skip warning hc ht hr =>
    rename_i r rest
    refine .inl ⟨_, rfl, ?_⟩
    rw [hsent]
    exact ⟨fun r' hr' ↦ h.todo r' (ht ▸ List.mem_cons_of_mem r hr'), fun _ hu ↦ absurd hu (Option.some_ne_none _).symm,
      h.results.sent, h.results.kept⟩
  | lose hc ht hr =>
    rename_i r rest e
    refine .inl ⟨_, rfl, ?_, ?_, AreResults.deliver (run.onTo rest) h.results (.inl ⟨_, rfl⟩)⟩
    · rw [ProjectRun.todo_deliver]
      exact fun r' hr' ↦ h.todo r' (ht ▸ List.mem_cons_of_mem r hr')
    · rw [ProjectRun.current_deliver]
      exact fun _ hu ↦ absurd hu (Option.some_ne_none _).symm
  | report hc hu =>
    rename_i unit result
    have hresult : IsResult engine w₀ records unit.path result :=
      .inr ⟨unit, h.current unit hc, Path.same_iff.mpr rfl, hw.resultOf.symm.trans hu⟩
    refine .inl ⟨_, rfl, ?_, ?_, AreResults.deliver (run.onTo run.todo) h.results hresult⟩
    · rw [ProjectRun.todo_deliver]
      exact h.todo
    · rw [ProjectRun.current_deliver]
      exact fun _ hu ↦ absurd hu (Option.some_ne_none _).symm
  | abort hc hu => exact .inr (.inr ⟨_, rfl⟩)

theorem Traced.finish {fuel : Nat} {o : ProjectOutput} (h : Traced engine w₀ records parts run) (hw : Stays w₀ w)
    (hf : finish engine fuel (.project run) w parts = (.ok (.ok (.project o)), w', sent)) :
    AreResults engine w₀ records sent o := by
  refine finish_project (I := fun run w parts ↦ Traced engine w₀ records parts run ∧ Stays w₀ w)
    (Q := fun r _ sent ↦ ∀ o, r = .project o → AreResults engine w₀ records sent o) (fun ⟨h, hw⟩ hs ↦ ?_) ⟨h, hw⟩ hf
    o rfl
  obtain ⟨run', ha, htraced⟩ | ⟨o, ha, hresults⟩ | he := h.step hw hs
  · exact .inl ⟨run', ha, htraced, hw.trans hs.stays⟩
  · refine .inr (.inl ⟨_, ha, fun o' ho ↦ ?_⟩)
    cases ho
    exact hresults
  · exact .inr (.inr he)

section Programs

variable {output : FileOutput}

theorem programId_of_resultOf {s : Session σ} (h : resultOf engine s u = .ok (.analyzed output))
    (hscript : u.language.isScript = true) (hvue : isVue u.path = false) :
    output.programId = u.program.map Program.id := by
  have hwhole : analyzeUnit engine s u = analyzeSource engine s u := by
    unfold analyzeUnit
    split
    · simp_all [Language.isScript]
    · simp_all [Language.isScript]
    · rw [hvue]
      rfl
  have hsource : analyzeSource engine s u = .ok output := by
    rw [← hwhole]
    unfold resultOf at h
    split at h
    · rename_i houtput
      cases h
      exact houtput
    · split at h <;> cases h
    · cases h
  unfold analyzeSource at hsource
  split at hsource
  · cases hsource
  split at hsource
  · cases hsource
  split at hsource
  · cases hsource
  · cases hsource
    rfl

theorem IsResult.programId (hrecords : records.Pairwise fun r r' ↦ r.path.same r'.path = false) (hr : r ∈ records)
    (h : IsResult engine w₀ records r.path (.analyzed output))
    (hscript : ∀ content, (ProjectRun.languageOf w₀.session.classifier r content).isScript = true)
    (hvue : isVue r.path = false) :
    output.programId = (w₀.session.programs.findForFile (resolved w₀.disk r.path)).1.map Program.id := by
  obtain ⟨e, he⟩ | ⟨u, ⟨r', hr', run, content, rfl⟩, hsame, hresult⟩ := h
  · cases he
  · obtain rfl : r' = r := by
      by_contra hne
      have : Std.Symm fun r r' : FileRecord ↦ r.path.same r'.path = false := ⟨fun _ _ ↦ Path.not_same_symm⟩
      exact Bool.false_ne_true ((hrecords.forall hr' hr hne).symm.trans hsame)
    rw [programId_of_resultOf hresult (hscript content) hvue, unitOf]
    simp only [hscript content, if_true]

end Programs

end Session

end AnalysisServer
