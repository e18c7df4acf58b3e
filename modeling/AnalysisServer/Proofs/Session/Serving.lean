import AnalysisServer.Pool.Basic
import AnalysisServer.Proofs.Session.Linters

namespace AnalysisServer

namespace Progress

def work? (id : RequestId) : Progress → Option Work
  | .more task => some ⟨id, task⟩
  | .done _ => none

def final : Progress → List Reply
  | .more _ => []
  | .done outcome => [.final outcome]

end Progress

def Advance.replies (a : Advance) : List Reply :=
  a.delivered.toList.map .part ++ a.progress.final

namespace Session

variable {σ : Type} [Digest]

/-- What a request may have delivered so far, and how far it has come. Meanwhile the session and the
disk are as they are. -/
inductive Serving (engine : RuleEngine σ) (request : Request) (streaming : Bool) :
    List Partial → Progress → Prop
  | begin {w w' progress} (h : Session.begin engine request streaming w = (progress, w')) :
      Serving engine request streaming [] progress
  | step {w w' parts task a} (h : Serving engine request streaming parts (.more task))
      (hs : Session.step engine task w = .ok (a, w')) :
      Serving engine request streaming (parts ++ a.delivered.toList) a.progress
  | fail {w parts task e} (h : Serving engine request streaming parts (.more task))
      (hs : Session.step engine task w = .error (.failed e)) :
      Serving engine request streaming parts (.done (.error e))

/-- All that was said to a request at some time. -/
def Replies (engine : RuleEngine σ) (request : Request) (streaming : Bool) (rs : List Reply) : Prop :=
  rs = [] ∨ ∃ parts progress, Serving engine request streaming parts progress ∧ rs = parts.map .part ++ progress.final

variable {engine : RuleEngine σ} {request : Request} {streaming : Bool} {rs : List Reply}

theorem begin_broadcast (h : request.isBroadcast) (w : Workspace σ) :
    ∃ outcome w', begin engine request streaming w = (.done outcome, w') ∧
      (outcome = .ok .ack ∨ ∃ e, outcome = .error e) := by
  cases request with
  | initLinter linter =>
    obtain ⟨w', hw, -⟩ | ⟨e, w', hw, -⟩ := begin_initLinter engine linter streaming w
    · exact ⟨_, w', hw, .inl rfl⟩
    · exact ⟨_, w', hw, .inr ⟨e, rfl⟩⟩
  | deleteProgram id | newTsConfig => exact ⟨_, _, rfl, .inl rfl⟩
  | _ => cases h

theorem Serving.broadcast {parts : List Partial} {progress : Progress}
    (hs : Serving engine request streaming parts progress) (h : request.isBroadcast) :
    parts = [] ∧ ∃ outcome, progress = .done outcome ∧ (outcome = .ok .ack ∨ ∃ e, outcome = .error e) := by
  induction hs with
  | @begin w w' progress hb =>
    obtain ⟨outcome, w'', hb', ho⟩ :
        ∃ outcome w', Session.begin engine request streaming w = (.done outcome, w') ∧ _ :=
      begin_broadcast h w
    cases hb.symm.trans hb'
    exact ⟨rfl, outcome, rfl, ho⟩
  | step _ _ ih | fail _ _ ih =>
    obtain ⟨-, outcome, hdone, -⟩ := ih
    cases hdone

theorem Replies.broadcast (hr : Replies engine request streaming rs) (h : request.isBroadcast) :
    rs = [] ∨ rs = [.final (.ok .ack)] ∨ ∃ e, rs = [.final (.error e)] := by
  obtain rfl | ⟨parts, progress, hs, rfl⟩ := hr
  · exact .inl rfl
  · obtain ⟨rfl, outcome, rfl, rfl | ⟨e, rfl⟩⟩ := hs.broadcast h
    · exact .inr (.inl rfl)
    · exact .inr (.inr ⟨e, rfl⟩)

theorem Replies.length_of_final (hr : Replies engine request streaming rs) {n : Nat}
    {outcome : Except AnalysisError Response} (h : rs[n]? = some (.final outcome)) : rs.length = n + 1 := by
  obtain rfl | ⟨parts, progress, -, rfl⟩ := hr
  · cases h
  · obtain hlt | hle := Nat.lt_or_ge n parts.length
    · rw [List.getElem?_append_left (by simpa using hlt), List.getElem?_map] at h
      obtain ⟨part, -, hpart⟩ := Option.map_eq_some_iff.mp h
      cases hpart
    · rw [List.getElem?_append_right (by simpa using hle), List.length_map] at h
      have hlt := lt_of_getElem? h
      cases progress with
      | more task => cases hlt
      | done outcome' =>
        simp only [Progress.final, List.length_singleton] at hlt
        simp only [Progress.final, List.length_append, List.length_map, List.length_singleton]
        omega

end Session

end AnalysisServer
