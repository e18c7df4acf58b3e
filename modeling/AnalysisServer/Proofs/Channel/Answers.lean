import AnalysisServer.Channel
import AnalysisServer.Proofs.Json.Fields

namespace AnalysisServer

open List

namespace Channel

def IsPart (frame : Json) : Prop :=
  frame.get? "ws" = some (.bool true) ∧ frame.get? "final" = none

def IsFinal (frame : Json) : Prop :=
  frame.get? "ws" = some (.bool true) ∧ frame.get? "final" = some (.bool true)

def filename? (frame : Json) : Option Json :=
  (frame.get? "results").bind (Json.get? "filename")

def filesAnalyzed? (frame : Json) : Option (List Json) :=
  ((frame.get? "results").bind (Json.get? "meta")).bind fun m ↦ (m.get? "filesAnalyzed").bind Json.arr?

variable [TextPaths]

theorem isPart_partFrame (p : Partial) : IsPart (partFrame p) := ⟨rfl, rfl⟩

theorem get?_finalFrame_error (e : AnalysisError) (name : String) : (finalFrame (.error e)).get? name =
      if name = "ws" then some (.bool true)
      else if name = "final" then some (.bool true)
      else (Json.ofFields (e.payload.toJson.obj?.getD [])).get? name := by
  have hfields (fields : Json.Fields) : fields ++ [("final", Json.bool true), ("ws", .bool true)] =
      fields ++ [("final", Json.bool true)] ++ [("ws", Json.bool true)] := by simp
  have hframe : finalFrame (.error e) =
      Json.ofFields (e.payload.toJson.obj?.getD [] ++ [("final", .bool true), ("ws", .bool true)]) := rfl
  rw [hframe, hfields, Json.get?_ofFields_concat, Json.get?_ofFields_concat]

theorem finalFrame_cases (outcome : Except AnalysisError Response) :
    (∃ r, outcome = .ok r ∧ r.paths.all TextPaths.isText = true ∧
      finalFrame outcome = .obj [("final", .bool true), ("results", r.toJson), ("ws", .bool true)]) ∨
    ∃ e, finalFrame outcome = finalFrame (.error e) := by
  cases outcome with
  | error e => exact .inr ⟨e, rfl⟩
  | ok r =>
    cases htext : r.paths.all TextPaths.isText with
    | true => exact .inl ⟨r, rfl, htext, by simp [finalFrame, Except.bind, Response.encode, htext]⟩
    | false => exact .inr ⟨Response.unwritable, by simp [finalFrame, Except.bind, Response.encode, htext]⟩

theorem isFinal_finalFrame (outcome : Except AnalysisError Response) : IsFinal (finalFrame outcome) := by
  obtain ⟨r, -, -, hframe⟩ | ⟨e, hframe⟩ := finalFrame_cases outcome
  · rw [hframe]
    exact ⟨rfl, rfl⟩
  · rw [hframe]
    exact ⟨get?_finalFrame_error e "ws", get?_finalFrame_error e "final"⟩

theorem filesAnalyzed?_finalFrame {outcome : Except AnalysisError Response} {names : List Json}
    (h : filesAnalyzed? (finalFrame outcome) = some names) :
    ∃ o, outcome = .ok (.project o) ∧ (∀ p ∈ o.summary.filesAnalyzed, TextPaths.isText p = true) ∧
      names = o.summary.filesAnalyzed.map Path.toJson := by
  obtain ⟨r, rfl, htext, hframe⟩ | ⟨e, hframe⟩ := finalFrame_cases outcome
  · rw [hframe] at h
    cases r with
    | project o =>
      cases h
      exact ⟨o, rfl, fun p hp ↦ all_eq_true.mp htext p (mem_append_right _ hp), rfl⟩
    | file o => rcases o with ⟨_, _, _ | _, _⟩ <;> cases h
    | _ => cases h
  · have hnone : (finalFrame (.error e)).get? "results" = none := by
      rw [get?_finalFrame_error, if_neg (by decide), if_neg (by decide)]
      rcases e.payload with _ | ⟨_, _ | _⟩
      · rfl
      · rfl
      · exact Json.get?_ofFields_concat [("error", _)] "kind" "results" _
    rw [hframe, filesAnalyzed?, hnone] at h
    cases h

theorem results_partFrame {p : Partial} (h : TextPaths.isText p.filename = true) :
    (partFrame p).get? "results" = some p.toJson := by
  rw [partFrame, Partial.toJson?, if_pos h]
  rfl

theorem filename?_partFrame {p : Partial} (h : TextPaths.isText p.filename = true) :
    filename? (partFrame p) = some p.filename.toJson := by
  rw [filename?, results_partFrame h]
  rfl

namespace Answer

/-- The answer holds what has come in: some parts of it were sent, and the others wait; or all of it was
sent, and the outcome last. -/
inductive Holds (parts : List Partial) : Option (Except AnalysisError Response) → Answer → Prop
  | underway {outcome gone queue}
      (h : gone ++ queue = parts) : Holds parts outcome { queue, outcome, sent := gone.map partFrame }
  | complete {o} : Holds parts (some o) { outcome := some o, sent := frames parts o, complete := true }

namespace Holds

variable {a a' : Answer} {parts : List Partial} {outcome : Option (Except AnalysisError Response)}

theorem start (outcome : Option (Except AnalysisError Response)) : Holds [] outcome { outcome } :=
  @underway _ [] outcome [] [] rfl

theorem hear (h : a.Holds parts none) (p : Partial) :
    ∃ a', a.step (.part p) = some a' ∧ a'.Holds (parts ++ [p]) none ∧ a'.sent = a.sent := by
  cases h with
  | underway h => exact ⟨_, rfl, .underway (by rw [← h, append_assoc]), rfl⟩

theorem learn (h : a.Holds parts none) (o : Except AnalysisError Response) :
    ∃ a', a.step (.outcome o) = some a' ∧ a'.Holds parts (some o) ∧ a'.sent = a.sent := by
  cases h with
  | underway h => exact ⟨_, rfl, .underway h, rfl⟩

theorem eq_of_unsent (h : a.Holds parts outcome) (hs : a.sent = []) : a = { queue := parts, outcome } := by
  cases h with
  | underway h =>
    cases map_eq_nil_iff.mp hs
    cases h
    rfl
  | complete => exact absurd hs (concat_ne_nil _ _)

theorem sent_of_complete (h : a.Holds parts outcome) (hc : a.complete) :
    ∃ o, outcome = some o ∧ a.sent = frames parts o := by
  cases h with
  | underway => cases hc
  | complete => exact ⟨_, rfl, rfl⟩

theorem push (h : a.Holds parts outcome) (hs : a.step .push = some a') :
    a'.Holds parts outcome ∧ ∃ frame, a'.sent = a.sent ++ [frame] := by
  cases h with
  | @underway _ gone queue h =>
    cases queue with
    | cons p rest =>
      cases hs
      have hsent : gone.map partFrame ++ [partFrame p] = (gone ++ [p]).map partFrame := by simp
      refine ⟨?_, _, rfl⟩
      simp only [hsent]
      exact .underway (by rw [← h, append_assoc]; rfl)
    | nil =>
      cases outcome with
      | none => cases hs
      | some o =>
        cases hs
        rw [append_nil] at h
        subst h
        exact ⟨.complete, _, rfl⟩
  | complete => cases hs

theorem hearAll (h : a.Holds parts none) (more : List Partial) :
    ∃ a', (more.map Turn.part).foldlM step a = some a' ∧ a'.Holds (parts ++ more) none ∧ a'.sent = a.sent := by
  induction more generalizing a parts with
  | nil => exact ⟨a, rfl, by simpa using h, rfl⟩
  | cons p rest ih =>
    obtain ⟨b, hb, hholds, hsent⟩ := h.hear p
    obtain ⟨a', ha', hholds', hsent'⟩ := ih hholds
    refine ⟨a', ?_, by simpa using hholds', hsent'.trans hsent⟩
    rw [map_cons, foldlM_cons, hb]
    exact ha'

end Holds

end Answer

section Serving

variable {S : Type} {route : Request → S → (List Partial × Except AnalysisError Response) × S} {s s' : S}

inductive Serves (route : Request → S → (List Partial × Except AnalysisError Response) × S) :
    Frame → S → List Json → S → Prop
  | binary {s : S} : Serves route .binary s [] s
  | refused {body : String} {s : S} {e : AnalysisError} (hr : request body = .error e) :
      Serves route (.text body) s (Answer.frames [] (.error e)) s
  | asked {body : String} {s : S} {r : Request} (hr : request body = .ok r) :
      Serves route (.text body) s (Answer.frames (route r s).1.1 (route r s).1.2) (route r s).2

theorem serve_cons {frame : Frame} {rest : List Frame} {answers : List (List Json)}
    (h : serve route (frame :: rest) s = (answers, s')) :
    frame = .close ∧ answers = [] ∧ s' = s ∨
      ∃ sent s₁ later, Serves route frame s sent s₁ ∧ serve route rest s₁ = (later, s') ∧
        answers = sent :: later := by
  cases frame with
  | close =>
    cases h
    exact .inl ⟨rfl, rfl, rfl⟩
  | binary =>
    cases h
    exact .inr ⟨_, _, _, .binary, rfl, rfl⟩
  | text body =>
    simp only [serve] at h
    split at h
    · rename_i hr
      cases h
      exact .inr ⟨_, _, _, .asked hr, rfl, rfl⟩
    · rename_i hr
      cases h
      exact .inr ⟨_, _, _, .refused hr, rfl, rfl⟩

end Serving

end Channel

end AnalysisServer
