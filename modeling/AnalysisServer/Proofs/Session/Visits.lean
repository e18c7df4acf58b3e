import AnalysisServer.Proofs.Session.Gathering

/-!
Sessions that serve one request after the other, each of them to its end, while others may change the disk
between two requests.
-/

namespace AnalysisServer

structure Visit (σ : Type) where
  before : Workspace σ
  request : Request
  streaming : Bool := false

namespace Session

variable {σ : Type} [Digest] {engine : RuleEngine σ}

section Finishing

variable {P : Workspace σ → Prop} (hstep : ∀ {task a w w'}, step engine task w = .ok (a, w') → P w → P w')

include hstep

omit [Digest] in
theorem finish_preserves (fuel : Nat) (task : Task) {w : Workspace σ} (sent : List Partial) (h : P w) :
    P (finish engine fuel task w sent).2.1 := by
  induction fuel generalizing task w sent with
  | zero => exact h
  | succ fuel ih =>
    rw [finish]
    split
    · exact h
    · rename_i a w' hs
      dsimp only
      split
      · exact hstep hs h
      · exact ih _ _ (hstep hs h)

theorem handle_preserves {request : Request} {streaming : Bool} {w : Workspace σ}
    (h : P (begin engine request streaming w).2) : P (handle engine request streaming w).2.1 := by
  unfold handle
  split
  · rename_i hb
    rwa [hb] at h
  · rename_i hb
    rw [hb] at h
    exact finish_preserves hstep _ _ _ h

end Finishing

end Session

namespace Visit

variable {σ : Type} [Digest] (engine : RuleEngine σ) (v : Visit σ)

def outcome : Except Halt (Except AnalysisError Response) :=
  (Session.handle engine v.request v.streaming v.before).1

def after : Workspace σ :=
  (Session.handle engine v.request v.streaming v.before).2.1

end Visit

/-- The visits to a session, and the workspace after the last of them. What is allowed may depend on the disk
that the visit before has left. -/
inductive Workspace.Visited {σ : Type} [Digest] (engine : RuleEngine σ) (allows : Disk → Visit σ → Prop)
    (start : Workspace σ) : List (Visit σ) → Workspace σ → Prop
  | none : Visited engine allows start [] start
  | visit {visits w} (h : Visited engine allows start visits w) (v : Visit σ)
      (hs : v.before.session = w.session) (hv : allows w.disk v) :
      Visited engine allows start (visits ++ [v]) (v.after engine)

namespace Session

def projectDisk (files others : List (String × Node)) : Disk :=
  { root := .dir (("p", .dir files) :: others) }

def projectRequest (events : List FileEvent) : Request :=
  .analyzeProject
    { configuration := { baseDir := some ⟨"/p"⟩, fsEvents := events }
      rules := [{ key := "S1" }] }

end Session

end AnalysisServer
