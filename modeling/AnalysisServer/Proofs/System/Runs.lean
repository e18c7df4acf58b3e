import AnalysisServer.Proofs.System.CallSteps
import AnalysisServer.System.Schedule

namespace AnalysisServer

variable {σ : Type} {x : Call} {q : Pool σ} {s : System σ} {setup : PoolSetup σ} {y : Call}

structure Call.Same (x y : Call) : Prop where
  request : y.request = x.request
  streaming : y.streaming = x.streaming
  router : y.router = x.router
  heard : x.heard <+: y.heard

theorem Call.Same.refl (x : Call) : x.Same x := ⟨rfl, rfl, rfl, List.prefix_rfl⟩

theorem Call.Same.trans {z : Call} (h : x.Same y) (h' : y.Same z) : x.Same z :=
  ⟨h'.request.trans h.request, h'.streaming.trans h.streaming, h'.router.trans h.router, h.heard.trans h'.heard⟩

theorem Call.same_ended (x : Call) (stage : Stage) : x.Same (x.ended stage) := ⟨rfl, rfl, rfl, List.prefix_rfl⟩

theorem Call.Step.same [Digest] (h : x.Step setup s q y) : x.Same y := by
  cases h with
  | hearPart => exact ⟨rfl, rfl, rfl, List.prefix_append _ _⟩
  | _ => exact ⟨rfl, rfl, rfl, List.prefix_rfl⟩

theorem Call.Step.isOpen [Digest] (h : x.Step setup s q y) : x.isOpen := by
  cases h <;> simp only [Call.isOpen, *]

theorem Call.closed_of_outcome {outcome : Except AnalysisError Response}
    (h : x.outcome? = some outcome) : x.isOpen = false := by
  unfold Call.outcome? at h
  unfold Call.isOpen
  split at h <;> simp_all

theorem Call.isOpen_of_isWaiting (h : x.isWaiting) : x.isOpen := by
  unfold Call.isWaiting at h
  unfold Call.isOpen
  split at h <;> simp_all

namespace System

def opened (setup : SystemSetup σ) (count : Nat) (disk : Disk) (timeouts : List Nat) : System σ :=
  { pool := Pool.start setup.toPoolSetup count disk
    routers := timeouts.map fun timeout ↦ { timeout } }

variable [Digest] {setup : SystemSetup σ} {s s' t : System σ} {c : Nat} {x : Call} {deeds : List Deed} {e : Event}

/-- Whatever may come of a system. -/
inductive Run (setup : SystemSetup σ) (s : System σ) : System σ → Prop
  | refl : Run setup s s
  | call {t : System σ} (h : Run setup s t) (request : Request) (streaming : Bool)
      (router : Option Nat) : Run setup s (t.begin { request, streaming, router }).2
  | shutdown {t : System σ} (h : Run setup s t) (router grace : Nat) : Run setup s (t.beginShutdown router grace).2
  | step {t u : System σ} {e : Event} (h : Run setup s t) (hstep : t.step setup e = some u) : Run setup s u

inductive Deed where
  | call (request : Request) (streaming : Bool) (router : Option Nat)
  | shutdown (router grace : Nat)
  | event (e : Event)

def calling (request : Request) (router : Option Nat) (es : List Event) : List Deed :=
  .call request false router :: es.map .event

/-- Goes through a run told step by step, as long as everything in it can happen. -/
def perform (setup : SystemSetup σ) : List Deed → System σ → Option (System σ)
  | [], s => some s
  | .call request streaming router :: rest, s =>
    perform setup rest (s.begin { request, streaming, router }).2
  | .shutdown router grace :: rest, s => perform setup rest (s.beginShutdown router grace).2
  | .event e :: rest, s => (s.step setup e).bind (perform setup rest)

theorem Run.perform (h : Run setup s t) (hp : perform setup deeds t = some s') : Run setup s s' := by
  induction deeds generalizing t with
  | nil =>
    cases hp
    exact h
  | cons d rest ih =>
    cases d with
    | call request streaming router => exact ih (h.call request streaming router) hp
    | shutdown router grace => exact ih (h.shutdown router grace) hp
    | event e =>
      obtain ⟨u, hu, hp⟩ := Option.bind_eq_some_iff.mp hp
      exact ih (h.step hu) hp

theorem exists_run {P : System σ → Bool} (h : (perform setup deeds s).any P) : ∃ s', Run setup s s' ∧ P s' := by
  obtain ⟨s', hs', hP⟩ := (Option.any_eq_true _ _).mp h
  exact ⟨s', Run.refl.perform hs', hP⟩

section Schedule

theorem Run.trans (h : Run setup s t) (h' : Run setup t s') : Run setup s s' := by
  induction h' with
  | refl => exact h
  | call _ request streaming router ih => exact ih.call request streaming router
  | shutdown _ router grace ih => exact ih.shutdown router grace
  | step _ hstep ih => exact ih.step hstep

theorem Run.one {e : Event} (h : s.step setup e = some s') : Run setup s s' := Run.refl.step h

theorem run_settleWithin (n : Nat) (s : System σ) : Run setup s (settleWithin setup n s) := by
  induction n generalizing s with
  | zero => exact .refl
  | succ n ih =>
    simp only [settleWithin]
    split
    · rename_i t ht
      obtain ⟨e, -, he⟩ := List.exists_of_findSome?_eq_some ht
      exact (Run.one he).trans (ih t)
    · exact .refl

theorem run_of_ring (h : s.ring setup = some s') : Run setup s s' := by
  unfold ring at h
  split at h
  · cases h
  · rename_i due event _
    have hpass : s.step setup (.pass (max s.now due - s.now)) = some { s with now := max s.now due } := by
      have hnow : s.now + (max s.now due - s.now) = max s.now due := by omega
      simp only [System.step, hnow]
    exact (Run.one hpass).step h

theorem run_await (goal : System σ → Bool) (s : System σ) : Run setup s (s.await setup goal) := by
  have hwithin (n : Nat) (s : System σ) : Run setup s (awaitWithin setup goal n s) := by
    induction n generalizing s with
    | zero => exact run_settleWithin _ s
    | succ n ih =>
      simp only [awaitWithin]
      have hsettle : Run setup s (s.settle setup) := run_settleWithin _ s
      split
      · exact hsettle
      · split
        · rename_i t ht
          exact hsettle.trans ((run_of_ring ht).trans (ih t))
        · exact hsettle
  exact hwithin _ s

end Schedule

theorem calls_of_step (h : s.step setup e = some s') :
    s'.calls = s.calls ∨ ∃ c x y, s.calls[c]? = some x ∧ x.isOpen ∧ x.Same y ∧ s'.calls = s.calls.set c y := by
  cases proceeds_of_step h with
  | work | monitor | replay | drain | beginClose | close | graceOver | pass => exact .inl rfl
  | call hx hstep hb => exact .inr ⟨_, _, _, hx, hstep.isOpen, hstep.same, hb.calls⟩
  | timeUp hx hw _ hb => exact .inr ⟨_, _, _, hx, Call.isOpen_of_isWaiting hw, Call.same_ended _ _, hb.calls⟩
  | abandon hx ho hb => exact .inr ⟨_, _, _, hx, ho, Call.same_ended _ _, hb.calls⟩
  | shutdown hcalls | shutdownClose hcalls | drainOver hcalls => exact .inl hcalls

theorem step_call (h : s.step setup e = some s') (hx : s.calls[c]? = some x) :
    ∃ y, s'.calls[c]? = some y ∧ x.Same y ∧ (x.isOpen = false → y = x) := by
  obtain hcalls | ⟨c', x', y, hx', hopen, hsame, hcalls⟩ := calls_of_step h
  · exact ⟨x, hcalls ▸ hx, .refl x, fun _ ↦ rfl⟩
  · rw [hcalls]
    by_cases hc : c' = c
    · subst hc
      cases hx.symm.trans hx'
      refine ⟨y, getElem?_set_same hx, hsame, fun hclosed ↦ ?_⟩
      rw [hopen] at hclosed
      cases hclosed
    · exact ⟨x, (List.getElem?_set_ne hc).trans hx, .refl x, fun _ ↦ rfl⟩

theorem Run.call_stays (h : Run setup s s') (hx : s.calls[c]? = some x) :
    ∃ y, s'.calls[c]? = some y ∧ x.Same y ∧ (x.isOpen = false → y = x) := by
  induction h with
  | refl => exact ⟨x, hx, .refl x, fun _ ↦ rfl⟩
  | call _ request streaming router ih =>
    obtain ⟨y, hy, hkeep⟩ := ih
    exact ⟨y, (List.getElem?_append_left (lt_of_getElem? hy)).trans hy, hkeep⟩
  | shutdown _ router grace ih => exact ih
  | step _ hstep ih =>
    obtain ⟨y, hy, hsame, hover⟩ := ih
    obtain ⟨z, hz, hsame', hover'⟩ := step_call hstep hy
    refine ⟨z, hz, hsame.trans hsame', fun hclosed ↦ ?_⟩
    obtain rfl := hover hclosed
    exact hover' hclosed

/-- An engine that goes down with every file, and takes bundles only if it is ready for them. -/
def brittle : RuleEngine Bool where
  initial := true
  loadBundle _ _ ready := (if ready then .ok () else .error (.config "no bundle"), ready)
  evaluate _ _ := .error .crashed

def brittleSetup (ready : WorkerId → Bool) : SystemSetup Bool where
  engine := brittle
  session w _ := { options := {}, engine := ready w }
  affinity _ := 0
  closeGrace := 0

def bareLinter : Linter := { baseDir := ⟨"/"⟩ }

def bundledLinter : Linter := { baseDir := ⟨"/"⟩, bundles := [⟨"/b"⟩] }

def styleRequest : Request :=
  .analyzeCss { path := ⟨"/a.css"⟩, content := some "", language := some .css }

end System

end AnalysisServer
