import AnalysisServer.Proofs.Session.Linters
import Mathlib.Data.List.Induction

namespace AnalysisServer

open List

namespace RuleEngine

variable {σ : Type}

def logged (engine : RuleEngine σ) : RuleEngine (σ × List Path) where
  initial := (engine.initial, [])
  loadBundle disk bundle state :=
    match engine.loadBundle disk bundle state.1 with
    | (.ok _, inner) => (.ok (), inner, state.2 ++ [bundle])
    | (.error e, inner) => (.error e, inner, state.2)
  evaluate state := engine.evaluate state.1

variable (engine : RuleEngine σ) (disk : Disk) (bundles : List Path)

theorem loadAll_loaded (state : σ) : (engine.loadAll disk bundles state).2.1 <+: bundles ∧
    ((engine.loadAll disk bundles state).1 = .ok () → (engine.loadAll disk bundles state).2.1 = bundles) := by
  induction bundles generalizing state with
  | nil => exact ⟨prefix_rfl, fun _ ↦ rfl⟩
  | cons bundle rest ih =>
    rw [loadAll]
    split
    · exact ⟨List.nil_prefix, by simp⟩
    · rename_i state' _
      obtain ⟨hbegins, hall⟩ := ih state'
      exact ⟨cons_prefix_cons.mpr ⟨rfl, hbegins⟩, fun h ↦ congrArg _ (hall h)⟩

theorem loadAll_logged (state : σ × List Path) : (engine.logged.loadAll disk bundles state).2.2.2 =
    state.2 ++ (engine.logged.loadAll disk bundles state).2.1 := by
  induction bundles generalizing state with
  | nil => exact (append_nil _).symm
  | cons bundle rest ih =>
    rw [loadAll, logged]
    dsimp only
    rcases engine.loadBundle disk bundle state.1 with ⟨_ | _, inner⟩
    · exact (append_nil _).symm
    · exact (ih _).trans (append_assoc _ _ _)

end RuleEngine

structure Setup where
  linter : Linter
  disk : Disk

namespace Session

variable {σ : Type}

def setUp (engine : RuleEngine σ) (s : Session σ) (call : Setup) : Except AnalysisError Unit × Session σ :=
  let r := (initLinter engine call.linter).run.run ⟨s, call.disk⟩
  (r.1, r.2.session)

def afterSetups (engine : RuleEngine σ) (options : SessionOptions) (calls : List Setup) : Session σ :=
  calls.foldl (fun s call ↦ (s.setUp engine call).2) (.fresh engine options)

structure Loads (options : SessionOptions) (call : Setup) (s : Session (σ × List Path)) (new : List Path)
    (r : Except AnalysisError Unit × Session (σ × List Path)) : Prop where
  log : r.2.engine.2 = s.engine.2 ++ new
  listed : new <+: (options.ruleBundles ++ call.linter.bundles).filter fun b ↦ !s.engine.2.any b.same
  failed : ∀ e, r.1 = .error e → r.2.linter = s.linter
  installed : r.1 = .ok () → r.2.linter = some call.linter ∧
    ∀ b ∈ options.ruleBundles ++ call.linter.bundles, r.2.engine.2.any b.same = true

/-- The session knows which bundles the engine has loaded. -/
structure Knows (options : SessionOptions) (s : Session (σ × List Path)) : Prop where
  options : s.options = options
  bundles : s.loadedBundles = s.engine.2

variable {engine : RuleEngine σ} {options : SessionOptions} {s : Session (σ × List Path)}

theorem Knows.setUp (h : s.Knows options) (call : Setup) : (s.setUp engine.logged call).2.Knows options ∧
    ∃ new, Loads options call s new (s.setUp engine.logged call) := by
  have hload : s.toLoad call.linter =
      (options.ruleBundles ++ call.linter.bundles).filter fun b ↦ !s.engine.2.any b.same := by
    simp only [toLoad, isLoaded, h.options, h.bundles]
  rw [Session.setUp, initLinter_run]
  cases call.linter.validate with
  | error e =>
    exact ⟨h, [], (append_nil _).symm, nil_prefix, fun _ _ ↦ rfl, nofun⟩
  | ok _ =>
    have hlog := engine.loadAll_logged call.disk (s.toLoad call.linter) s.engine
    have hloaded := engine.logged.loadAll_loaded call.disk (s.toLoad call.linter) s.engine
    dsimp only
    rcases hr : engine.logged.loadAll call.disk (s.toLoad call.linter) s.engine with ⟨r, new, state⟩
    rw [hr] at hlog hloaded
    refine ⟨⟨h.options, ?_⟩, new, hlog, hload ▸ hloaded.1, ?_, ?_⟩
    · exact (congrArg (· ++ new) h.bundles).trans hlog.symm
    · rintro e rfl
      rfl
    · rintro rfl
      refine ⟨rfl, fun b hb ↦ ?_⟩
      change state.2.any b.same = true
      rw [hlog, hloaded.2 rfl, hload, any_append, Bool.or_eq_true]
      by_cases hold : s.engine.2.any b.same = true
      · exact .inl hold
      · refine .inr (any_eq_true.mpr ⟨b, mem_filter.mpr ⟨hb, ?_⟩, Path.same_iff.mpr rfl⟩)
        rwa [Bool.not_eq_true', ← Bool.not_eq_true]

theorem afterSetups_concat (calls : List Setup) (call : Setup) : afterSetups engine.logged options (calls ++ [call]) =
    ((afterSetups engine.logged options calls).setUp engine.logged call).2 := by
  rw [afterSetups, foldl_concat]
  rfl

theorem knows_afterSetups (calls : List Setup) : (afterSetups engine.logged options calls).Knows options := by
  induction calls using List.reverseRecOn with
  | nil => exact ⟨rfl, rfl⟩
  | append_singleton calls call ih =>
    rw [afterSetups_concat]
    exact (ih.setUp call).1

/-- The engine has loaded no bundle twice, unless one call made it do so. -/
theorem bundles_loaded_once_iff (engine : RuleEngine σ) (options : SessionOptions) (calls : List Setup) :
    (∀ call, ∃ new, Loads options call (afterSetups engine.logged options calls) new
      ((afterSetups engine.logged options calls).setUp engine.logged call)) ∧
    (((afterSetups engine.logged options calls).engine.2.Pairwise fun p q ↦ p.same q = false) ↔
      ∀ before call new, before ++ [call] <+: calls →
        (afterSetups engine.logged options (before ++ [call])).engine.2 =
          (afterSetups engine.logged options before).engine.2 ++ new →
        new.Pairwise fun p q ↦ p.same q = false) := by
  refine ⟨fun call ↦ ((knows_afterSetups calls).setUp call).2, ?_⟩
  induction calls using List.reverseRecOn with
  | nil =>
    refine ⟨fun _ before call new h ↦ ?_, fun _ ↦ .nil⟩
    simp at h
  | append_singleton calls call ih =>
    have hknows : (afterSetups engine.logged options calls).Knows options := knows_afterSetups calls
    obtain ⟨-, new, hloads⟩ := hknows.setUp call
    have hlog := hloads.log
    rw [← afterSetups_concat] at hlog
    rw [hlog, pairwise_append, ih]
    constructor
    · rintro ⟨hbefore, hnew, -⟩ before call' new' hcalls hlog'
      obtain heq | hcalls := prefix_concat_iff.mp hcalls
      · obtain ⟨rfl, hcall⟩ := append_inj' heq rfl
        cases hcall
        rwa [← append_cancel_left (hlog.symm.trans hlog')]
      · exact hbefore before call' new' hcalls hlog'
    · intro h
      refine ⟨fun before call' new' hcalls ↦ h before call' new' (hcalls.trans (prefix_append _ _)),
        h calls call new prefix_rfl hlog, fun p hp q hq ↦ ?_⟩
      -- what is new was not loaded when the call began
      have hfresh := (mem_filter.mp (hloads.listed.mem hq)).2
      rw [Bool.not_eq_true', any_eq_false] at hfresh
      exact Path.not_same_symm (Bool.not_eq_true _ ▸ hfresh p hp)

theorem bundle_loaded_twice : (afterSetups RuleEngine.silent.logged { ruleBundles := [⟨"/b.js"⟩] }
    [⟨{ baseDir := ⟨"/"⟩, bundles := [⟨"/b.js"⟩] }, { root := .dir [("b.js", .file .empty)] }⟩]).engine.2 =
      [⟨"/b.js"⟩, ⟨"/b.js"⟩] := by
  decide +kernel

end Session

end AnalysisServer
