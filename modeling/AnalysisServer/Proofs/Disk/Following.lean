import AnalysisServer.Disk

namespace AnalysisServer.Disk

variable {root : Node} {links : Nat} {here : Location} {step : String} {rest : List String}
  {es : List (String × Node)}

theorem follow_nil : follow root links here [] = .ok here := by
  rw [follow_eq]

theorem follow_dot (hdir : root.get? here = some (.dir es)) :
    follow root links here ("." :: rest) = follow root links here rest := by
  rw [follow_eq]
  simp only [hdir, if_true]

theorem follow_dots (hdir : root.get? here = some (.dir es)) :
    follow root links here (".." :: rest) = follow root links here.dropLast rest := by
  rw [follow_eq]
  simp only [hdir]
  rw [if_neg (by decide), if_pos trivial]

structure Plain (step : String) : Prop where
  notDot : step ≠ "."
  notDots : step ≠ ".."
  short : Text.byteLength step.toList ≤ nameLimit

section

variable (hstep : Plain step) (hdir : root.get? here = some (.dir es))

include hstep hdir

theorem follow_notFound (hes : es.lookup step = none) : follow root links here (step :: rest) = .error .notFound := by
  rw [follow_eq]
  simp only [hdir, hstep.notDot, hstep.notDots, Nat.not_lt.mpr hstep.short, hes, if_false]

theorem follow_entry {n : Node} (hes : es.lookup step = some n) (hn : ∀ target, n ≠ .link target) :
    follow root links here (step :: rest) = follow root links (here ++ [step]) rest := by
  rw [follow_eq]
  simp only [hdir, hstep.notDot, hstep.notDots, Nat.not_lt.mpr hstep.short, hes, if_false]

theorem follow_link {target : Path} (hes : es.lookup step = some (.link target)) :
    follow root (links + 1) here (step :: rest) =
      follow root links (if target.isAbsolute then [] else here) (steps target ++ rest) := by
  rw [follow_eq]
  simp only [hdir, hstep.notDot, hstep.notDots, Nat.not_lt.mpr hstep.short, hes, if_false]

end

/-- The induction along the way: it is over, it goes on with fewer steps or with a link less, or it stops. -/
theorem follow_induction {motive : Nat → Location → List String → Prop} (root : Node)
    (nil : ∀ links here, motive links here [])
    (dot : ∀ links here rest es, root.get? here = some (.dir es) → motive links here rest →
      motive links here ("." :: rest))
    (dots : ∀ links here rest es, root.get? here = some (.dir es) → motive links here.dropLast rest →
      motive links here (".." :: rest))
    (link : ∀ left here step rest es target, Plain step → root.get? here = some (.dir es) →
      es.lookup step = some (.link target) →
      motive left (if target.isAbsolute then [] else here) (steps target ++ rest) →
      motive (left + 1) here (step :: rest))
    (entry : ∀ links here step rest es n, Plain step → root.get? here = some (.dir es) →
      es.lookup step = some n → (∀ target, n ≠ .link target) → motive links (here ++ [step]) rest →
      motive links here (step :: rest))
    (stop : ∀ links here step rest e, (∀ root' here' rest', root'.get? here' = root.get? here →
      follow root' links here' (step :: rest') = .error e) → motive links here (step :: rest))
    (links : Nat) (here : Location) (todo : List String) : motive links here todo := by
  induction links using Nat.strongRecOn generalizing here todo with
  | ind links ihlinks =>
    induction todo generalizing here with
    | nil => exact nil links here
    | cons step rest ih =>
      have hstop (e : DiskError) (h : ∀ root' here' rest', root'.get? here' = root.get? here →
          follow root' links here' (step :: rest') = .error e) : motive links here (step :: rest) :=
        stop links here step rest e h
      cases hdir : root.get? here with
      | none => exact hstop .notFound fun root' here' rest' hsame ↦ by rw [follow_eq]; simp only [hsame, hdir]
      | some m =>
        cases m with
        | file bytes | link target =>
          exact hstop .notDirectory fun root' here' rest' hsame ↦ by rw [follow_eq]; simp only [hsame, hdir]
        | dir es =>
          by_cases hdot : step = "."
          · rw [hdot]
            exact dot links here rest es hdir (ih here)
          by_cases hdots : step = ".."
          · rw [hdots]
            exact dots links here rest es hdir (ih _)
          by_cases hlong : Text.byteLength step.toList > nameLimit
          · refine hstop .nameTooLong fun root' here' rest' hsame ↦ ?_
            rw [follow_eq]
            simp only [hsame, hdir, hdot, hdots, hlong, if_true, if_false]
          have hplain : Plain step := ⟨hdot, hdots, Nat.not_lt.mp hlong⟩
          cases hes : es.lookup step with
          | none => exact hstop _ fun root' here' rest' hsame ↦ follow_notFound hplain (hsame.trans hdir) hes
          | some n =>
            by_cases hlink : ∃ target, n = .link target
            · obtain ⟨target, rfl⟩ := hlink
              cases links with
              | zero =>
                refine hstop .tooManyLinks fun root' here' rest' hsame ↦ ?_
                rw [follow_eq]
                simp only [hsame, hdir, hdot, hdots, hlong, hes, if_false]
              | succ left =>
                exact link left here step rest es target hplain hdir hes (ihlinks left (Nat.lt_succ_self _) _ _)
            · have hn (target : Path) : n ≠ .link target := fun h ↦ hlink ⟨target, h⟩
              exact entry links here step rest es n hplain hdir hes hn (ih _)

theorem readText_toUTF8 {d : Disk} {p : Path} {text : String}
    (h : d.read p = .ok text.toUTF8) : d.readText p = .ok text := by
  have hvalid : String.fromUTF8? text.toUTF8 = some text := by
    simp [String.fromUTF8?, text.isValidUTF8, String.fromUTF8]
  simp only [readText, h, hvalid]

end AnalysisServer.Disk
