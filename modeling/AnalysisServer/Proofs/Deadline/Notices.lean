import AnalysisServer.Deadline

namespace AnalysisServer.Deadline

open List

variable {α : Type}

/-- What is to be seen of a deadline, with the number of the start that it is about. -/
inductive Mark (α : Type) where
  | started (n : Nat) (notice : α)
  | stopped (ran : Bool)
  | checked (n : Nat) (notice : Option α)
  | lapsed (n : Nat)

/-- What may happen to a deadline. To drop it is to stop it. A sleeper wakes up at any time, even if it
was called off; if it was, it may as well be gone without waking up. -/
inductive Step (d : Deadline α) : Mark α → Deadline α → Prop
  | start (now : Nat) (notice : α) : Step d (.started (d.generation + 1) notice) (d.start now notice)
  | stop : Step d (.stopped d.stop.1) d.stop.2
  | wake {i s} (hs : d.sleepers[i]? = some s) : Step d (.checked s.generation (d.wake i).1) (d.wake i).2
  | lapse {i s} (hs : d.sleepers[i]? = some s) (hoff : s.generation ∈ d.calledOff) :
      Step d (.lapsed s.generation) { d with sleepers := d.sleepers.eraseIdx i }

inductive Run (d : Deadline α) : List (Mark α) → Deadline α → Prop
  | refl : Run d [] d
  | step {marks t u m} (h : Run d marks t) (hs : t.Step m u) : Run d (marks ++ [m]) u

/-- The start of this number gives notice in some way of going on. -/
def MayFire (d : Deadline α) (n : Nat) : Prop :=
  ∃ marks t notice, Run d marks t ∧ .checked n (some notice) ∈ marks

def Mark.Ends (n : Nat) : Mark α → Prop
  | .started _ _ => True
  | .stopped ran => ran = true
  | .checked n' notice => n' = n ∧ notice.isSome
  | .lapsed _ => False

/-- The latest start has this number and this notice, and has neither given notice nor been stopped. -/
def Stands (marks : List (Mark α)) (n : Nat) (notice : α) : Prop :=
  ∃ before after, marks = before ++ .started n notice :: after ∧ ∀ m ∈ after, ¬ m.Ends n

variable {d t u : Deadline α} {m : Mark α} {marks marks' : List (Mark α)} {n : Nat} {notice : α} {s : Sleeper α}

section Marks

theorem concat_eq_append_cons {before after : List (Mark α)} {m' : Mark α}
    (h : marks ++ [m] = before ++ m' :: after) :
    (after = [] ∧ marks = before ∧ m = m') ∨ ∃ rest, after = rest ++ [m] ∧ marks = before ++ m' :: rest := by
  obtain rfl | ⟨rest, last, rfl⟩ := after.eq_nil_or_concat
  · obtain ⟨rfl, he⟩ := append_inj' h rfl
    cases he
    exact .inl ⟨rfl, rfl, rfl⟩
  · rw [concat_eq_append, ← cons_append, ← append_assoc] at h
    obtain ⟨rfl, he⟩ := append_inj' h rfl
    cases he
    exact .inr ⟨rest, concat_eq_append, rfl⟩

theorem stands_concat :
    Stands (marks ++ [m]) n notice ↔ m = .started n notice ∨ (Stands marks n notice ∧ ¬ m.Ends n) := by
  constructor
  · rintro ⟨before, after, he, hafter⟩
    obtain ⟨-, -, rfl⟩ | ⟨rest, rfl, rfl⟩ := concat_eq_append_cons he
    · exact .inl rfl
    · exact .inr ⟨⟨before, rest, rfl, fun m' hm' ↦ hafter m' (mem_append_left _ hm')⟩,
        hafter m (mem_append_right _ (mem_singleton.mpr rfl))⟩
  · rintro (rfl | ⟨⟨before, after, rfl, hafter⟩, hm⟩)
    · exact ⟨marks, [], rfl, nofun⟩
    · refine ⟨before, after ++ [m], by simp, fun m' hm' ↦ ?_⟩
      obtain hm' | hm' := mem_append.mp hm'
      · exact hafter m' hm'
      · exact mem_singleton.mp hm' ▸ hm

theorem Run.trans (h : Run d marks t) (h' : Run t marks' u) : Run d (marks ++ marks') u := by
  induction h' with
  | refl => simpa using h
  | step _ hs ih =>
    rw [← append_assoc]
    exact ih.step hs

theorem Run.split {before after : List (Mark α)} (h : Run d (before ++ m :: after) u) :
    ∃ t t', Run d before t ∧ t.Step m t' := by
  generalize he : before ++ m :: after = marks at h
  induction h generalizing after with
  | refl => simp at he
  | step h hs ih =>
    obtain ⟨-, rfl, rfl⟩ | ⟨rest, -, rfl⟩ := concat_eq_append_cons he.symm
    · exact ⟨_, _, h, hs⟩
    · exact ih rfl

end Marks

section Keeping

structure Keeps (marks : List (Mark α)) (d : Deadline α) : Prop where
  started {n : Nat} {notice : α} : .started n notice ∈ marks → n ≤ d.generation
  fired {n : Nat} {notice : α} : .checked n (some notice) ∈ marks →
    n ≤ d.generation ∧ (d.state = .running → n < d.generation)
  asleep {s : Sleeper α} : s ∈ d.sleepers → .started s.generation s.notice ∈ marks
  distinct : (d.sleepers.map Sleeper.generation).Nodup
  task {n : Nat} : d.task = some n → n ≤ d.generation
  calledOff {n : Nat} : n ∈ d.calledOff → n ≤ d.generation ∧ (d.state = .running → n < d.generation)
  waiting : d.state = .running → ∃ s ∈ d.sleepers, s.generation = d.generation
  stands {n : Nat} {notice : α} : Stands marks n notice ↔
    d.state = .running ∧ n = d.generation ∧ ∃ s ∈ d.sleepers, s.generation = n ∧ s.notice = notice

namespace Keeps

theorem new (delay : Nat) : Keeps [] ({ delay } : Deadline α) := by
  refine ⟨nofun, nofun, nofun, nodup_nil, nofun, nofun, nofun, fun h ↦ ?_, nofun⟩
  obtain ⟨before, after, he, -⟩ := h
  simp at he

section

variable (h : Keeps marks d)

include h

theorem calledOff_callOff (hn : n ∈ d.callOff.calledOff) : n ≤ d.generation := by
  obtain hn | hn := mem_append.mp hn
  · exact (h.calledOff hn).1
  · exact h.task (Option.mem_toList.mp hn)

theorem start (now : Nat) (notice : α) :
    Keeps (marks ++ [Mark.started (d.generation + 1) notice]) (d.start now notice) := by
  have hold {s} (hs : s ∈ d.sleepers) : s.generation < d.generation + 1 :=
    Nat.lt_succ_of_le (h.started (h.asleep hs))
  have hnew : (⟨d.generation + 1, now + d.delay, notice⟩ : Sleeper α) ∈ (d.start now notice).sleepers :=
    mem_append_right _ (mem_singleton.mpr rfl)
  refine ⟨fun hm ↦ ?_, fun hm ↦ ?_, fun hs ↦ ?_, ?_, fun ht ↦ ?_, fun hn ↦ ?_, fun _ ↦ ⟨_, hnew, rfl⟩, ?_⟩
  · obtain hm | hm := mem_append.mp hm
    · exact Nat.le_succ_of_le (h.started hm)
    · cases mem_singleton.mp hm
      exact Nat.le_refl _
  · obtain hm | hm := mem_append.mp hm
    · have hlt := Nat.lt_succ_of_le (h.fired hm).1
      exact ⟨Nat.le_of_lt hlt, fun _ ↦ hlt⟩
    · cases mem_singleton.mp hm
  · obtain hs | hs := mem_append.mp hs
    · exact mem_append_left _ (h.asleep hs)
    · cases mem_singleton.mp hs
      exact mem_append_right _ (mem_singleton.mpr rfl)
  · have hfresh : ∀ a ∈ d.sleepers.map Sleeper.generation, ∀ b ∈ [d.generation + 1], a ≠ b := by
      intro a ha b hb
      obtain ⟨s, hs, rfl⟩ := mem_map.mp ha
      rw [mem_singleton.mp hb]
      exact Nat.ne_of_lt (hold hs)
    simpa [Deadline.start] using nodup_append.mpr ⟨h.distinct, by simp, hfresh⟩
  · cases ht
    exact Nat.le_refl _
  · have hlt := Nat.lt_succ_of_le (h.calledOff_callOff hn)
    exact ⟨Nat.le_of_lt hlt, fun _ ↦ hlt⟩
  · -- a start ends whatever stood before, and its own sleeper is the only one of its number
    intro n notice'
    rw [stands_concat]
    constructor
    · rintro (he | ⟨-, hends⟩)
      · cases he
        exact ⟨rfl, rfl, _, hnew, rfl, rfl⟩
      · exact (hends trivial).elim
    · rintro ⟨-, rfl, s, hs, hgen, rfl⟩
      obtain hs | hs := mem_append.mp hs
      · exact (Nat.ne_of_lt (hold hs) hgen).elim
      · cases mem_singleton.mp hs
        exact .inl rfl

theorem rest (hstate : t.state ≠ .running)
    (hgen : d.generation ≤ t.generation) (hsleepers : t.sleepers.Sublist d.sleepers)
    (htask : t.task = none) (hoff : ∀ n ∈ t.calledOff, n ≤ d.generation)
    (hm : ∀ n notice, m ≠ .started n notice)
    (hfire : ∀ n notice, m = .checked n (some notice) → n = d.generation)
    (hends : m.Ends d.generation) : Keeps (marks ++ [m]) t := by
  refine ⟨fun hmem ↦ ?_, fun hmem ↦ ?_, fun hs ↦ mem_append_left _ (h.asleep (hsleepers.subset hs)),
    h.distinct.sublist (hsleepers.map _), fun ht ↦ ?_, fun hn ↦ ⟨Nat.le_trans (hoff _ hn) hgen, ?_⟩,
    fun ht ↦ (hstate ht).elim, ?_⟩
  · obtain hmem | hmem := mem_append.mp hmem
    · exact Nat.le_trans (h.started hmem) hgen
    · exact (hm _ _ (mem_singleton.mp hmem).symm).elim
  · refine ⟨?_, fun ht ↦ (hstate ht).elim⟩
    obtain hmem | hmem := mem_append.mp hmem
    · exact Nat.le_trans (h.fired hmem).1 hgen
    · exact hfire _ _ (mem_singleton.mp hmem).symm ▸ hgen
  · rw [htask] at ht
    cases ht
  · exact fun ht ↦ (hstate ht).elim
  · intro n notice
    rw [stands_concat]
    constructor
    · rintro (he | ⟨hstands, hends'⟩)
      · exact (hm _ _ he).elim
      · obtain ⟨-, rfl, -⟩ := h.stands.mp hstands
        exact (hends' hends).elim
    · exact fun ht ↦ (hstate ht.1).elim

theorem quiet (hm : ∀ n, ¬ m.Ends n) : Keeps (marks ++ [m]) d := by
  refine ⟨fun hmem ↦ ?_, fun hmem ↦ ?_, fun hs ↦ mem_append_left _ (h.asleep hs), h.distinct, h.task,
    h.calledOff, h.waiting, ?_⟩
  · obtain hmem | hmem := mem_append.mp hmem
    · exact h.started hmem
    · cases mem_singleton.mp hmem
      exact (hm 0 trivial).elim
  · obtain hmem | hmem := mem_append.mp hmem
    · exact h.fired hmem
    · cases mem_singleton.mp hmem
      exact (hm _ ⟨rfl, rfl⟩).elim
  · intro n notice
    rw [stands_concat, ← h.stands]
    refine ⟨fun hm' ↦ hm'.elim (fun he ↦ ?_) And.left, fun hs ↦ .inr ⟨hs, hm n⟩⟩
    cases he
    exact (hm n trivial).elim

theorem without {i : Nat} (hs : d.sleepers[i]? = some s) (hcounts : d.state = .running → s.generation ≠ d.generation) :
    Keeps marks { d with sleepers := d.sleepers.eraseIdx i } := by
  have hsub : (d.sleepers.eraseIdx i).Sublist d.sleepers := eraseIdx_sublist _ _
  have hkeep {s'} (hrun : d.state = .running) (hs' : s' ∈ d.sleepers)
      (hgen : s'.generation = d.generation) : s' ∈ d.sleepers.eraseIdx i := by
    obtain ⟨j, hj⟩ := mem_iff_getElem?.mp hs'
    refine mem_eraseIdx_iff_getElem?.mpr ⟨j, fun hji ↦ hcounts hrun ?_, hj⟩
    rw [hji, hs] at hj
    cases hj
    exact hgen
  refine ⟨h.started, h.fired, fun hs' ↦ h.asleep (hsub.subset hs'), h.distinct.sublist (hsub.map _), h.task,
    h.calledOff, fun hrun ↦ ?_, ?_⟩
  · obtain ⟨s', hs', hgen⟩ := h.waiting hrun
    exact ⟨s', hkeep hrun hs' hgen, hgen⟩
  · intro n notice
    rw [h.stands]
    constructor
    · rintro ⟨hrun, rfl, s', hs', hgen, hnotice⟩
      exact ⟨hrun, rfl, s', hkeep hrun hs' hgen, hgen, hnotice⟩
    · rintro ⟨hrun, hn, s', hs', hgen, hnotice⟩
      exact ⟨hrun, hn, s', hsub.subset hs', hgen, hnotice⟩

theorem stop : Keeps (marks ++ [Mark.stopped d.stop.1]) d.stop.2 := by
  unfold Deadline.stop
  split
  · exact h.rest nofun (Nat.le_succ _) (List.Sublist.refl _) rfl (fun _ ↦ h.calledOff_callOff) nofun nofun rfl
  · exact h.quiet nofun

theorem step (hs : d.Step m t) : Keeps (marks ++ [m]) t := by
  cases hs with
  | start now notice => exact h.start now notice
  | stop => exact h.stop
  | @wake i s hs =>
    simp only [Deadline.wake, hs, Deadline.check]
    split
    · rename_i hcounts
      simp only [counts, Bool.and_eq_true, beq_iff_eq, decide_eq_true_eq] at hcounts
      refine h.rest nofun (Nat.le_refl _) (eraseIdx_sublist _ _) rfl
        (fun _ hn ↦ (h.calledOff hn).1) nofun (fun n notice he ↦ ?_) ⟨hcounts.1, rfl⟩
      cases he
      exact hcounts.1
    · rename_i hcounts
      simp only [counts, Bool.and_eq_true, beq_iff_eq, decide_eq_true_eq] at hcounts
      exact (h.without hs fun hrun hgen ↦ hcounts ⟨hgen, hrun⟩).quiet fun _ hends ↦ nomatch hends.2
  | lapse hs hoff =>
    exact (h.without hs fun hrun ↦ Nat.ne_of_lt ((h.calledOff hoff).2 hrun)).quiet fun _ hends ↦ hends

theorem run (hr : Run d marks' t) : Keeps (marks ++ marks') t := by
  induction hr with
  | refl => simpa using h
  | step _ hs ih =>
    rw [← append_assoc]
    exact ih.step hs

end

end Keeps

end Keeping

section Runs

theorem Keeps.stands_of_fired (h : Keeps marks d) (hs : d.Step (.checked n (some notice)) t) :
    n = d.generation ∧ d.state = .running ∧ Stands marks n notice := by
  generalize hm : Mark.checked n (some notice) = m at hs
  cases hs with
  | start | stop | lapse => cases hm
  | @wake i s hs =>
    simp only [Mark.checked.injEq, Deadline.wake, hs, Deadline.check] at hm
    obtain ⟨rfl, hm⟩ := hm
    split at hm
    · rename_i hcounts
      cases hm
      simp only [counts, Bool.and_eq_true, beq_iff_eq, decide_eq_true_eq] at hcounts
      exact ⟨hcounts.1, hcounts.2, h.stands.mpr ⟨hcounts.2, hcounts.1, s, mem_of_getElem? hs, rfl, rfl⟩⟩
    · cases hm

theorem Keeps.running_iff (h : Keeps marks d) : d.state = .running ↔ ∃ n notice, Stands marks n notice := by
  constructor
  · intro hrun
    obtain ⟨s, hs, hgen⟩ := h.waiting hrun
    exact ⟨s.generation, s.notice, h.stands.mpr ⟨hrun, hgen, s, hs, rfl, rfl⟩⟩
  · rintro ⟨n, notice, hstands⟩
    exact (h.stands.mp hstands).1

theorem Keeps.stopped_iff {ran : Bool} (h : Keeps marks d) (hs : d.Step (.stopped ran) t) :
    ran = true ↔ ∃ n notice, Stands marks n notice := by
  rw [← h.running_iff]
  generalize hm : Mark.stopped ran = m at hs
  cases hs with
  | start | wake | lapse => cases hm
  | stop =>
    cases hm
    unfold Deadline.stop
    split <;> simp_all

theorem Stands.of_append (h : Stands (marks ++ marks') n notice) (hnew : .started n notice ∉ marks') :
    Stands marks n notice := by
  obtain ⟨before, after, he, hafter⟩ := h
  obtain ⟨a, rfl, rfl⟩ | ⟨a, rfl, hrest⟩ := append_eq_append_iff.mp he
  · exact (hnew (mem_append_right _ (.head _))).elim
  · cases a with
    | nil =>
      rw [nil_append] at hrest
      exact (hnew (hrest ▸ mem_cons_self)).elim
    | cons m a =>
      obtain ⟨rfl, rfl⟩ := List.cons.inj hrest
      exact ⟨before, a, rfl, fun m hm ↦ hafter m (mem_append_left _ hm)⟩

variable {delay : Nat} {before after : List (Mark α)} {notice' : α}

theorem Run.keeps (h : Run ({ delay } : Deadline α) marks d) : Keeps marks d :=
  (Keeps.new delay).run h

theorem Run.started_before (h : Run ({ delay } : Deadline α) (before ++ .started n notice :: after) d) :
    .started n notice' ∉ before := by
  intro hm
  obtain ⟨t, t', hr, hs⟩ := h.split
  have hle := hr.keeps.started hm
  generalize hm : Mark.started n notice = m at hs
  cases hs <;> cases hm
  omega

theorem Run.started_after (h : Run ({ delay } : Deadline α) (before ++ after) d) (hm : .started n notice ∈ before) :
    .started n notice' ∉ after := by
  intro hm'
  obtain ⟨a, b, rfl⟩ := append_of_mem hm'
  rw [← append_assoc] at h
  exact h.started_before (mem_append_left _ hm)

section

variable (h : Run ({ delay } : Deadline α) (before ++ .checked n (some notice) :: after) d)

include h

theorem Run.fired_before : .checked n (some notice') ∉ before := by
  intro hm
  obtain ⟨t, t', hr, hs⟩ := h.split
  obtain ⟨rfl, hrun, -⟩ := hr.keeps.stands_of_fired hs
  exact Nat.lt_irrefl _ ((hr.keeps.fired hm).2 hrun)

theorem Run.fired_once : .checked n (some notice') ∉ before ++ after := by
  intro hm
  obtain hm | hm := mem_append.mp hm
  · exact h.fired_before hm
  · obtain ⟨a, b, rfl⟩ := append_of_mem hm
    rw [← cons_append, ← append_assoc] at h
    exact h.fired_before (mem_append_right _ (.head _))

end

theorem Run.stands_of_fired (h : Run ({ delay } : Deadline α) (before ++ after) d)
    (hm : .started n notice ∈ before) (hfired : .checked n (some notice') ∈ after) :
    Stands before n notice' := by
  obtain ⟨a, b, rfl⟩ := append_of_mem hfired
  have hnew : .started n notice' ∉ a ++ .checked n (some notice') :: b := h.started_after hm
  rw [← append_assoc] at h
  obtain ⟨t, t', hr, hs⟩ := h.split
  refine (hr.keeps.stands_of_fired hs).2.2.of_append fun ha ↦ hnew ?_
  exact mem_append_left _ ha

theorem Run.mayFire_iff (h : Run ({ delay } : Deadline α) marks d) (hs : s ∈ d.sleepers) :
    d.MayFire s.generation ↔ d.state = .running ∧ s.generation = d.generation := by
  constructor
  · rintro ⟨marks', t, notice, hr, hfired⟩
    obtain ⟨hrun, hgen, -⟩ := h.keeps.stands.mp ((h.trans hr).stands_of_fired (h.keeps.asleep hs) hfired)
    exact ⟨hrun, hgen⟩
  · rintro ⟨hrun, hgen⟩
    obtain ⟨i, hi⟩ := mem_iff_getElem?.mp hs
    have hwake : (d.wake i).1 = some s.notice := by
      simp only [Deadline.wake, hi, Deadline.check, counts, hgen, hrun, beq_self_eq_true, decide_true,
        Bool.and_self, if_true]
    refine ⟨_, _, s.notice, Run.refl.step (.wake hi), ?_⟩
    rw [hwake]
    exact mem_singleton.mpr rfl

end Runs

/-- In every run of a deadline each start gives notice once at most, as the latest start and not stopped. A
stop says that there was something to stop just if the latest start has neither given notice nor been stopped.
At any time one sleeper at most can still give notice. -/
theorem notice_of_latest_start {delay : Nat} (h : Run ({ delay } : Deadline α) marks d) :
    (∀ before after n notice, marks = before ++ .started n notice :: after →
      ∀ notice', .started n notice' ∉ before ++ after) ∧
    (∀ before after n notice, marks = before ++ .checked n (some notice) :: after →
      Stands before n notice ∧ ∀ notice', .checked n (some notice') ∉ before ++ after) ∧
    (∀ before after ran, marks = before ++ .stopped ran :: after →
      (ran = true ↔ ∃ n notice, Stands before n notice)) ∧
    (∀ before after n notice notice', marks = before ++ .stopped true :: after →
      .started n notice ∈ before → .checked n (some notice') ∉ after) ∧
    (d.sleepers.map Sleeper.generation).Nodup ∧
    (∀ s ∈ d.sleepers, ∀ s' ∈ d.sleepers, d.MayFire s.generation → d.MayFire s'.generation →
      s.generation = s'.generation) ∧
    ((∃ s ∈ d.sleepers, d.MayFire s.generation) ↔ d.state = .running) := by
  refine ⟨fun before after n notice he notice' hm ↦ ?_, fun before after n notice he ↦ ⟨?_, fun notice' ↦ ?_⟩,
    fun before after ran he ↦ ?_, fun before after n notice notice' he hm hfired ↦ ?_, h.keeps.distinct,
    fun s hs s' hs' hf hf' ↦ ?_, fun ⟨s, hs, hf⟩ ↦ ((h.mayFire_iff hs).mp hf).1, fun hrun ↦ ?_⟩
  · subst he
    obtain hm | hm := mem_append.mp hm
    · exact h.started_before hm
    · rw [append_cons] at h
      exact h.started_after (mem_append_right _ (mem_singleton.mpr rfl)) hm
  · obtain ⟨t, t', hr, hs⟩ := (he ▸ h).split
    exact (hr.keeps.stands_of_fired hs).2.2
  · exact (he ▸ h).fired_once
  · obtain ⟨t, t', hr, hs⟩ := (he ▸ h).split
    exact hr.keeps.stopped_iff hs
  · rw [he, append_cons] at h
    obtain hm | ⟨-, hends⟩ := stands_concat.mp (h.stands_of_fired (mem_append_left _ hm) hfired)
    · cases hm
    · exact hends rfl
  · rw [((h.mayFire_iff hs).mp hf).2, ((h.mayFire_iff hs').mp hf').2]
  · obtain ⟨s, hs, hgen⟩ := h.keeps.waiting hrun
    exact ⟨s, hs, (h.mayFire_iff hs).mpr ⟨hrun, hgen⟩⟩

theorem notice_of_latest_start_third : ∃ d : Deadline Char,
    Run { delay := 5 } [.started 1 'a', .started 2 'b', .checked 1 none, .stopped true, .started 4 'c',
      .lapsed 2, .checked 4 (some 'c'), .stopped false] d ∧
    Stands [.started 1 'a', .started 2 'b', .checked 1 none, .stopped true, .started 4 'c', .lapsed 2] 4 'c' ∧
    (¬ ∃ n notice, Stands [.started 1 'a', .started 2 'b', .checked 1 none, .stopped true, .started 4 'c',
      .lapsed 2, .checked 4 (some 'c')] n notice) ∧
    ¬ ∃ s ∈ d.sleepers, d.MayFire s.generation := by
  have hrun := ((((((((Run.refl (d := ({ delay := 5 } : Deadline Char))).step (.start 0 'a')).step
    (.start 1 'b')).step (.wake (i := 0) rfl)).step .stop).step (.start 2 'c')).step
    (.lapse (i := 0) rfl (by decide))).step (.wake (i := 0) rfl)).step .stop
  obtain ⟨-, hfired, hstopped, -, -, -, hmay⟩ := notice_of_latest_start hrun
  refine ⟨_, hrun, (hfired _ [.stopped false] 4 'c' rfl).1, ?_, ?_⟩
  · exact fun hs ↦ nomatch (hstopped _ [] false rfl).mpr hs
  · exact fun hs ↦ nomatch hmay.mp hs

end AnalysisServer.Deadline
