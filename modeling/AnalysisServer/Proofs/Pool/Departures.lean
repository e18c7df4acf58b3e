import AnalysisServer.Proofs.Pool.Tenure

namespace AnalysisServer

open List

variable {p : Phase}

theorem Phase.listens_of_works (h : p.works) : p.listens := by
  cases p <;> first | rfl | cases h

theorem Phase.speaks_of_works (h : p.works) : p.speaks := by
  cases p <;> first | rfl | cases h

def Closing.Names (i g : Nat) : Closing → Prop
  | .asking next asked => next ≤ i ∨ ∃ l ∈ asked, l.seat = i ∧ l.generation = g
  | .awaiting _ left => ∃ l ∈ left, l.seat = i ∧ l.generation = g
  | _ => False

theorem Life.Fares.works {x y : Life} {o a b : Option WorkerState} (h : x.Fares o a b y) (hy : y.phase.works) :
    x.phase.works := by
  cases h with
  | move a h =>
    cases h with
    | report h =>
      rw [h]
      rfl
    | crash h | quit h hask asked => cases hy
    | fade h hp asked =>
      rw [Phase.speaks_of_works hy] at hp
      cases hp
  | _ => exact hy

theorem Life.Fares.final_or_deaf {x y : Life} {o : Option WorkerState} {a : WorkerState}
    (h : x.Fares o (some a) none y) : a.isFinal ∨ x.phase.listens = false := by
  cases h with
  | replaced h => exact h

def Closing.Pending (w : WorkerId) (i : Nat) : Closing → Prop
  | .notYet => True
  | .asking next asked => next ≤ i ∨ ∃ l ∈ asked, l.worker = w
  | .awaiting _ left => ∃ l ∈ left, l.worker = w
  | .done => False

namespace Roll

variable {r r' : Roll} {w : WorkerId} {x y : Life} {i n : Nat} {s : Post} {o : Option Override}
  {overdue marked marked' : Nat → Nat → Prop} {a : WorkerState}

theorem Sound.errored_of_final (hr : r.Sound overdue) (hx : r.lives[w]? = some x) (hw : x.phase.works)
    (ha : r.state? x = some a) (hf : a.isFinal) : r.state? x = some .errored := by
  cases a with
  | errored => exact ha
  | exited =>
    rw [((hr.life hx).exited ha).2] at hw
    cases hw
  | _ => cases hf

theorem Step.pending (h : r.Step o r') (hr : r.Sound overdue) (hx : r.lives[w]? = some x) (hw : x.phase.works)
    (hs : r.posts[x.seat]? = some s) (hg : s.generation = x.generation) (hp : r.closing.Pending w x.seat) :
    r'.closing.Pending w x.seat ∨ r.state? x = some .errored ∨
      stateAt r'.posts x.seat x.generation = some .errored := by
  obtain ⟨t, ht, -, hown⟩ := hr.matched.known hx
  cases hs.symm.trans ht
  replace hown := hown hg
  have hstate : r.state? x = some s.state := stateAt_of hs hg
  -- the next seat is asked: it is another one, or what is asked there is seen to
  have hask {next asked} (more : List Leaver) (hc : r.closing = .asking next asked)
      (hnext : next = x.seat → ∃ l ∈ more, l.worker = w) :
      (Closing.asking (next + 1) (asked ++ more)).Pending w x.seat := by
    rw [hc] at hp
    obtain hle | ⟨l, hl, hlw⟩ := hp
    · obtain hlt | heq := Nat.lt_or_eq_of_le hle
      · exact .inl hlt
      · obtain ⟨l, hl, hlw⟩ := hnext heq
        exact .inr ⟨l, mem_append_right _ hl, hlw⟩
    · exact .inr ⟨l, mem_append_left _ hl, hlw⟩
  cases h with
  | begin h => exact .inl (.inl (Nat.zero_le _))
  | @ask next asked t v z hc ht hf hv hz =>
    refine .inl (hask _ hc fun hnext ↦ ⟨_, mem_singleton_self _, ?_⟩)
    subst hnext
    cases hs.symm.trans ht
    exact Option.some.inj (hv.symm.trans hown)
  | @askVain next asked t hc ht hf hdeaf =>
    refine .inl ?_
    have hpending := hask [] hc fun hnext ↦ ?_
    · rwa [append_nil] at hpending
    · subst hnext
      cases hs.symm.trans ht
      have hlistens := Phase.listens_of_works hw
      rw [hdeaf w x hown hx] at hlistens
      cases hlistens
  | @skip next asked t hc ht hf =>
    by_cases hnext : next = x.seat
    · subst hnext
      cases hs.symm.trans ht
      exact .inr (.inl (hr.errored_of_final hx hw hstate hf))
    · have hpending := hask [] hc fun h ↦ (hnext h).elim
      rw [append_nil] at hpending
      exact .inl hpending
  | @await next asked hc hlen now =>
    rw [hc] at hp
    have hlt := lt_of_getElem? hs
    exact .inl (hp.resolve_left (by omega))
  | @ended since l rest hc hthrough now =>
    rw [hc] at hp
    obtain ⟨m, hm, hmw⟩ := hp
    obtain rfl | hm := mem_cons.mp hm
    · subst hmw
      have hspeaks := Phase.speaks_of_works hw
      rw [(hr.life hx).through (by rw [hstate]; nofun) (hthrough x hx)] at hspeaks
      cases hspeaks
    · exact .inl ⟨m, hm, hmw⟩
  | @grace since l rest hc now =>
    have hl : l ∈ r.closing.leavers := by
      rw [hc]
      exact mem_cons_self
    rw [hc] at hp
    obtain ⟨m, hm, hmw⟩ := hp
    obtain rfl | hm := mem_cons.mp hm
    · subst hmw
      obtain ⟨z, hz, hseat, hgen⟩ := hr.leaver hl
      cases hx.symm.trans hz
      refine .inr (.inr ?_)
      rw [stateAt_modify, hs]
      simp [hseat, hg, hgen]
    · exact .inl ⟨m, hm, hmw⟩
  | @finish since hc =>
    rw [hc] at hp
    obtain ⟨m, hm, -⟩ := hp
    cases hm
  | _ => exact .inl hp

/-- Every worker that is at work was started late, or was taken for failed, or is in its seat and will be
seen to. -/
def Accounted (n : Nat) (marked : Nat → Nat → Prop) (r : Roll) : Prop :=
  ∀ ⦃w : WorkerId⦄ ⦃x : Life⦄, r.lives[w]? = some x → x.phase.works →
    n ≤ w ∨ marked x.seat x.generation ∨ (r.state? x ≠ none ∧ r.closing.Pending w x.seat)

theorem Accounted.step (ha : r.Accounted n marked) (hr : r.Sound overdue) (h : r.Step o r')
    (hn : r'.closing ≠ .notYet → n ≤ r.lives.length)
    (hbefore : ∀ i g, stateAt r.posts i g = some .errored → marked' i g)
    (hafter : ∀ i g, stateAt r'.posts i g = some .errored → marked' i g)
    (hmono : ∀ i g, marked i g → marked' i g) : r'.Accounted n marked' := by
  intro w y hy hw
  obtain ⟨x, hx, hfares⟩ | ⟨rfl, i, s, hs, rfl, hstate⟩ := h.fares hr.matched hy
  · obtain ⟨hseat, hgen⟩ := hfares.same
    have hxw := hfares.works hw
    rw [hseat, hgen]
    obtain hlate | hmarked | ⟨hcurrent, hpending⟩ := ha hx hxw
    · exact .inl hlate
    · exact .inr (.inl (hmono _ _ hmarked))
    · obtain ⟨a, hstate⟩ := Option.ne_none_iff_exists'.mp hcurrent
      obtain ⟨s, hs, hg, -⟩ := stateAt_eq_some.mp hstate
      obtain hpending | herrored | herrored := h.pending hr hx hxw hs hg hpending
      · by_cases hgone : r'.state? y = none
        · -- whoever has lost its seat was taken for failed, or takes no messages
          rw [hgone, hstate] at hfares
          obtain hf | hdeaf := hfares.final_or_deaf
          · exact .inr (.inl (hbefore _ _ (hr.errored_of_final hx hxw hstate hf)))
          · rw [Phase.listens_of_works hxw] at hdeaf
            cases hdeaf
        · exact .inr (.inr ⟨hgone, hpending⟩)
      · exact .inr (.inl (hbefore _ _ herrored))
      · exact .inr (.inl (hafter _ _ herrored))
  · by_cases hc : r'.closing = .notYet
    · refine .inr (.inr ⟨by rw [hstate]; nofun, ?_⟩)
      rw [hc]
      trivial
    · exact .inl (hn hc)

theorem Step.closed (h : r.Step o r') (hc : r.closed) : r'.closed := by
  cases h <;> first | exact hc | rfl

theorem Step.eq_of_closed (h : r.Step o r') (ho : r.closed = false) (hc : r'.closed) :
    r' = { r with closed := true, closing := .asking 0 [] } := by
  cases h with
  | begin h => rfl
  | _ =>
    replace hc : r.closed := hc
    rw [ho] at hc
    cases hc

theorem Step.length_posts (h : r.Step o r') : r'.posts.length = r.posts.length := by
  obtain ⟨hposts, -⟩ | ⟨i, s, -, rfl⟩ := h.seating
  · simpa using congrArg List.length hposts
  · exact length_set

theorem Step.length_lives (h : r.Step o r') :
    r.lives.length ≤ r'.lives.length ∧ r'.lives.length ≤ r.lives.length + 1 := by
  obtain ⟨-, hlives⟩ | ⟨i, s, -, rfl⟩ := h.seating
  · have hlength := congrArg List.length hlives
    simp only [length_map] at hlength
    omega
  · simp [Roll.start, r.length_cut]

def Ripe (i : Nat) (r : Roll) : Prop :=
  ∃ s, r.posts[i]? = some s ∧ (s.state.isFinal ∨ r.IsDeaf s ∨ r.closing.Names i s.generation)

theorem ripe_of_asking (hi : i < r.posts.length) {asked : List Leaver} (hc : r.closing = .asking 0 asked) :
    r.Ripe i := by
  refine ⟨_, List.getElem?_eq_getElem hi, .inr (.inr ?_)⟩
  rw [hc]
  exact .inl (Nat.zero_le i)

theorem Ripe.unfit (hr : r.Ripe i) (hc : r.closing = .done) :
    ∃ s, r.posts[i]? = some s ∧ (s.state.isFinal ∨ r.IsDeaf s) := by
  obtain ⟨s, hs, hf | hd | hnames⟩ := hr
  · exact ⟨s, hs, .inl hf⟩
  · exact ⟨s, hs, .inr hd⟩
  · rw [hc] at hnames
    exact hnames.elim

theorem Step.ripe (h : r.Step o r') (hphase : r'.lives.map Life.phase = r.lives.map Life.phase)
    (hover : ∀ since left, r.closing = .awaiting since left → left = [] ∨ o ≠ none) (hr : r.Ripe i) :
    r'.Ripe i := by
  obtain ⟨s, hs, hripe⟩ := hr
  obtain ⟨t, ht, hworker, hg⟩ : ∃ t, r'.posts[i]? = some t ∧ t.worker = s.worker ∧ t.generation = s.generation := by
    obtain ⟨hposts, -⟩ | ⟨j, u, hu, rfl⟩ := h.seating
    · obtain ⟨t, ht, heq⟩ := getElem?_of_map hposts.symm hs
      exact ⟨t, ht, (Prod.mk.inj heq).1, (Prod.mk.inj heq).2⟩
    · have hlength := congrArg List.length hphase
      simp [Roll.start, r.length_cut] at hlength
  have hfinal (hf : s.state.isFinal) : t.state.isFinal := by
    obtain ⟨t', ht', hnext | ⟨-, hstate⟩⟩ := h.final hs hf
    · cases ht.symm.trans ht'
      omega
    cases ht.symm.trans ht'
    rw [hstate]
    cases ho : Override.at? o i s.generation with
    | none => exact hf
    | some b =>
      obtain rfl := Override.eq_of_at? ho
      obtain rfl | rfl := h.given <;> rfl
  have hdeaf (hd : r.IsDeaf s) : r'.IsDeaf t := by
    intro w y hw hy
    obtain ⟨x, hx, hxy⟩ := getElem?_of_map hphase hy
    rw [← hxy]
    exact hd w x (hworker.symm.trans hw) hx
  refine ⟨t, ht, ?_⟩
  obtain hf | hd | hnames := hripe
  · exact .inl (hfinal hf)
  · exact .inr (.inl (hdeaf hd))
  rw [hg]
  have hask {next asked} (more : List Leaver) (hc : r.closing = .asking next asked) :
      next = i ∨ (Closing.asking (next + 1) (asked ++ more)).Names i s.generation := by
    rw [hc] at hnames
    obtain hle | ⟨l, hl, hown⟩ := hnames
    · obtain hlt | heq := Nat.lt_or_eq_of_le hle
      · exact .inr (.inl hlt)
      · exact .inl heq
    · exact .inr (.inr ⟨l, mem_append_left _ hl, hown⟩)
  cases h with
  | begin h => exact .inr (.inr (.inl (Nat.zero_le _)))
  | @ask next asked u v z hc hu hf hv hz =>
    obtain rfl | hlater := hask [⟨next, u.generation, v⟩] hc
    · cases hs.symm.trans hu
      exact .inr (.inr (.inr ⟨_, mem_append_right _ (mem_singleton_self _), rfl, rfl⟩))
    · exact .inr (.inr hlater)
  | @askVain next asked u hc hu hf hd =>
    obtain rfl | hlater := hask [] hc
    · cases hs.symm.trans hu
      exact .inr (.inl (hdeaf hd))
    · rw [append_nil] at hlater
      exact .inr (.inr hlater)
  | @skip next asked u hc hu hf =>
    obtain rfl | hlater := hask [] hc
    · cases hs.symm.trans hu
      exact .inl (hfinal hf)
    · rw [append_nil] at hlater
      exact .inr (.inr hlater)
  | @await next asked hc hlen now =>
    rw [hc] at hnames
    have hlt := lt_of_getElem? hs
    exact .inr (.inr (hnames.resolve_left (by omega)))
  | ended hc hthrough now =>
    obtain hnil | hsome := hover _ _ hc
    · cases hnil
    · exact (hsome rfl).elim
  | @grace since l rest hc now =>
    rw [hc] at hnames
    obtain ⟨m, hm, hseat, hgen⟩ := hnames
    obtain rfl | hm := mem_cons.mp hm
    · subst hseat
      rw [List.getElem?_modify, hs] at ht
      simp only [Option.map_eq_map, Option.map_some, hgen, if_true, Option.some.injEq] at ht
      subst ht
      exact .inl rfl
    · exact .inr (.inr ⟨m, hm, hseat, hgen⟩)
  | finish hc =>
    rw [hc] at hnames
    obtain ⟨m, hm, -⟩ := hnames
    cases hm
  | _ => exact .inr (.inr hnames)

end Roll

theorem Pool.closed_start {σ : Type} (setup : PoolSetup σ) (count : Nat) (disk : Disk) :
    (start setup count disk).closed = false := by
  have hstart (p : Pool σ) (i : Nat) : (p.startWorker setup i).closed = p.closed := by
    simp only [startWorker, disconnect]
    split
    · rfl
    · split <;> rfl
  exact foldl_same closed hstart _ _

theorem Pool.accounted_start {σ : Type} (setup : PoolSetup σ) (count : Nat) (disk : Disk) (n : Nat)
    (marked : Nat → Nat → Prop) : (start setup count disk).roll.Accounted n marked := by
  have hsound := sound_start setup count disk
  have hfilled := filled_start setup count disk
  intro w x hx _
  have hlt : w < (start setup count disk).seats.length := by
    obtain ⟨y, hy, -⟩ := lives_eq_some.mp hx
    rw [hfilled.seats, ← hfilled.workers]
    exact lt_of_getElem? hy
  have hs := List.getElem?_eq_getElem hlt
  have hworker := (hfilled.taken hs (hfilled.seats ▸ hlt)).1
  obtain ⟨z, hz, hseat, hgen⟩ := hsound.matched.seated (posts_of hs) hworker
  cases hx.symm.trans hz
  refine .inr (.inr ⟨?_, ?_⟩)
  · subst hseat
    rw [Roll.state?, stateAt_of (posts_of hs) hgen.symm]
    nofun
  · rw [hsound.early (closed_start setup count disk)]
    trivial

end AnalysisServer
