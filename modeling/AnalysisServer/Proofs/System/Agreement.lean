import AnalysisServer.Proofs.System.Calm

namespace AnalysisServer

open List

theorem foldl_linterAfter {r : Request} {rs : List Request} (h : ∀ r' ∈ rs, r' = r) (l : Option Linter) :
    rs.foldl Request.linterAfter l = if rs = [] then l else r.linterAfter l := by
  induction rs generalizing l with
  | nil => rfl
  | cons r' rs ih =>
    obtain rfl := h r' mem_cons_self
    rw [foldl_cons, ih (fun r'' hr ↦ h r'' (.tail _ hr))]
    split
    · rfl
    · exact r'.linterAfter_twice l

/-- Whatever changes the linter in effect, request after request, is for all workers. -/
def Request.ChangesShared (l : Option Linter) : List Request → Prop
  | [] => True
  | r :: rs => (r.isBroadcast ∨ r.linterAfter l = l) ∧ ChangesShared (r.linterAfter l) rs

theorem Request.changesShared_concat (l : Option Linter) (rs : List Request) (r : Request) :
    ChangesShared l (rs ++ [r]) ↔ ChangesShared l rs ∧
      (r.isBroadcast ∨ r.linterAfter (rs.foldl linterAfter l) = rs.foldl linterAfter l) := by
  induction rs generalizing l with
  | nil => simp [ChangesShared]
  | cons r' rs ih => simp only [cons_append, ChangesShared, foldl_cons, ih, and_assoc]

namespace System

section Series

variable {σ : Type} [Digest] {setup : SystemSetup σ} {s t u : System σ}
  {journal journal' : List Happening} {stored stored' : List Nat} {count : Nat} {disk : Disk}
  {timeouts : List Nat} {c : Nat} {x : Call} {r : Request} {id : RequestId} {seat : Nat}

def Completes (setup : SystemSetup σ) (s : System σ) (r : Request) (t : System σ) : Prop :=
  ∃ streaming router journal stored, Calm setup (s.begin { request := r, streaming, router }).2 journal stored t ∧
      t.calls.length = s.calls.length + 1 ∧
      ∃ x response, t.calls[s.calls.length]? = some x ∧ x.outcome? = some (.ok response)

/-- Requests are made one after the other, with the system after each of them. -/
inductive Series (setup : SystemSetup σ) (s : System σ) : List (Request × System σ) → System σ → Prop
  | nil : Series setup s [] s
  | next {log t u r} (h : Series setup s log t) (hr : Completes setup t r u) : Series setup s (log ++ [(r, u)]) u

theorem isOpen_of_sent {e : Event}
    (h : .sent c seat id ∈ s.happenings setup e t) : ∃ x, s.calls[c]? = some x ∧ x.isOpen := by
  cases e with
  | work w => exact (not_sent_sayings h).elim
  | call c' =>
    simp only [happenings] at h
    split at h
    · rename_i x y hx hy
      obtain ⟨id', hid, heq⟩ := mem_map.mp h
      cases heq
      refine ⟨x, hx, ?_⟩
      cases hopen : x.isOpen with
      | true => rfl
      | false =>
        rw [Call.gained_of_none (Call.number?_of_closed hopen)] at hid
        cases hid
    · cases h
  | _ => cases h

theorem Calm.sent_only (h : Calm setup s journal stored t) (hlen : t.calls.length = s.calls.length)
    (hover : ∀ c' x, c' ≠ c → s.calls[c']? = some x → x.isOpen = false) {c' : Nat}
    (hsent : .sent c' seat id ∈ journal) : c' = c := by
  induction h with
  | refl => cases hsent
  | call h request streaming router ih =>
    have hle := h.calls_le
    rw [calls_length_begin] at hlen
    omega
  | @step journal stored t u e h he hstep ih =>
    rw [calls_length_step hstep] at hlen
    obtain hsent | hsent := mem_append.mp hsent
    · exact ih hlen hsent
    · obtain ⟨x, hx, hopen⟩ := isOpen_of_sent hsent
      have hz := List.getElem?_eq_getElem (hlen ▸ (lt_of_getElem? hx))
      obtain ⟨y, hy, -, hstays⟩ := h.run.call_stays hz
      cases hx.symm.trans hy
      refine Decidable.byContradiction fun hne ↦ ?_
      have hclosed := hover c' _ hne hz
      rw [hstays hclosed, hclosed] at hopen
      cases hopen

omit [Digest] in
theorem AllWell.closed (h : s.AllWell) (hx : s.calls[c]? = some x) : x.isOpen = false := by
  obtain ⟨response, ho⟩ := h x (mem_of_getElem? hx)
  exact Call.closed_of_outcome ho

omit [Digest] in
theorem queued_of_only (hx : t.calls[c]? = some x)
    (honly : ∀ c' seat id, .sent c' seat id ∈ journal → c' = c) (i : Nat) :
    (∀ r ∈ t.queued journal i, r = x.request) ∧ (t.queued journal i = [] ↔ ∀ id, .sent c i id ∉ journal) := by
  refine ⟨fun r hr ↦ ?_, fun hnil id hsent ↦ ?_, fun hnone ↦ ?_⟩
  · obtain ⟨entry, hentry, hr⟩ := mem_filterMap.mp hr
    cases entry with
    | said id reply => cases hr
    | sent c' seat id =>
      obtain rfl := honly c' seat id hentry
      obtain ⟨-, hr⟩ := Option.ite_none_right_eq_some.mp hr
      rw [hx] at hr
      exact (Option.some.inj hr).symm
  · have hmem : x.request ∈ t.queued journal i :=
      mem_filterMap.mpr ⟨_, hsent, by simp [hx]⟩
    rw [hnil] at hmem
    cases hmem
  · refine filterMap_eq_nil_iff.mpr fun entry hentry ↦ ?_
    cases entry with
    | said id reply => rfl
    | sent c' seat id =>
      obtain rfl := honly c' seat id hentry
      refine if_neg fun hseat ↦ hnone id ?_
      rwa [← hseat]

section Next

variable {y : Call}

section

variable (hok : s.AllWell) (h : Calm setup (s.begin y).2 journal stored t)

include hok h

theorem AllWell.stays (hx : s.calls[c]? = some x) : t.calls[c]? = some x := by
  have hold : (s.begin y).2.calls[c]? = some x :=
    (List.getElem?_append_left (lt_of_getElem? hx)).trans hx
  obtain ⟨z, hz, -, hclosed⟩ := h.run.call_stays hold
  rw [hz, hclosed (hok.closed hx)]

theorem AllWell.next (hlen : t.calls.length = s.calls.length + 1) (hx : t.calls[s.calls.length]? = some x)
    {response : Response} (ho : x.outcome? = some (.ok response)) : t.AllWell := by
  intro z hz
  obtain ⟨c, hz⟩ := List.getElem?_of_mem hz
  obtain hlt | rfl := Nat.lt_succ_iff_lt_or_eq.mp (hlen ▸ (lt_of_getElem? hz))
  · have hz' := List.getElem?_eq_getElem hlt
    cases hz.symm.trans (hok.stays h hz')
    exact hok _ (mem_of_getElem? hz')
  · cases hx.symm.trans hz
    exact ⟨response, ho⟩

theorem AllWell.sent_new (hlen : t.calls.length = s.calls.length + 1)
    (hsent : .sent c seat id ∈ journal) : c = s.calls.length := by
  refine h.sent_only (hlen.trans (calls_length_begin _ _).symm) (fun c' z hne hz ↦ ?_) hsent
  obtain hz | ⟨rfl, -⟩ := getElem?_concat_cases hz
  · exact hok.closed hz
  · exact (hne rfl).elim

end

end Next

theorem Completes.linters (h : Calm setup (opened setup count disk timeouts) journal stored s)
    (hok : s.AllWell) (hr : Completes setup s r t) :
    ∃ journal' stored', ∃ served : Nat → Prop,
      Calm setup (opened setup count disk timeouts) journal' stored' t ∧ t.AllWell ∧
      (r.isBroadcast → ∀ i < max count 1, served i) ∧
      (r.isBroadcast = false → ∃ k < max count 1, ∀ i, served i ↔ i = k) ∧
      ∀ w (x y : Worker σ), s.pool.workers[w]? = some x → t.pool.workers[w]? = some y →
        (served w → y.session.linter = r.linterAfter x.session.linter) ∧
          (¬ served w → y.session.linter = x.session.linter) := by
  obtain ⟨streaming, router, new, newStored, hcalm, hlen, x, response, hx, ho⟩ := hr
  have hall := (h.call r streaming router).trans hcalm
  have hf := hall.faithful
  have htold := hf.call hx
  have hwell := hok.next hcalm hlen hx ho
  have hrequest : x.request = r := by
    obtain ⟨y, hy, hsame, -⟩ := hcalm.run.call_stays (List.getElem?_concat_length (l := s.calls))
    cases hx.symm.trans hy
    exact hsame.request
  have hnew {i id} (hsent : .sent s.calls.length i id ∈ journal ++ new) : .sent s.calls.length i id ∈ new := by
    obtain hsent | hsent := mem_append.mp hsent
    · exact (Nat.lt_irrefl _ (h.faithful.sent hsent)).elim
    · exact hsent
  refine ⟨_, _, fun i ↦ ∃ id, .sent s.calls.length i id ∈ new, hall, hwell, fun hb i hi ↦ ?_, fun hb ↦ ?_,
    fun w y z hy hz ↦ ?_⟩
  · cases htold.accounted ho with
    | reply hr => rw [hrequest, hb] at hr; cases hr
    | all hr hseats honly =>
      obtain ⟨id, hsent, -⟩ := hseats i hi
      exact ⟨id, hnew hsent⟩
  · cases htold.accounted ho with
    | all hr => rw [hrequest, hb] at hr; cases hr
    | @reply k id _ hr hsent =>
      refine ⟨k, (hall.settling_of_well hwell).seat hsent, fun i ↦ ⟨fun ⟨id', hsent'⟩ ↦ ?_, ?_⟩⟩
      · have hsent' := mem_append_right journal hsent'
        obtain rfl := htold.one hr hsent' hsent
        exact (hf.owner hsent' hsent).2
      · rintro rfl
        exact ⟨id, hnew hsent⟩
  · have hqueued : t.queued journal w = s.queued journal w := by
      refine queued_congr (fun c seat id hsent ↦ ?_) w
      have hz := List.getElem?_eq_getElem (h.faithful.sent hsent)
      rw [hz, hok.stays hcalm hz]
    obtain ⟨hsame, hnil⟩ := queued_of_only hx (fun _ _ _ ↦ hok.sent_new hcalm hlen) w
    have hlinter : z.session.linter =
        if t.queued new w = [] then y.session.linter else r.linterAfter y.session.linter := by
      rw [(hall.settled hwell hz).2.2, queued_append, foldl_append, hqueued, ← (h.settled hok hy).2.2,
        foldl_linterAfter (hrequest ▸ hsame)]
    rw [hlinter]
    refine ⟨fun ⟨id, hsent⟩ ↦ if_neg fun hnone ↦ hnil.mp hnone id hsent, fun hnot ↦ if_pos ?_⟩
    exact hnil.mpr fun id hsent ↦ hnot ⟨id, hsent⟩

def Agree (s : System σ) : Prop :=
  ∃ l, ∀ x ∈ s.pool.workers, x.session.linter = l

theorem Completes.agree_iff (h : Calm setup (opened setup count disk timeouts) journal stored s)
    (hok : s.AllWell) (hr : Completes setup s r t) {l : Option Linter}
    (hl : ∀ x ∈ s.pool.workers, x.session.linter = l) :
    (t.Agree ↔ count ≤ 1 ∨ r.isBroadcast ∨ r.linterAfter l = l) ∧ (count ≤ 1 ∨ r.isBroadcast ∨ r.linterAfter l = l →
        ∀ x ∈ t.pool.workers, x.session.linter = r.linterAfter l) := by
  obtain ⟨journal', stored', served, ht, hwell, hbroadcast, hone, hlinter⟩ := hr.linters h hok
  have hserved {w : WorkerId} {y : Worker σ} (hy : t.pool.workers[w]? = some y) :
      w < max count 1 ∧ (served w → y.session.linter = r.linterAfter l) ∧ (¬ served w → y.session.linter = l) := by
    have hw := lt_of_getElem? hy
    rw [ht.workers_length hwell] at hw
    have hx := List.getElem?_eq_getElem ((h.workers_length hok).symm ▸ hw)
    have hxl := hl _ (mem_of_getElem? hx)
    obtain ⟨hyes, hno⟩ := hlinter w _ y hx hy
    rw [hxl] at hyes hno
    exact ⟨hw, hyes, hno⟩
  have hagree (hcase : count ≤ 1 ∨ r.isBroadcast ∨ r.linterAfter l = l) (y : Worker σ)
      (hy : y ∈ t.pool.workers) : y.session.linter = r.linterAfter l := by
    obtain ⟨w, hy⟩ := List.getElem?_of_mem hy
    obtain ⟨hw, hyes, hno⟩ := hserved hy
    by_cases hs : served w
    · exact hyes hs
    · obtain hcount | hb | hkeeps := hcase
      · cases hb : r.isBroadcast with
        | true => exact (hs (hbroadcast hb w hw)).elim
        | false =>
          obtain ⟨k, hk, hiff⟩ := hone hb
          rw [Nat.max_eq_right hcount, Nat.lt_one_iff] at hw hk
          exact (hs ((hiff w).mpr (hw.trans hk.symm))).elim
      · exact (hs (hbroadcast hb w hw)).elim
      · exact (hno hs).trans hkeeps.symm
  refine ⟨⟨fun ⟨l', hl'⟩ ↦ ?_, fun hcase ↦ ⟨_, hagree hcase⟩⟩, hagree⟩
  by_cases hcount : count ≤ 1
  · exact .inl hcount
  · cases hb : r.isBroadcast with
    | true => exact .inr (.inl rfl)
    | false =>
      obtain ⟨k, hk, hiff⟩ := hone hb
      have hat {i : Nat} (hi : i < max count 1) : ∃ y, t.pool.workers[i]? = some y :=
        ⟨_, List.getElem?_eq_getElem ((ht.workers_length hwell).symm ▸ hi)⟩
      -- any other worker has not served the request
      obtain ⟨j, hj, hjk⟩ : ∃ j < max count 1, j ≠ k := by
        by_cases hk0 : k = 0
        · exact ⟨1, by omega, by omega⟩
        · exact ⟨0, by omega, Ne.symm hk0⟩
      obtain ⟨y, hy⟩ := hat hk
      obtain ⟨z, hz⟩ := hat hj
      have hyl := (hserved hy).2.1 ((hiff k).mpr rfl)
      have hzl := (hserved hz).2.2 fun hs ↦ hjk ((hiff j).mp hs)
      refine .inr (.inr ?_)
      rw [← hyl, hl' y (mem_of_getElem? hy), ← hl' z (mem_of_getElem? hz), hzl]

theorem Series.calm {log : List (Request × System σ)} (h : Series setup (opened setup count disk timeouts) log s) :
    ∃ journal stored, Calm setup (opened setup count disk timeouts) journal stored s ∧ s.AllWell := by
  induction h with
  | nil => exact ⟨[], [], .refl, fun x hx ↦ (not_mem_nil hx).elim⟩
  | next _ hr ih =>
    obtain ⟨journal, stored, hcalm, hok⟩ := ih
    obtain ⟨journal', stored', -, hcalm', hok', -⟩ := hr.linters hcalm hok
    exact ⟨journal', stored', hcalm', hok'⟩

/-- Goes through requests told with all that happens after them, as long as each of them ends well. -/
def rehearse (setup : SystemSetup σ) : List (Request × List Event) →
    List (Request × System σ) × System σ → Option (List (Request × System σ) × System σ)
  | [], r => some r
  | (request, es) :: rest, (log, s) =>
    (chronicle setup es ([], [], (s.begin { request }).2)).bind fun (_, _, t) ↦
      match t.calls[s.calls.length]?.bind Call.outcome? with
      | some (.ok _) => rehearse setup rest (log ++ [(request, t)], t)
      | _ => none

theorem Series.rehearse {plan : List (Request × List Event)} {log log' : List (Request × System σ)}
    (h : Series setup s log t) (hes : ∀ entry ∈ plan, ∀ e ∈ entry.2, e.IsOrdinary)
    (hr : rehearse setup plan (log, t) = some (log', u)) :
    Series setup s log' u ∧ log'.map Prod.fst = log.map Prod.fst ++ plan.map Prod.fst := by
  induction plan generalizing log t with
  | nil =>
    cases hr
    exact ⟨h, (append_nil _).symm⟩
  | cons entry rest ih =>
    obtain ⟨request, es⟩ := entry
    obtain ⟨⟨journal, stored, v⟩, hv, hr⟩ := Option.bind_eq_some_iff.mp hr
    dsimp only at hr
    split at hr
    · rename_i response ho
      obtain ⟨x, hx, ho⟩ := Option.bind_eq_some_iff.mp ho
      obtain ⟨hcalm, hlen⟩ := Calm.refl.chronicle (hes _ (.head _)) hv
      have hnext : Completes setup t request v :=
        ⟨false, none, journal, stored, hcalm, hlen.trans (calls_length_begin _ _), x, response, hx, ho⟩
      obtain ⟨hseries, hlog⟩ := ih (h.next hnext) (fun entry he ↦ hes entry (.tail _ he)) hr
      exact ⟨hseries, by simp [hlog]⟩
    · cases hr

/-- For sessions that start with the same linter, and requests that end well one after the other: the workers
have the same linter after each of them just if there is only one worker, or every request that changes the
linter in effect is for all workers. -/
theorem linters_agree_iff {log : List (Request × System σ)} {l : Option Linter}
    (hfresh : ∀ w, setup.fresh w w = l) (h : Series setup (opened setup count disk timeouts) log s) :
    ((∀ entry ∈ log, entry.2.Agree) ↔ count ≤ 1 ∨ Request.ChangesShared l (log.map Prod.fst)) ∧
      (count ≤ 1 ∨ Request.ChangesShared l (log.map Prod.fst) → ∀ x ∈ s.pool.workers,
        x.session.linter = (log.map Prod.fst).foldl Request.linterAfter l) := by
  induction h with
  | nil =>
    refine ⟨⟨fun _ ↦ .inr trivial, fun _ _ hentry ↦ (not_mem_nil hentry).elim⟩, fun _ x hx ↦ ?_⟩
    obtain ⟨w, hx⟩ := List.getElem?_of_mem hx
    obtain ⟨-, hsession, -⟩ := (Pool.filled_start setup.toPoolSetup count disk).worker hx
    rw [hsession]
    exact hfresh w
  | @next log t u r h hr ih =>
    obtain ⟨hiff, hall⟩ := ih
    obtain ⟨journal, stored, hcalm, hok⟩ := h.calm
    have hright : (count ≤ 1 ∨ Request.ChangesShared l ((log ++ [(r, u)]).map Prod.fst)) ↔
        (count ≤ 1 ∨ Request.ChangesShared l (log.map Prod.fst)) ∧
          (count ≤ 1 ∨ r.isBroadcast ∨ r.linterAfter ((log.map Prod.fst).foldl Request.linterAfter l) =
            (log.map Prod.fst).foldl Request.linterAfter l) := by
      rw [map_append, map_singleton, Request.changesShared_concat, or_and_left]
    have hleft : (∀ entry ∈ log ++ [(r, u)], entry.2.Agree) ↔ (∀ entry ∈ log, entry.2.Agree) ∧ u.Agree := by
      simp [or_imp, forall_and]
    rw [hleft, hright, hiff]
    refine ⟨and_congr_right fun hshared ↦ (hr.agree_iff hcalm hok (hall hshared)).1, fun ⟨hshared, hcase⟩ ↦ ?_⟩
    rw [map_append, foldl_append]
    exact (hr.agree_iff hcalm hok (hall hshared)).2 hcase

end Series

def idleSetup : SystemSetup (List Path) where
  engine := .silent
  session _ _ := { options := {}, engine := [], stores := { stores := [] } }
  affinity _ := 0
  closeGrace := 0

def bothInstall : Request × List Event :=
  (.initLinter bareLinter, [.call 0, .call 0, .call 0, .call 0, .call 0, .call 0, .call 0, .work 0, .work 0,
    .work 1, .work 1, .call 0, .call 0, .call 0])

def projectRequest : Request :=
  .analyzeProject { configuration := { baseDir := some ⟨"/"⟩ }, rules := [{ key := "r" }] }

theorem linters_agree_iff_style : ∃ log s, Series idleSetup (opened idleSetup 2 {} []) log s ∧
    log.map Prod.fst = [.initLinter bareLinter, styleRequest] ∧ (∀ entry ∈ log, entry.2.Agree) ∧
      ∀ x ∈ s.pool.workers, x.session.linter = some bareLinter := by
  let plan := [bothInstall, (styleRequest, [.call 1, .call 1, .call 1, .call 1, .work 0, .work 0, .call 1])]
  have hcheck : (rehearse idleSetup plan ([], opened idleSetup 2 {} [])).isSome := by decide +kernel
  obtain ⟨⟨log, s⟩, hr⟩ := Option.isSome_iff_exists.mp hcheck
  obtain ⟨h, hlog⟩ := Series.nil.rehearse (by simp [plan, bothInstall, Event.IsOrdinary]) hr
  obtain ⟨hiff, heffect⟩ := linters_agree_iff (fun _ ↦ rfl) h
  have hshared : 2 ≤ 1 ∨ Request.ChangesShared none (log.map Prod.fst) := by
    rw [hlog]
    exact .inr ⟨.inl rfl, .inr rfl, trivial⟩
  refine ⟨log, s, h, hlog, hiff.mpr hshared, fun x hx ↦ ?_⟩
  rw [heffect hshared x hx, hlog]
  rfl

/-- One of two workers has the linter of a project, and the other has not. -/
theorem linters_differ : ∃ log s x y, Series idleSetup (opened idleSetup 2 {} []) log s ∧
    log.map Prod.fst = [.initLinter bareLinter, projectRequest] ∧ x ∈ s.pool.workers ∧
      y ∈ s.pool.workers ∧ x.session.linter ≠ y.session.linter := by
  let plan := [bothInstall, (projectRequest, [.call 1, .call 1, .call 1, .call 1, .work 0, .work 0, .call 1])]
  have hcheck : (rehearse idleSetup plan ([], opened idleSetup 2 {} [])).any fun r ↦
      r.2.pool.workers.any fun x ↦ r.2.pool.workers.any fun y ↦
        x.session.linter.map (·.rules.length) ≠ y.session.linter.map (·.rules.length) := by decide +kernel
  obtain ⟨⟨log, s⟩, hr, hdiffer⟩ := (Option.any_eq_true _ _).mp hcheck
  obtain ⟨h, hlog⟩ := Series.nil.rehearse (by simp [plan, bothInstall, Event.IsOrdinary]) hr
  obtain ⟨x, hx, hdiffer⟩ := any_eq_true.mp hdiffer
  obtain ⟨y, hy, hdiffer⟩ := any_eq_true.mp hdiffer
  exact ⟨log, s, x, y, h, hlog, hx, hy, fun hsame ↦ of_decide_eq_true hdiffer (congrArg _ hsame)⟩

end System

end AnalysisServer
