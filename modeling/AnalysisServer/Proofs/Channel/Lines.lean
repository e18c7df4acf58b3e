import AnalysisServer.Proofs.Channel.Answers
import AnalysisServer.Proofs.System.Outcomes

namespace AnalysisServer.Channel

open List

variable [TextPaths] {σ : Type} {m : Move} {frame : Frame}

/-- What is seen of a channel: a frame is looked at, or one is sent. -/
inductive Signal where
  | read (frame : Frame)
  | sent (json : Json)

structure Line (σ : Type) where
  system : System σ
  incoming : List Frame
  call : Option Nat := none
  answer : Answer := { complete := true }
  closed : Bool := false
  log : List Signal := []

/-- What may happen next: a frame is looked at or goes out, or something happens in the system, be it to the
call of the channel or to others. -/
inductive Move where
  | read
  | push
  | deed (d : System.Deed)

def turns (x y : Call) : List Turn :=
  (y.heard.drop x.heard.length).map .part ++ if x.isOpen then y.outcome?.toList.map .outcome else []

namespace Line

def opened (s : System σ) (frames : List Frame) : Line σ :=
  { system := s, incoming := frames }

def look (l : Line σ) (frame : Frame) (rest : List Frame) : Line σ :=
  let l : Line σ :=
    { system := l.system, incoming := rest, closed := l.closed, log := l.log ++ [.read frame] }
  match frame with
  | .binary => l
  | .close => { l with closed := true }
  | .text body =>
    match request body with
    | .ok request =>
      let (c, system) := l.system.begin { request, streaming := true, router := some 0 }
      { l with system, call := some c, answer := {} }
    | .error e => { l with answer := { outcome := some (.error e) } }

def learns (l : Line σ) (s : System σ) : List Turn :=
  match l.call.bind (l.system.calls[·]?), l.call.bind (s.calls[·]?) with
  | some x, some y => turns x y
  | _, _ => []

def pushed (l : Line σ) (answer : Answer) : Line σ :=
  { l with answer, log := l.log ++ (answer.sent.drop l.answer.sent.length).map .sent }

def step [Digest] (setup : SystemSetup σ) (l : Line σ) : Move → Option (Line σ)
  | .read =>
    -- nothing is looked at before the last answer is complete
    match l.answer.complete && !l.closed, l.incoming with
    | true, frame :: rest => some (l.look frame rest)
    | _, _ => none
  | .push => (l.answer.step .push).map l.pushed
  | .deed d => do
    let system ← System.perform setup [d] l.system
    let answer ← (l.learns system).foldlM Answer.step l.answer
    some { l with system, answer }

inductive Step [Digest] (setup : SystemSetup σ) (l : Line σ) : Move → Line σ → Prop
  | read {frame rest} (hc : l.answer.complete) (hi : l.incoming = frame :: rest) :
      Step setup l .read (l.look frame rest)
  | push {a} (ha : l.answer.step .push = some a) : Step setup l .push (l.pushed a)
  | deed {d s a} (hd : System.perform setup [d] l.system = some s)
      (ha : (l.learns s).foldlM Answer.step l.answer = some a) :
      Step setup l (.deed d) { l with system := s, answer := a }

theorem step_takes [Digest] {setup : SystemSetup σ} {l l' : Line σ} (h : l.step setup m = some l') :
    l.Step setup m l' := by
  cases m with
  | read =>
    simp only [step] at h
    split at h
    · rename_i hready hincoming
      cases h
      exact .read (Bool.and_eq_true_iff.mp hready).1 hincoming
    · cases h
  | push =>
    obtain ⟨a, ha, rfl⟩ := Option.map_eq_some_iff.mp h
    exact .push ha
  | deed d =>
    simp only [step, Option.bind_eq_bind, Option.bind_eq_some_iff] at h
    obtain ⟨s, hd, a, ha, h⟩ := h
    cases h
    exact .deed hd ha

end Line

structure Exchange where
  frame : Frame
  call : Option Nat
  sent : List Json

namespace Exchange

def signals (x : Exchange) : List Signal :=
  .read x.frame :: x.sent.map .sent

/-- What there is to be sent for a text: what its caller has heard, and the outcome if there is one. A text
that is no request has an outcome of its own. -/
inductive Gets (s : System σ) (frame : Frame) (call : Option Nat) :
    List Partial → Option (Except AnalysisError Response) → Prop
  | asked {body c y} (hf : frame = .text body) (hr : request body = .ok y.request)
      (hc : call = some c) (hy : s.calls[c]? = some y) (hstreaming : y.streaming = true)
      (hrouter : y.router = some 0) : Gets s frame call y.heard y.outcome?
  | refused {body e} (hf : frame = .text body) (hr : request body = .error e)
      (hc : call = none) : Gets s frame call [] (some (.error e))

inductive Stands (s : System σ) (x : Exchange) : Answer → Prop
  | silent (hx : ∀ body, x.frame ≠ .text body) (hc : x.call = none) (hsent : x.sent = []) :
      Stands s x { complete := true }
  | owed {parts outcome a}
      (hg : Gets s x.frame x.call parts outcome) (ha : a.Holds parts outcome) (hsent : x.sent = a.sent) :
      Stands s x a

end Exchange

namespace Line

inductive Owes (l : Line σ) : Option Exchange → Prop
  | nothing (ha : l.answer = { complete := true }) (hc : l.call = none) : Owes l none
  | answer {x} (hx : x.Stands l.system l.answer) (hc : x.call = l.call) : Owes l (some x)

structure Orderly (frames : List Frame) (past : List Exchange) (now : Option Exchange) (l : Line σ) : Prop where
  read : frames = (past ++ now.toList).map Exchange.frame ++ l.incoming
  log : l.log = (past ++ now.toList).flatMap Exchange.signals
  calls : ((past ++ now.toList).filterMap Exchange.call).Pairwise (· < ·)
  before : ∀ x ∈ past, ∃ a, x.Stands l.system a ∧ a.complete
  owes : l.Owes now

end Line

variable {s s' : System σ} {x : Exchange} {a a' : Answer} {l l' : Line σ} {frames : List Frame}
  {past : List Exchange} {now : Option Exchange} {journal : List Happening}

theorem Answer.Holds.follow {x y : Call} (h : a.Holds x.heard x.outcome?) (hsame : x.Same y)
    (hclosed : x.isOpen = false → y = x) :
    ∃ a', (turns x y).foldlM Answer.step a = some a' ∧ a'.Holds y.heard y.outcome? ∧ a'.sent = a.sent := by
  cases hopen : x.isOpen with
  | false =>
    obtain rfl := hclosed hopen
    have hnone : turns y y = [] := by simp [turns, hopen]
    exact ⟨a, by rw [hnone]; rfl, h, rfl⟩
  | true =>
    have hx : x.outcome? = none := by
      cases ho : x.outcome? with
      | none => rfl
      | some o =>
        rw [Call.closed_of_outcome ho] at hopen
        cases hopen
    rw [hx] at h
    -- the parts that were heard meanwhile come in before the outcome does
    obtain ⟨more, hmore⟩ := hsame.heard
    obtain ⟨b, hb, hholds, hsent⟩ := h.hearAll more
    have hturns : turns x y = more.map .part ++ y.outcome?.toList.map .outcome := by
      simp [turns, hopen, ← hmore]
    rw [hturns, foldlM_append, hb, ← hmore]
    cases y.outcome? with
    | none => exact ⟨b, rfl, hholds, hsent⟩
    | some o =>
      obtain ⟨a', ha', hholds', hsent'⟩ := hholds.learn o
      refine ⟨a', ?_, hholds', hsent'.trans hsent⟩
      change [Turn.outcome o].foldlM Answer.step b = some a'
      rw [foldlM_cons, ha']
      rfl

namespace Exchange

variable {call : Option Nat} {outcome : Option (Except AnalysisError Response)} {parts : List Partial}

omit [TextPaths] in
theorem Gets.text (h : Gets s frame call parts outcome) : ∃ body, frame = .text body := by
  cases h with
  | asked hf | refused hf => exact ⟨_, hf⟩

omit [TextPaths] in
theorem Gets.unique {parts' : List Partial}
    {outcome' : Option (Except AnalysisError Response)} (h : Gets s frame call parts outcome)
    (h' : Gets s frame call parts' outcome') : parts = parts' ∧ outcome = outcome' := by
  cases h with
  | asked hf hr hc hy =>
    cases h' with
    | asked hf' hr' hc' hy' =>
      cases hc.symm.trans hc'
      cases hy.symm.trans hy'
      exact ⟨rfl, rfl⟩
    | refused hf' hr' hc' => cases hc.symm.trans hc'
  | refused hf hr hc =>
    cases h' with
    | asked hf' hr' hc' => cases hc.symm.trans hc'
    | refused hf' hr' =>
      cases hf.symm.trans hf'
      cases hr.symm.trans hr'
      exact ⟨rfl, rfl⟩

theorem Stands.push (h : x.Stands s a) (hp : a.step .push = some a') :
    { x with sent := a'.sent }.Stands s a' ∧ x.sent = a.sent ∧ ∃ frame, a'.sent = a.sent ++ [frame] := by
  cases h with
  | silent => cases hp
  | owed hg ha hsent =>
    obtain ⟨hholds, hframe⟩ := ha.push hp
    exact ⟨.owed hg hholds rfl, hsent, hframe⟩

theorem Stands.call_lt {c : Nat} (h : x.Stands s a) (hc : x.call = some c) : c < s.calls.length := by
  cases h with
  | silent _ hnone => cases hnone.symm.trans hc
  | owed hg =>
    cases hg with
    | refused _ _ hnone => cases hnone.symm.trans hc
    | asked _ _ hsome hy =>
      cases hsome.symm.trans hc
      exact lt_of_getElem? hy

variable [Digest] {setup : SystemSetup σ}

omit [TextPaths] in
theorem Gets.keeps (h : Gets s frame call parts outcome) (ho : outcome.isSome)
    (hrun : System.Run setup s s') : Gets s' frame call parts outcome := by
  cases h with
  | asked hx hr hc hy hstreaming hrouter =>
    obtain ⟨o, ho⟩ := Option.isSome_iff_exists.mp ho
    obtain ⟨z, hz, -, hstays⟩ := hrun.call_stays hy
    obtain rfl := hstays (Call.closed_of_outcome ho)
    exact .asked hx hr hc hz hstreaming hrouter
  | refused hx hr hc => exact .refused hx hr hc

theorem Stands.keeps (h : x.Stands s a) (hc : a.complete) (hrun : System.Run setup s s') : x.Stands s' a := by
  cases h with
  | silent hx hcall hsent => exact .silent hx hcall hsent
  | owed hg ha hsent =>
    obtain ⟨o, rfl, -⟩ := ha.sent_of_complete hc
    exact .owed (hg.keeps rfl hrun) ha hsent

theorem Stands.follow (h : x.Stands l.system l.answer) (hcall : x.call = l.call)
    (hrun : System.Run setup l.system s) :
    ∃ a, (l.learns s).foldlM Answer.step l.answer = some a ∧ x.Stands s a := by
  have hnone (hc : x.call = none) : l.learns s = [] := by
    rw [Line.learns, ← hcall, hc]
    rfl
  generalize l.answer = a at h ⊢
  cases h with
  | silent hx hc hsent => exact ⟨_, by rw [hnone hc]; rfl, .silent hx hc hsent⟩
  | owed hg ha hsent =>
    cases hg with
    | refused hx hr hc => exact ⟨a, by rw [hnone hc]; rfl, .owed (.refused hx hr hc) ha hsent⟩
    | @asked body c y hx hr hc hy hstreaming hrouter =>
      obtain ⟨z, hz, hsame, hstays⟩ := hrun.call_stays hy
      obtain ⟨a', hfold, hholds, hsent'⟩ := ha.follow hsame hstays
      have hturns : l.learns s = turns y z := by simp [Line.learns, ← hcall, hc, hy, hz]
      have hgets : Gets s x.frame x.call z.heard z.outcome? :=
        .asked hx (hr.trans (congrArg _ hsame.request.symm)) hc hz (hsame.streaming.trans hstreaming)
          (hsame.router.trans hrouter)
      exact ⟨a', by rw [hturns, hfold], .owed hgets hholds (hsent.trans hsent'.symm)⟩

end Exchange

namespace Line

section Looking

variable (l : Line σ) (frame : Frame) (rest : List Frame)

def begun : Exchange :=
  ⟨frame, (l.look frame rest).call, []⟩

theorem begun_stands : (l.begun frame rest).Stands (l.look frame rest).system (l.look frame rest).answer := by
  unfold begun look
  split
  · exact .silent nofun rfl rfl
  · exact .silent nofun rfl rfl
  · split
    · rename_i hr
      exact .owed (.asked rfl hr rfl List.getElem?_concat_length rfl rfl) (.start none) rfl
    · rename_i hr
      exact .owed (.refused rfl hr rfl) (.start _) rfl

omit [TextPaths] in
theorem look_signals : (l.look frame rest).log = l.log ++ [Signal.read frame] ∧ (l.look frame rest).incoming = rest ∧
    ∀ c, (l.look frame rest).call = some c → l.system.calls.length ≤ c := by
  unfold look
  split
  · exact ⟨rfl, rfl, nofun⟩
  · exact ⟨rfl, rfl, nofun⟩
  · split
    · refine ⟨rfl, rfl, fun c hc ↦ ?_⟩
      cases hc
      exact Nat.le_refl _
    · exact ⟨rfl, rfl, nofun⟩

omit [TextPaths] in
theorem closed_look_text (body : String) (rest : List Frame) : (l.look (.text body) rest).closed = l.closed := by
  simp only [look]
  split <;> rfl

omit [TextPaths] in
theorem look_system : (l.look frame rest).system = l.system ∨ ∃ request,
    (l.look frame rest).system = (l.system.begin { request, streaming := true, router := some 0 }).2 := by
  unfold look
  split
  · exact .inl rfl
  · exact .inl rfl
  · split
    · exact .inr ⟨_, rfl⟩
    · exact .inl rfl

end Looking

namespace Orderly

theorem opened (s : System σ) (frames : List Frame) : (opened s frames).Orderly frames [] none :=
  ⟨rfl, rfl, .nil, nofun, .nothing rfl rfl⟩

theorem all_over (h : l.Orderly frames past now) (hc : l.answer.complete) :
    ∀ x ∈ past ++ now.toList, ∃ a, x.Stands l.system a ∧ a.complete := by
  intro x hx
  obtain hx | hx := mem_append.mp hx
  · exact h.before x hx
  · cases h.owes with
    | nothing => cases hx
    | answer hstands =>
      cases mem_singleton.mp hx
      exact ⟨_, hstands, hc⟩

theorem push (h : l.Orderly frames past now) (ha : l.answer.step .push = some a) :
    ∃ x, (l.pushed a).Orderly frames past (some x) := by
  cases h.owes with
  | nothing hnone =>
    rw [hnone] at ha
    cases ha
  | @answer x hstands hc =>
    obtain ⟨hstands', hsent, frame, hframe⟩ := hstands.push ha
    have hread := h.read
    have hcalls := h.calls
    rw [map_append] at hread
    rw [filterMap_append] at hcalls
    refine ⟨{ x with sent := a.sent }, ?_, ?_, ?_, h.before, .answer hstands' hc⟩
    · rwa [map_append]
    · rw [pushed, h.log, hframe]
      simp [Exchange.signals, hsent]
    · rwa [filterMap_append]

variable [Digest] {setup : SystemSetup σ}

section

variable (h : l.Orderly frames past now)

include h

theorem look (setup : SystemSetup σ) (hc : l.answer.complete) {rest : List Frame} (hi : l.incoming = frame :: rest) :
    (l.look frame rest).Orderly frames (past ++ now.toList) (some (l.begun frame rest)) := by
  have hover := h.all_over hc
  have hrun : System.Run setup l.system (l.look frame rest).system := by
    obtain hsystem | ⟨request, hsystem⟩ := l.look_system frame rest
    · exact hsystem ▸ .refl
    · exact hsystem ▸ System.Run.refl.call _ _ _
  obtain ⟨hlog, hrest, hcall⟩ := l.look_signals frame rest
  refine ⟨?_, ?_, ?_, fun x hx ↦ ?_, .answer (l.begun_stands frame rest) rfl⟩
  · rw [h.read, hrest, hi]
    simp [begun]
  · rw [hlog, h.log]
    simp [Exchange.signals, begun]
  · rw [filterMap_append, pairwise_append]
    refine ⟨h.calls, ?_, fun c hc c' hc' ↦ ?_⟩
    · cases hnew : (l.look frame rest).call <;> simp [begun, hnew]
    · obtain ⟨x, hx, hxc⟩ := mem_filterMap.mp hc
      obtain ⟨a, hstands, -⟩ := hover x hx
      obtain ⟨x', hx', hxc'⟩ := mem_filterMap.mp hc'
      cases mem_singleton.mp hx'
      exact Nat.lt_of_lt_of_le (hstands.call_lt hxc) (hcall c' hxc')
  · obtain ⟨a, hstands, hc⟩ := hover x hx
    exact ⟨a, hstands.keeps hc hrun, hc⟩

theorem follow (hrun : System.Run setup l.system s) : ∃ a, (l.learns s).foldlM Answer.step l.answer = some a ∧
      { l with system := s, answer := a }.Orderly frames past now := by
  have hover (x : Exchange) (hx : x ∈ past) : ∃ a, x.Stands s a ∧ a.complete := by
    obtain ⟨a, hstands, hc⟩ := h.before x hx
    exact ⟨a, hstands.keeps hc hrun, hc⟩
  cases h.owes with
  | nothing ha hc =>
    have hnone : l.learns s = [] := by
      rw [learns, hc]
      rfl
    exact ⟨l.answer, by rw [hnone]; rfl, h.read, h.log, h.calls, hover, .nothing ha hc⟩
  | answer hstands hc =>
    obtain ⟨a, hfold, hstands'⟩ := hstands.follow hc hrun
    exact ⟨a, hfold, h.read, h.log, h.calls, hover, .answer hstands' hc⟩

theorem deed {d : System.Deed} (hd : System.perform setup [d] l.system = some s) :
    ∃ a, l.step setup (.deed d) = some { l with system := s, answer := a } ∧
      { l with system := s, answer := a }.Orderly frames past now := by
  obtain ⟨a, ha, hnext⟩ := h.follow (System.Run.refl.perform hd)
  refine ⟨a, ?_, hnext⟩
  simp only [step, hd, ha, Option.bind_eq_bind, Option.bind_some]

end

end Orderly

section Runs

variable [Digest] {setup : SystemSetup σ} {k : Line σ}

theorem Step.orderly (hs : l.Step setup m l') (h : l.Orderly frames past now) :
    ∃ past' now', l'.Orderly frames past' now' := by
  cases hs with
  | read hc hi => exact ⟨_, _, h.look setup hc hi⟩
  | push ha =>
    obtain ⟨x, hx⟩ := h.push ha
    exact ⟨_, _, hx⟩
  | deed hd ha =>
    obtain ⟨a, ha', hnext⟩ := h.follow (System.Run.refl.perform hd)
    cases ha.symm.trans ha'
    exact ⟨_, _, hnext⟩

def happenings (setup : SystemSetup σ) (l : Line σ) (m : Move) (s : System σ) : List Happening :=
  match m with
  | .deed (.event e) => l.system.happenings setup e s
  | _ => []

/-- Whatever may come of a channel, with the journal of the system. -/
inductive Run (setup : SystemSetup σ) (l : Line σ) : List Happening → Line σ → Prop
  | refl : Run setup l [] l
  | step {journal k k' m} (h : Run setup l journal k)
      (hs : k.step setup m = some k') : Run setup l (journal ++ k.happenings setup m k'.system) k'

theorem Run.orderly (h : Run setup (opened s frames) journal l) : ∃ past now, l.Orderly frames past now := by
  induction h with
  | refl => exact ⟨_, _, .opened s frames⟩
  | step _ hs ih =>
    obtain ⟨past, now, h⟩ := ih
    exact (step_takes hs).orderly h

theorem Run.moves {moves : List Move} (h : Run setup k journal l)
    (hm : moves.foldlM (Line.step setup) l = some l') : ∃ journal', Run setup k journal' l' := by
  induction moves generalizing l journal with
  | nil =>
    cases hm
    exact ⟨_, h⟩
  | cons m rest ih =>
    rw [foldlM_cons, Option.bind_eq_bind, Option.bind_eq_some_iff] at hm
    obtain ⟨l₁, hl, hm⟩ := hm
    exact ih (h.step hl) hm

theorem Run.follow (h : Run setup k journal l) (ho : l.Orderly frames past now) (hrun : System.Run setup l.system s) :
    ∃ journal' a, Run setup k journal' { l with system := s, answer := a } ∧
      { l with system := s, answer := a }.Orderly frames past now := by
  have hdeed {t u d} (hd : System.perform setup [d] t = some u)
      (ih : ∃ journal' a, Run setup k journal' { l with system := t, answer := a } ∧
        { l with system := t, answer := a }.Orderly frames past now) :
      ∃ journal' a, Run setup k journal' { l with system := u, answer := a } ∧
        { l with system := u, answer := a }.Orderly frames past now := by
    obtain ⟨journal', a, hrun', horderly⟩ := ih
    obtain ⟨a', ha', horderly'⟩ := horderly.deed hd
    exact ⟨_, a', hrun'.step ha', horderly'⟩
  induction hrun with
  | refl => exact ⟨journal, l.answer, h, ho⟩
  | @call t _ request streaming router ih =>
    have hd : System.perform setup [.call request streaming router] t =
      some (t.begin { request, streaming, router }).2 := rfl
    exact hdeed hd ih
  | @shutdown t _ router grace ih =>
    have hd : System.perform setup [.shutdown router grace] t = some (t.beginShutdown router grace).2 := rfl
    exact hdeed hd ih
  | @step t u e _ hstep ih =>
    have hd : System.perform setup [.event e] t = some u := by simp [System.perform, hstep]
    exact hdeed hd ih

theorem Run.history (h : Run setup (opened s frames) journal l) : System.History setup s journal l.system := by
  induction h with
  | refl => exact .refl
  | @step _ k _ _ _ hs ih =>
    cases step_takes hs with
    | @read frame rest hc hi =>
      simp only [happenings, append_nil]
      obtain hsystem | ⟨request, hsystem⟩ := k.look_system frame rest
      · exact hsystem ▸ ih
      · exact hsystem ▸ ih.call _ _ _
    | push =>
      simp only [happenings, append_nil]
      exact ih
    | @deed d _ _ hd ha =>
      cases d with
      | call request streaming router =>
        simp only [happenings, append_nil]
        cases hd
        exact ih.call request streaming router
      | shutdown router grace =>
        simp only [happenings, append_nil]
        cases hd
        exact ih.shutdown router grace
      | event e =>
        obtain ⟨u, hu, hd⟩ := Option.bind_eq_some_iff.mp hd
        cases hd
        exact ih.step hu

end Runs

end Line

end AnalysisServer.Channel
