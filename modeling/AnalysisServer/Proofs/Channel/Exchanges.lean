import AnalysisServer.Proofs.Channel.Lines
import AnalysisServer.Proofs.Session.Streaming
import AnalysisServer.Server

namespace AnalysisServer

open List

namespace Channel

variable [TextPaths] {σ : Type} {s : System σ} {x : Exchange} {a : Answer} {l : Line σ} {frames : List Frame}
  {past : List Exchange} {now : Option Exchange} {journal : List Happening} {timeouts : List Nat}
  {seats : Nat} {parts : List Partial}

namespace Exchange

/-- A text has its whole answer: frames with the parts of its result, then a frame with the outcome. These are
what its caller has heard, which is what was said to its request. Each part has its frame, which tells it unless its
path is no text; a project, if it is told, tells the files of its parts. -/
def Answered (timeouts : List Nat) (journal : List Happening) (seats : Nat) (s : System σ) (x : Exchange) : Prop :=
  match x.frame with
  | .text _ => ∃ parts outcome, Gets s x.frame x.call parts (some outcome) ∧
      x.sent = parts.map partFrame ++ [finalFrame outcome] ∧
      (∀ frame ∈ parts.map partFrame, IsPart frame) ∧ IsFinal (finalFrame outcome) ∧
      (∀ p ∈ parts, TextPaths.isText p.filename = true → (partFrame p).get? "results" = some p.toJson) ∧
      (∀ names, filesAnalyzed? (finalFrame outcome) = some names →
        (parts.map partFrame).map filename? = names.map some) ∧
      ∀ c y, x.call = some c → s.calls[c]? = some y → y.Accounted timeouts journal seats c outcome ∧
        ∀ seat id, .sent c seat id ∈ journal → parts.map .part <+: replies journal id
  | _ => x.call = none ∧ x.sent = []

/-- A text has the first part of its answer; of what its caller has heard the rest waits. -/
def UnderWay (s : System σ) (a : Answer) (x : Exchange) : Prop :=
  ∃ gone, Gets s x.frame x.call (gone ++ a.queue) a.outcome ∧ x.sent = gone.map partFrame ∧
    ∀ frame ∈ gone.map partFrame, IsPart frame

end Exchange

theorem isPart_of_mem : ∀ frame ∈ parts.map partFrame, IsPart frame := by
  intro frame hframe
  obtain ⟨p, -, rfl⟩ := mem_map.mp hframe
  exact isPart_partFrame p

theorem Exchange.Stands.underWay (h : x.Stands s a) (hc : a.complete = false) : x.UnderWay s a := by
  cases h with
  | silent => cases hc
  | owed hg ha hsent =>
    cases ha with
    | underway h => exact ⟨_, h ▸ hg, hsent, isPart_of_mem⟩
    | complete => cases hc

section Answering

variable [Digest] {setup : SystemSetup σ} {c : Nat} {y : Call} {call : Option Nat} {frame : Frame}
  {outcome : Except AnalysisError Response} {pool : PoolSetup σ}

omit [TextPaths] in
theorem filenames_of_outcome {o : ProjectOutput} (hs : s.Faithful setup seats timeouts journal)
    (hy : s.calls[c]? = some y) (hstreaming : y.streaming = true) (ho : y.outcome? = some (.ok (.project o))) :
    y.heard.map Partial.filename = o.summary.filesAnalyzed := by
  cases (hs.call hy).accounted ho with
  | reply hr hsent hreplies =>
    have hserved := hs.mail.served ⟨c, _, y, hsent, hy, rfl, rfl⟩
    have hsending : y.sending = true := by simp [Call.sending, hstreaming, hr]
    rw [hsending, hreplies] at hserved
    exact hserved.filesAnalyzed

theorem Exchange.Gets.files {names : List Json} (h : Gets s frame call parts (some outcome))
    (hs : s.Faithful setup seats timeouts journal) (hnames : filesAnalyzed? (finalFrame outcome) = some names) :
    (parts.map partFrame).map filename? = names.map some := by
  obtain ⟨o, rfl, htext, rfl⟩ := filesAnalyzed?_finalFrame hnames
  generalize ho : some (Except.ok (Response.project o)) = last at h
  cases h with
  | asked _ _ _ hy hstreaming =>
    rw [← filenames_of_outcome hs hy hstreaming ho.symm] at htext ⊢
    simp only [map_map]
    exact map_congr_left fun p hp ↦ filename?_partFrame (htext _ (mem_map_of_mem hp))
  | refused => cases ho

omit [TextPaths] in
theorem Exchange.Gets.accounted (h : Gets s frame call parts (some outcome))
    (hs : s.Faithful setup seats timeouts journal) (hc : call = some c) (hy : s.calls[c]? = some y) :
    y.Accounted timeouts journal seats c outcome ∧
      ∀ seat id, .sent c seat id ∈ journal → parts.map .part <+: replies journal id := by
  generalize ho : some outcome = last at h
  cases h with
  | asked _ _ hsome hy' =>
    cases hsome.symm.trans hc
    cases hy'.symm.trans hy
    exact ⟨(hs.call hy).accounted ho.symm, fun _ _ ↦ (hs.call hy).heard⟩
  | refused _ _ hnone => cases hnone.symm.trans hc

theorem Exchange.Stands.answered (h : x.Stands s a) (hc : a.complete)
    (hs : s.Faithful setup seats timeouts journal) : x.Answered timeouts journal seats s := by
  unfold Answered
  cases h with
  | silent hx hnone hsent =>
    split
    · exact absurd ‹_› (hx _)
    · exact ⟨hnone, hsent⟩
  | owed hg ha hsent =>
    obtain ⟨o, rfl, hframes⟩ := ha.sent_of_complete hc
    split
    · exact ⟨_, o, hg, hsent.trans hframes, isPart_of_mem, isFinal_finalFrame o,
        fun _ _ ↦ results_partFrame, fun _ ↦ hg.files hs, fun _ _ ↦ hg.accounted hs⟩
    · rename_i hne
      obtain ⟨body, hbody⟩ := hg.text
      exact absurd hbody (hne body)

theorem Line.drain {o : Except AnalysisError Response} (ho : l.answer.outcome = some o)
    (hc : l.answer.complete = false) :
    (List.replicate (l.answer.queue.length + 1) Move.push).foldlM (Line.step setup) l = some { l with
      answer := { outcome := some o, sent := l.answer.sent ++ Answer.frames l.answer.queue o, complete := true }
      log := l.log ++ (Answer.frames l.answer.queue o).map .sent } := by
  obtain ⟨system, incoming, call, ⟨queue, outcome, sent, complete⟩, closed, log⟩ := l
  cases ho
  cases hc
  induction queue generalizing sent log with
  | nil => simp [Line.step, Answer.step, Line.pushed, Answer.frames]
  | cons p rest ih =>
    have hpush : Line.step setup ⟨system, incoming, call, ⟨p :: rest, some o, sent, false⟩, closed, log⟩ .push =
        some ⟨system, incoming, call, ⟨rest, some o, sent ++ [partFrame p], false⟩, closed,
          log ++ [Signal.sent (partFrame p)]⟩ := by
      simp [Line.step, Answer.step, Line.pushed]
    rw [replicate_succ, foldlM_cons, hpush]
    refine (ih (log ++ [Signal.sent (partFrame p)]) (sent ++ [partFrame p])).trans ?_
    simp [Answer.frames]

theorem Line.Run.answer {k : Line σ} {frame : Frame} {rest : List Frame} {parts : List Partial}
    {o : Except AnalysisError Response} (h : Line.Run setup k journal l) (ho : l.Orderly frames past now)
    (hc : l.answer.complete) (hclosed : l.closed = false) (hi : l.incoming = frame :: rest)
    (hrun : System.Run setup (l.look frame rest).system s)
    (hg : Exchange.Gets s frame (l.look frame rest).call parts (some o)) :
    ∃ journal' l', Line.Run setup k journal' l' ∧ l'.system = s ∧ l'.answer.complete ∧ l'.closed = false ∧
      l'.incoming = rest ∧ l'.log = l.log ++ Signal.read frame :: (Answer.frames parts o).map .sent := by
  have hlook : l.step setup .read = some (l.look frame rest) := by simp [Line.step, hc, hclosed, hi]
  obtain ⟨journal₁, a, hrun₁, horderly⟩ := (h.step hlook).follow (ho.look setup hc hi) hrun
  -- nothing has gone out so far, so that all that was heard is in the queue
  have hanswer : a = { queue := parts, outcome := some o } := by
    cases horderly.owes with
    | answer hstands =>
      obtain ⟨body, rfl⟩ := hg.text
      cases hstands with
      | silent hx => exact absurd rfl (hx body)
      | owed hg' hholds hsent =>
        obtain ⟨rfl, rfl⟩ := hg.unique hg'
        exact hholds.eq_of_unsent hsent.symm
  subst hanswer
  obtain ⟨hlog, hrest, -⟩ := l.look_signals frame rest
  obtain ⟨journal₂, hrun₂⟩ := hrun₁.moves (Line.drain rfl rfl)
  refine ⟨journal₂, _, hrun₂, rfl, rfl, ?_, hrest, ?_⟩
  · obtain ⟨body, rfl⟩ := hg.text
    exact (l.closed_look_text body rest).trans hclosed
  · simp [hlog]

def asking (request : Request) : Call :=
  { request, streaming := true, router := some 0 }

def awaited (pool : PoolSetup σ) (server : Server σ) (request : Request) : System σ :=
  (server.system.begin (asking request)).2.await (server.setup pool) fun s ↦
    (s.calls[server.system.calls.length]?.map Call.isOpen) = some false

omit [TextPaths] in
theorem route_gets (pool : PoolSetup σ) (server : Server σ) (request : Request) :
    ∃ y, System.Run (server.setup pool) (server.system.begin (asking request)).2 (awaited pool server request) ∧
      (awaited pool server request).calls[server.system.calls.length]? = some y ∧ (asking request).Same y ∧
      server.route pool request true = ((y.heard, y.outcome?.getD (.error System.stopped)),
          { server with system := awaited pool server request }) := by
  have hrun : System.Run (server.setup pool) (server.system.begin (asking request)).2
    (awaited pool server request) := System.run_await _ _
  have hx : (server.system.begin (asking request)).2.calls[server.system.calls.length]? = some (asking request) :=
    List.getElem?_concat_length
  obtain ⟨y, hy, hsame, -⟩ := hrun.call_stays hx
  refine ⟨y, hrun, hy, hsame, ?_⟩
  simp only [Server.route]
  split
  · cases hy.symm.trans ‹_›
    rfl
  · cases hy.symm.trans ‹_›

theorem Line.Run.serveFrame {server server' : Server σ} {rest : List Frame}
    {sent : List Json} (h : Line.Run (server.setup pool) (.opened s frames) journal l) (hc : l.answer.complete)
    (hclosed : l.closed = false) (hi : l.incoming = frame :: rest) (hl : l.system = server.system)
    (hs : Serves (fun r ↦ Server.route pool r true) frame server sent server')
    (hstop : finalFrame (.error System.stopped) ∉ sent) : server'.setup pool = server.setup pool ∧
      ∃ journal' l', Line.Run (server.setup pool) (.opened s frames) journal' l' ∧ l'.system = server'.system ∧
        l'.answer.complete ∧ l'.closed = false ∧ l'.incoming = rest ∧
        l'.log = l.log ++ Signal.read frame :: sent.map .sent := by
  obtain ⟨past, now, ho⟩ := h.orderly
  cases hs with
  | binary =>
    have hlook : l.step (server.setup pool) .read = some (l.look .binary rest) := by
      simp [Line.step, hc, hclosed, hi]
    exact ⟨rfl, _, _, h.step hlook, hl, rfl, hclosed, rfl, rfl⟩
  | @refused body _ e hr =>
    have hlook : (l.look (.text body) rest).call = none ∧ (l.look (.text body) rest).system = l.system := by
      simp [Line.look, hr]
    obtain ⟨journal', l', hrun, hsystem, hnext⟩ := h.answer ho hc hclosed hi .refl (.refused rfl hr hlook.1)
    exact ⟨rfl, journal', l', hrun, hsystem.trans (hlook.2.trans hl), hnext⟩
  | @asked body _ r hr =>
    obtain ⟨y, hawait, hy, hsame, hroute⟩ := route_gets pool server r
    have hlook : (l.look (.text body) rest).call = some server.system.calls.length ∧
        (l.look (.text body) rest).system = (server.system.begin (asking r)).2 := by
      simp [Line.look, hr, ← hl, System.begin, asking]
    have hgets : Exchange.Gets (awaited pool server r) (.text body) (l.look (.text body) rest).call y.heard
        y.outcome? :=
      .asked rfl (hr.trans (congrArg _ hsame.request.symm)) hlook.1 hy hsame.streaming hsame.router
    simp only [hroute] at hstop ⊢
    -- a call that came to nothing is answered as by a server that has stopped
    obtain hout | ⟨o, hout⟩ := Option.eq_none_or_eq_some y.outcome?
    · refine absurd ?_ hstop
      simp [hout, Answer.frames]
    · rw [hout] at hgets ⊢
      exact ⟨rfl, h.answer ho hc hclosed hi (hlook.2 ▸ hawait) hgets⟩

theorem Line.Run.serve {pool : PoolSetup σ} {server server' : Server σ} {todo : List Frame}
    {answers : List (List Json)} (h : Line.Run (server.setup pool) (.opened s frames) journal l)
    (hc : l.answer.complete) (hclosed : l.closed = false) (hi : l.incoming = todo) (hl : l.system = server.system)
    (hs : Channel.serve (fun r ↦ Server.route pool r true) todo server = (answers, server'))
    (hstop : ∀ sent ∈ answers, finalFrame (.error System.stopped) ∉ sent) :
    ∃ journal' l', Line.Run (server.setup pool) (.opened s frames) journal' l' ∧ l'.system = server'.system ∧
      l'.answer.complete ∧ l'.log = l.log ++ (todo.zip answers).flatMap fun x ↦ Signal.read x.1 :: x.2.map .sent := by
  induction todo generalizing l journal server answers with
  | nil =>
    cases hs
    exact ⟨journal, l, h, hl, hc, by simp⟩
  | cons frame rest ih =>
    obtain ⟨rfl, rfl, rfl⟩ | ⟨sent, server₁, later, hone, hrest, rfl⟩ := serve_cons hs
    · exact ⟨journal, l, h, hl, hc, by simp⟩
    · obtain ⟨hsetup, journal₁, l₁, hrun₁, hl₁, hc₁, hclosed₁, hi₁, hlog₁⟩ :=
        h.serveFrame hc hclosed hi hl hone (hstop sent (.head _))
      rw [← hsetup] at hrun₁ ⊢
      obtain ⟨journal', l', hrun, hsystem, hdone, hlog⟩ := ih hrun₁ hc₁ hclosed₁ hi₁ hl₁ hrest
        fun sent hsent ↦ hstop sent (.tail _ hsent)
      exact ⟨journal', l', hrun, hsystem, hdone, by simp [hlog, hlog₁]⟩

theorem channel_run {server : Server σ} {answers : List (List Json)}
    (h : (server.channel pool frames).1 = some answers)
    (hstop : ∀ sent ∈ answers, finalFrame (.error System.stopped) ∉ sent) :
    ∃ journal l, Line.Run (server.setup pool) (.opened server.system frames) journal l ∧
      l.system = (server.channel pool frames).2.system ∧ l.answer.complete ∧
      l.log = (frames.zip answers).flatMap fun x ↦ .read x.1 :: x.2.map .sent := by
  unfold Server.channel at h ⊢
  split at h
  · rename_i hlistening
    cases h
    rw [if_pos hlistening]
    exact Line.Run.refl.serve rfl rfl rfl rfl rfl hstop
  · cases h

end Answering

def Signal.isRead : Signal → Bool
  | .read _ => true
  | .sent _ => false

def tellsFailure (frame : Json) : Bool :=
  match frame.get? "kind" with
  | some (.str kind) => kind == "worker-failure"
  | _ => false

def mixedFrames : List Frame :=
  [.text "[\"init-linter\", \x7b\"baseDir\": \"/\"\x7d]", .text "?", .binary,
    .text ("[\"analyze-project\", \x7b\"configuration\": \x7b\"baseDir\": \"/\", \"sonarlint\": true, " ++
      "\"maxFilesForTypeChecking\": 0\x7d, \"files\": \x7b\"/a.js\": \x7b\"fileContent\": \"(\"\x7d, " ++
      "\"/b.css\": \x7b\"fileContent\": \"\"\x7d\x7d\x7d]")]

end Channel

end AnalysisServer
