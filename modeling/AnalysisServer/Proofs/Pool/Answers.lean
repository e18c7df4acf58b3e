import AnalysisServer.Proofs.Pool.Numbers

namespace AnalysisServer

open List

namespace Mailroom

variable {σ : Type} [Digest] {engine : RuleEngine σ} {m m' : Mailroom} {held : RequestId → Prop}
  {said : List (RequestId × Reply)} {recorded : RequestId → Request → Bool → Prop}

structure Serves (engine : RuleEngine σ) (recorded : RequestId → Request → Bool → Prop) (m : Mailroom) :
    Prop where
  message {w : WorkerId} {d : Desk} {id : RequestId} {r r' : Request} {b b' : Bool} :
    m.desks[w]? = some d → .analyze id r b ∈ d.inbox → recorded id r' b' → r' = r ∧ b' = b
  work {w : WorkerId} {d : Desk} {job : Work} {t : Slip} {r : Request} {b : Bool} :
    m.desks[w]? = some d → d.work = some job → t ∈ m.slips → t.id = job.id → recorded job.id r b →
    ∃ parts, Session.Serving engine r b parts (.more job.task) ∧ t.written = parts.map .part
  slip {t : Slip} {r : Request} {b : Bool} : t ∈ m.slips → recorded t.id r b → Session.Replies engine r b t.written

namespace Serves

section

variable (hm : m.Serves engine recorded)

include hm

theorem mono {recorded' : RequestId → Request → Bool → Prop}
    (h : ∀ id r b, recorded' id r b → recorded id r b) : m.Serves engine recorded' :=
  ⟨fun hd hin hr ↦ hm.message hd hin (h _ _ _ hr), fun hd hw ht hid hr ↦ hm.work hd hw ht hid (h _ _ _ hr),
    fun ht hr ↦ hm.slip ht (h _ _ _ hr)⟩

theorem serve (hn : m.Numbered held) {w : WorkerId} {d d' : Desk}
    {id : RequestId} {rs : List Reply} (hd : m.desks[w]? = some d) (hid : id ∈ d.pending)
    (hin : ∀ message ∈ d'.inbox, message ∈ d.inbox)
    (hwork : ∀ job, d'.work = some job → job.id = id)
    (hsaid : ∀ (u : Slip) (r : Request) (b : Bool), u ∈ m.slips → u.id = id → recorded id r b →
      ∃ parts progress, Session.Serving engine r b parts progress ∧
        u.written ++ rs = parts.map .part ++ progress.final ∧ d'.work = progress.work? id) :
    ((m.setDesk w d').say id rs).Serves engine recorded := by
  refine ⟨fun {v e id' r r' b b'} he hin' hr ↦ ?_, fun {v e job t r b} he hw ht hid' hr ↦ ?_, fun {t r b} ht hr ↦ ?_⟩
  · obtain ⟨rfl, rfl⟩ | ⟨-, he⟩ := setDesk_cases hd he
    · exact hm.message hd (hin _ hin') hr
    · exact hm.message he hin' hr
  · obtain ⟨u, hu, rfl⟩ := mem_slips_say.mp ht
    obtain ⟨rfl, rfl⟩ | ⟨hv, he⟩ := setDesk_cases hd he
    · have hjob := hwork job hw
      have huid : u.id = id := hid'.trans hjob
      obtain ⟨parts, progress, hs, hwritten, hw'⟩ := hsaid u r b hu huid (hjob ▸ hr)
      rw [hw] at hw'
      cases progress with
      | done outcome => cases hw'
      | more task =>
        cases hw'
        refine ⟨parts, hs, ?_⟩
        rw [add_self huid, hwritten]
        exact append_nil _
    · have hne : u.id ≠ id := by
        intro huid
        have hmem : job.id ∈ e.pending := by simp [Desk.pending, hw]
        have hjob : job.id = id := hid'.symm.trans huid
        exact hv (hn.pending_unique he hd (hjob ▸ hmem) hid)
      rw [add_of_ne hne] at hid' ⊢
      exact hm.work he hw hu hid' hr
  · obtain ⟨u, hu, rfl⟩ := mem_slips_say.mp ht
    by_cases huid : u.id = id
    · obtain ⟨parts, progress, hs, hwritten, -⟩ := hsaid u r b hu huid (huid ▸ hr)
      rw [add_self huid, hwritten]
      exact .inr ⟨parts, progress, hs, rfl⟩
    · rw [add_of_ne huid] at hr ⊢
      exact hm.slip hu hr

theorem shift (hn : m.Numbered held) (h : m.Shift engine said m') : m'.Serves engine recorded := by
  have hdiscard {w : WorkerId} {d d' : Desk} (hd : m.desks[w]? = some d)
      (hin : ∀ message ∈ d'.inbox, message ∈ d.inbox) (hw : ∀ job, d'.work = some job → d.work = some job) :
      (m.setDesk w d').Serves engine recorded := by
    refine ⟨fun he hin' hr ↦ ?_, fun he hw' ht hid hr ↦ ?_, hm.slip⟩
    · obtain ⟨rfl, rfl⟩ | ⟨-, he⟩ := setDesk_cases hd he
      · exact hm.message hd (hin _ hin') hr
      · exact hm.message he hin' hr
    · obtain ⟨rfl, rfl⟩ | ⟨-, he⟩ := setDesk_cases hd he
      · exact hm.work hd (hw _ hw') ht hid hr
      · exact hm.work he hw' ht hid hr
  have hwork {progress : Progress} {id : RequestId} (job : Work) (h : progress.work? id = some job) :
      job.id = id := by
    cases progress <;> cases h
    rfl
  cases h with
  | stay => exact hm
  | @begin w d id request streaming rest progress space space' hd hw hin hl hb =>
    have hp := Desk.pending_of_inbox hw hin
    refine hm.serve hn hd (hp ▸ mem_cons_self) (fun message h ↦ ?_) hwork fun u r b hu huid hr ↦ ?_
    · rw [hin]
      exact .tail _ h
    · obtain ⟨rfl, rfl⟩ := hm.message hd (hin ▸ mem_cons_self) hr
      have hwaiting : u.id ∈ d.waiting := by simp [Desk.waiting, hin, huid, Message.id?]
      refine ⟨[], progress, .begin hb, ?_, rfl⟩
      rw [hn.waiting_unwritten hd hu hwaiting]
      rfl
  | @step w d job a space space' hd hw hl hs =>
    have hp := Desk.pending_of_work hw
    refine hm.serve hn hd (hp ▸ mem_cons_self) (fun _ h ↦ h) hwork fun u r b hu huid hr ↦ ?_
    obtain ⟨parts, hserving, hwritten⟩ := hm.work hd hw hu huid hr
    refine ⟨_, a.progress, hserving.step hs, ?_, rfl⟩
    rw [hwritten, Advance.replies, map_append, append_assoc]
  | @fail w d job e space hd hw hs =>
    have hp := Desk.pending_of_work hw
    refine hm.serve hn hd (hp ▸ mem_cons_self) (fun _ h ↦ h) (fun _ h ↦ ?_) fun u r b hu huid hr ↦ ?_
    · cases h
    · obtain ⟨parts, hserving, hwritten⟩ := hm.work hd hw hu huid hr
      refine ⟨parts, .done (.error e), hserving.fail hs, ?_, rfl⟩
      rw [hwritten]
      rfl
  | crash hd hw => exact hdiscard hd (fun _ h ↦ h) fun _ h ↦ by cases h
  | close hd hw hin => exact hdiscard hd (fun _ h ↦ by rw [hin]; exact .tail _ h) fun _ h ↦ h
  | drop hd => exact hdiscard hd (by simp) fun _ h ↦ h

end

variable {id : RequestId}

section

variable (hm : m.Serves engine recorded)

include hm

theorem silent (hn : m.Numbered held) (h : m.Shift engine said m')
    {t : Slip} {r : Request} {b : Bool} {o : Except AnalysisError Response} (ht : t ∈ m.slips)
    (hr : recorded t.id r b) (ho : .final o ∈ t.written) {reply : Reply}
    (hsaid : (id, reply) ∈ said) : id ≠ t.id := by
  have hworking {w : WorkerId} {d : Desk} {job : Work} (hd : m.desks[w]? = some d)
      (hw : d.work = some job) : job.id ≠ t.id := by
    intro hid
    obtain ⟨parts, -, hwritten⟩ := hm.work hd hw ht hid.symm (hid ▸ hr)
    rw [hwritten] at ho
    obtain ⟨part, -, hpart⟩ := mem_map.mp ho
    cases hpart
  cases h with
  | @begin w d id request streaming rest progress space space' hd hw hin hl hb =>
    obtain ⟨_, -, heq⟩ := mem_map.mp hsaid
    cases heq
    intro hid
    have hwaiting : t.id ∈ d.waiting := by simp [Desk.waiting, hin, hid, Message.id?]
    rw [hn.waiting_unwritten hd ht hwaiting] at ho
    cases ho
  | step hd hw hl hs =>
    obtain ⟨_, -, heq⟩ := mem_map.mp hsaid
    cases heq
    exact hworking hd hw
  | fail hd hw hs =>
    cases mem_singleton.mp hsaid
    exact hworking hd hw
  | stay | crash | close | drop => cases hsaid

theorem start (hr : ∀ id r b, recorded id r b → id < m.nextId)
    (i g : Nat) (linter : Option Linter) : (m.start i g linter).Serves engine recorded := by
  have hreplay {id r b} (h : .analyze id r b ∈ m.replay) : id = m.nextId := by
    obtain ⟨M, -, heq⟩ := replay_linter h
    cases heq
    rfl
  have hslips {t} (ht : t ∈ (m.start i g linter).slips) : t ∈ m.slips ∨ (t.id = m.nextId ∧ t.written = []) := by
    obtain ht | ht := mem_append.mp ht
    · exact .inl ht
    · obtain ⟨_, -, rfl⟩ := mem_map.mp ht
      exact .inr ⟨rfl, rfl⟩
  refine ⟨fun he hin' hr' ↦ ?_, fun he hw ht hid hr' ↦ ?_, fun ht hr' ↦ ?_⟩
  · obtain he | ⟨-, rfl⟩ := start_cases he
    · exact hm.message he hin' hr'
    · exact absurd (hr _ _ _ hr') (hreplay hin' ▸ Nat.lt_irrefl _)
  · obtain he | ⟨-, rfl⟩ := start_cases he
    · obtain ht | ⟨hnew, -⟩ := hslips ht
      · exact hm.work he hw ht hid hr'
      · exact absurd (hr _ _ _ hr') (hid ▸ hnew ▸ Nat.lt_irrefl _)
    · cases hw
  · obtain ht | ⟨-, hwritten⟩ := hslips ht
    · exact hm.slip ht hr'
    · rw [hwritten]
      exact .inl rfl

theorem deliver (hn : m.Numbered held) {w : WorkerId} {d : Desk}
    {i g : Nat} {request : Request} {streaming : Bool} (hd : m.desks[w]? = some d)
    (hid : held id) (hnew : ∀ r b, ¬ recorded id r b) :
    (m.deliver i g w d id request streaming).Serves engine fun id' r b ↦
      recorded id' r b ∨ id' = id ∧ r = request ∧ b = streaming := by
  have hfresh := (hn.held_fresh hid).2
  have hpending {v : WorkerId} {e : Desk} (he : m.desks[v]? = some e) : id ∉ e.pending := by
    intro h
    obtain ⟨t, ht, htid, -⟩ := hn.pending_slip he h
    exact hfresh t ht htid
  have hmessage {v : WorkerId} {e : Desk} {id' : RequestId} {r r' : Request} {b b' : Bool}
      (he : m.desks[v]? = some e) (hin : .analyze id' r b ∈ e.inbox)
      (hr : recorded id' r' b' ∨ id' = id ∧ r' = request ∧ b' = streaming) : r' = r ∧ b' = b := by
    obtain hr | ⟨rfl, -⟩ := hr
    · exact hm.message he hin hr
    · refine absurd ?_ (hpending he)
      exact mem_append_right _ (mem_filterMap.mpr ⟨_, hin, rfl⟩)
  refine ⟨fun he hin hr ↦ ?_, fun {v e job t r b} he hw ht htid hr ↦ ?_, fun ht hr ↦ ?_⟩
  · obtain ⟨rfl, rfl⟩ | ⟨-, he⟩ := deliver_cases hd he
    · obtain hin | hin := mem_append.mp hin
      · exact hmessage hd hin hr
      · cases mem_singleton.mp hin
        obtain hr | ⟨-, rfl, rfl⟩ := hr
        · exact (hnew _ _ hr).elim
        · exact ⟨rfl, rfl⟩
    · exact hmessage he hin hr
  · have hold : ∃ e₀, m.desks[v]? = some e₀ ∧ e₀.work = some job := by
      obtain ⟨rfl, rfl⟩ | ⟨-, he⟩ := deliver_cases hd he
      · exact ⟨d, hd, hw⟩
      · exact ⟨e, he, hw⟩
    obtain ⟨e₀, he₀, hw₀⟩ := hold
    have hne : job.id ≠ id := fun heq ↦ hpending he₀ (by simp [Desk.pending, hw₀, heq])
    obtain ht | ht := mem_append.mp ht
    · exact hm.work he₀ hw₀ ht htid (hr.resolve_right fun h ↦ hne h.1)
    · cases mem_singleton.mp ht
      exact absurd htid.symm hne
  · obtain ht | ht := mem_append.mp ht
    · exact hm.slip ht (hr.resolve_right fun h ↦ hfresh _ ht h.1)
    · cases mem_singleton.mp ht
      exact .inl rfl

end

end Serves

end Mailroom

end AnalysisServer
