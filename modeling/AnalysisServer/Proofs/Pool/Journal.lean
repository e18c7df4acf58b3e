import AnalysisServer.Proofs.Pool.Answers

namespace AnalysisServer

open List

/-- An entry of the journal: a call has sent its request to a seat, or a worker says something. -/
inductive Happening where
  | sent (c seat : Nat) (id : RequestId)
  | said (id : RequestId) (reply : Reply)

def Happening.reply? (id : RequestId) : Happening → Option Reply
  | .sent .. => none
  | .said id' reply => if id' = id then some reply else none

def replies (journal : List Happening) (id : RequestId) : List Reply :=
  journal.filterMap (Happening.reply? id)

def sayings (said : List (RequestId × Reply)) : List Happening :=
  said.map fun (id, reply) ↦ .said id reply

variable {journal : List Happening} {said : List (RequestId × Reply)} {id : RequestId} {reply : Reply}

theorem replies_append (journal journal' : List Happening) (id : RequestId) :
    replies (journal ++ journal') id = replies journal id ++ replies journal' id :=
  filterMap_append

@[simp] theorem replies_sent (c seat : Nat) (ids : List RequestId) :
    replies (journal ++ ids.map (.sent c seat)) id = replies journal id := by
  have hnone : replies (ids.map (.sent c seat)) id = [] := by
    simp [replies, filterMap_map, Happening.reply?, Function.comp_def]
  rw [replies_append, hnone, append_nil]

theorem replies_eq_nil (h : ∀ reply, .said id reply ∉ journal) : replies journal id = [] := by
  refine filterMap_eq_nil_iff.mpr fun entry hmem ↦ ?_
  cases entry with
  | sent c seat id' => rfl
  | said id' reply =>
    refine if_neg fun heq ↦ h reply ?_
    rwa [← heq]

theorem mem_sayings : .said id reply ∈ sayings said ↔ (id, reply) ∈ said := by
  simp [sayings]

theorem not_sent_sayings {c seat : Nat} : .sent c seat id ∉ sayings said := by
  simp [sayings]

theorem replies_said (id' : RequestId) (rs : List Reply) :
    replies (sayings (rs.map (id', ·))) id = if id' = id then rs else [] := by
  induction rs with
  | nil => simp [replies, sayings]
  | cons r rs ih =>
    have hcons : replies (sayings ((r :: rs).map (id', ·))) id =
        replies [.said id' r] id ++ replies (sayings (rs.map (id', ·))) id :=
      replies_append [.said id' r] _ id
    rw [hcons, ih]
    by_cases h : id' = id <;> simp [replies, Happening.reply?, h]

namespace Mailroom

variable {σ : Type} [Digest] {engine : RuleEngine σ} {m m' : Mailroom}
  {recorded : RequestId → Request → Bool → Prop} {held : RequestId → Prop}

theorem Shift.slips (h : m.Shift engine said m') : m'.slips =
    m.slips.map fun t ↦ { t with written := t.written ++ replies (sayings said) t.id } := by
  cases h.shrinks with
  | stay | quiet =>
    simp [sayings, replies, Mailroom.setDesk]
  | @serve _ _ _ id hd _ hp rs =>
    refine map_congr_left fun t _ ↦ ?_
    rw [replies_said]
    by_cases h : t.id = id
    · simp [Slip.add, h]
    · simp [Slip.add, h, Ne.symm h]

theorem Shift.ticketed (h : m.Shift engine said m') (hn : m.Numbered held) (hsaid : (id, reply) ∈ said) :
    ∃ t ∈ m.slips, t.id = id := by
  obtain ⟨w, d, hd, hid⟩ := h.said_pending hsaid
  obtain ⟨t, ht, htid, -⟩ := hn.pending_slip hd hid
  exact ⟨t, ht, htid⟩

/-- Tickets and journal agree, and requests on record are served as they are recorded. -/
structure Journaled (engine : RuleEngine σ) (recorded : RequestId → Request → Bool → Prop)
    (journal : List Happening) (m : Mailroom) : Prop where
  numbered : m.Numbered fun _ ↦ False
  serves : m.Serves engine recorded
  written {t : Slip} : t ∈ m.slips → t.written = replies journal t.id
  known {id : RequestId} {r : Request} {b : Bool} : recorded id r b → ∃ t ∈ m.slips, t.id = id
  said {id : RequestId} {reply : Reply} : .said id reply ∈ journal → ∃ t ∈ m.slips, t.id = id

namespace Journaled

section

variable (hm : m.Journaled engine recorded journal) {b : Bool} {r : Request}

include hm

theorem served (hr : recorded id r b) : Session.Replies engine r b (replies journal id) := by
  obtain ⟨t, ht, rfl⟩ := hm.known hr
  exact hm.written ht ▸ hm.serves.slip ht hr

theorem mono {recorded' : RequestId → Request → Bool → Prop} (h : ∀ id r b, recorded' id r b → recorded id r b) :
    m.Journaled engine recorded' journal :=
  ⟨hm.numbered, hm.serves.mono h, hm.written, fun hr ↦ hm.known (h _ _ _ hr), hm.said⟩

theorem hold (h : ∀ id, held id → id < m.nextId ∧ ∀ t ∈ m.slips, t.id ≠ id) : m.Numbered held :=
  { hm.numbered with held_fresh := fun hid ↦ h _ hid }

theorem shift (h : m.Shift engine said m') : m'.Journaled engine recorded (journal ++ sayings said) := by
  have hslips {id} (hid : ∃ t ∈ m.slips, t.id = id) : ∃ t ∈ m'.slips, t.id = id := by
    obtain ⟨t, ht, htid⟩ := hid
    rw [h.slips]
    exact ⟨_, mem_map_of_mem ht, htid⟩
  refine ⟨hm.numbered.shift h, hm.serves.shift hm.numbered h, fun {t} ht ↦ ?_,
    fun hr ↦ hslips (hm.known hr), fun hsaid ↦ hslips ?_⟩
  · rw [h.slips] at ht
    obtain ⟨u, hu, rfl⟩ := mem_map.mp ht
    rw [replies_append, hm.written hu]
  · obtain hsaid | hsaid := mem_append.mp hsaid
    · exact hm.said hsaid
    · exact h.ticketed hm.numbered (mem_sayings.mp hsaid)

theorem silent (h : m.Shift engine said m') {o : Except AnalysisError Response} (hr : recorded id r b)
    (ho : .final o ∈ replies journal id) : replies (journal ++ sayings said) id = replies journal id := by
  obtain ⟨t, ht, rfl⟩ := hm.known hr
  rw [← hm.written ht] at ho
  have hnone : replies (sayings said) t.id = [] :=
    replies_eq_nil fun reply hsaid ↦ hm.serves.silent hm.numbered h ht hr ho (mem_sayings.mp hsaid) rfl
  rw [replies_append, hnone, append_nil]

theorem asked (h : m.Asked m') : m'.Journaled engine recorded journal := by
  cases h with
  | nobody => exact hm
  | @worker w d hd =>
    have hwaiting : ({ d with inbox := d.inbox ++ [.close] } : Desk).waiting = d.waiting := by
      simp [Desk.waiting, Message.id?]
    refine ⟨hm.numbered.shrink hd rfl rfl ?_ ?_, ⟨fun he hin hr ↦ ?_, fun he hw ht hid hr ↦ ?_,
      hm.serves.slip⟩, hm.written, hm.known, hm.said⟩
    · rw [Desk.pending, hwaiting]
      exact .refl _
    · exact hwaiting ▸ List.Sublist.refl d.waiting
    · obtain ⟨rfl, rfl⟩ | ⟨-, he⟩ := setDesk_cases hd he
      · obtain hin | hin := mem_append.mp hin
        · exact hm.serves.message hd hin hr
        · cases mem_singleton.mp hin
      · exact hm.serves.message he hin hr
    · obtain ⟨rfl, rfl⟩ | ⟨-, he⟩ := setDesk_cases hd he
      · exact hm.serves.work hd hw ht hid hr
      · exact hm.serves.work he hw ht hid hr

theorem setLinter (linter : Option Linter) : { m with linter }.Journaled engine recorded journal :=
  ⟨hm.numbered.setLinter linter, ⟨hm.serves.message, hm.serves.work, hm.serves.slip⟩, hm.written, hm.known, hm.said⟩

theorem number : { m with nextId := m.nextId + 1 }.Journaled engine recorded journal :=
  ⟨hm.numbered.number fun _ h ↦ h.elim, ⟨hm.serves.message, hm.serves.work, hm.serves.slip⟩, hm.written,
    hm.known, hm.said⟩

theorem addSlips (m' : Mailroom) {new : List Slip} (hslips : m'.slips = m.slips ++ new)
    (hnew : ∀ t ∈ new, t.written = [] ∧ ∀ u ∈ m.slips, u.id ≠ t.id) :
    (∀ t ∈ m'.slips, t.written = replies journal t.id) ∧
      ∀ id, (∃ t ∈ m.slips, t.id = id) → ∃ t ∈ m'.slips, t.id = id := by
  rw [hslips]
  refine ⟨fun t ht ↦ ?_, fun id ⟨t, ht, htid⟩ ↦ ⟨t, mem_append_left _ ht, htid⟩⟩
  obtain ht | ht := mem_append.mp ht
  · exact hm.written ht
  · obtain ⟨hnone, hfresh⟩ := hnew t ht
    rw [hnone, replies_eq_nil fun reply hsaid ↦ ?_]
    obtain ⟨u, hu, huid⟩ := hm.said hsaid
    exact hfresh u hu huid

theorem start {i : Nat} {seat : Option WorkerId × Nat} (hi : m.seats[i]? = some seat) (linter : Option Linter) :
    (m.start i (seat.2 + 1) linter).Journaled engine recorded journal := by
  have hlt {id r b} (hr : recorded id r b) : id < m.nextId := by
    obtain ⟨t, ht, rfl⟩ := hm.known hr
    exact hm.numbered.slip_lt ht
  obtain ⟨hwritten, hkeep⟩ := hm.addSlips (m.start i (seat.2 + 1) linter) rfl fun t ht ↦ by
    obtain ⟨_, -, rfl⟩ := mem_map.mp ht
    exact ⟨rfl, fun u hu huid ↦ Nat.lt_irrefl _ (huid ▸ hm.numbered.slip_lt hu)⟩
  exact ⟨hm.numbered.start hi linter, hm.serves.start (fun _ _ _ ↦ hlt) _ _ _, hwritten _,
    fun hr ↦ hkeep _ (hm.known hr), fun hsaid ↦ hkeep _ (hm.said hsaid)⟩

end

theorem prepared {fresh : WorkerId → Nat → Option Linter} {i : Nat} (h : Prepared fresh i m m')
    (hm : m.Journaled engine recorded journal) : m'.Journaled engine recorded journal := by
  induction h with
  | ready m => exact hm
  | start hi _ ih => exact ih (hm.start hi _)

theorem deliver (hm : m.Journaled engine recorded journal)
    (hn : m.Numbered held) (hid : held id) {c i g : Nat} {w : WorkerId} {d : Desk} {request : Request}
    {streaming : Bool} (hseat : m.seats[i]? = some (some w, g)) (hd : m.desks[w]? = some d) :
    (m.deliver i g w d id request streaming).Journaled engine
      (fun id' r b ↦ recorded id' r b ∨ id' = id ∧ r = request ∧ b = streaming)
      (journal ++ [id].map (.sent c i)) := by
  have hfresh := (hn.held_fresh hid).2
  have hunrecorded (r : Request) (b : Bool) : ¬ recorded id r b := fun hr ↦ by
    obtain ⟨t, ht, htid⟩ := hm.known hr
    exact hfresh t ht htid
  obtain ⟨hwritten, hkeep⟩ := hm.addSlips (m.deliver i g w d id request streaming) rfl fun t ht ↦ by
    cases mem_singleton.mp ht
    exact ⟨rfl, hfresh⟩
  refine ⟨hn.deliver hseat hd hid (fun _ h ↦ h.elim) _ _, hm.serves.deliver hn hd hid hunrecorded,
    fun ht ↦ ?_, fun hr ↦ ?_, fun hsaid ↦ ?_⟩
  · rw [replies_sent]
    exact hwritten _ ht
  · obtain hr | ⟨rfl, -⟩ := hr
    · exact hkeep _ (hm.known hr)
    · exact ⟨_, mem_append_right _ (mem_singleton_self _), rfl⟩
  · obtain hsaid | hsaid := mem_append.mp hsaid
    · exact hkeep _ (hm.said hsaid)
    · cases mem_singleton.mp hsaid

end Journaled

end Mailroom

end AnalysisServer
