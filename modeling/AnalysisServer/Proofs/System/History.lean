import AnalysisServer.Proofs.Pool.Journal
import AnalysisServer.Proofs.System.Ledger

namespace AnalysisServer

open List

variable {σ : Type} {i : Nat}

theorem concat_isPrefix {α : Type} {l r : List α} {a : α} (h : l <+: r) (ha : r[l.length]? = some a) :
    l ++ [a] <+: r := by
  obtain ⟨t, rfl⟩ := h
  cases t with
  | nil => simp at ha
  | cons b t =>
    obtain rfl : b = a := by simpa using ha
    exact ⟨t, by simp⟩

def Stage.target : Stage → Nat
  | .numbered seat _ | .spreading seat _ _ => seat
  | _ => 0

namespace Pool

variable {p q : Pool σ} {id : RequestId} {n : Nat} {journal : List Happening} {e : AnalysisError}

theorem giveNumber_failure (h : p.giveNumber = (.error e, q)) : ∃ message, e = .workerFailure message := by
  unfold giveNumber at h
  split at h <;> cases h
  exact ⟨_, rfl⟩

theorem enqueue_failure {setup : PoolSetup σ} {request : Request} {streaming : Bool}
    (h : p.enqueue setup i id request streaming = (.error e, q)) : ∃ message, e = .workerFailure message := by
  cases enqueued h
  exact ⟨_, rfl⟩

theorem hear_said (hids : p.ids.Nodup)
    (hw : ∀ t ∈ p.mailroom.slips, t.written = replies journal t.id) (hid : p.InHand id n) {heard : Heard}
    (h : p.hear id = some (heard, q)) :
    match heard with
    | .part part => (replies journal id)[n]? = some (.part part)
    | .outcome o =>
      (replies journal id)[n]? = some (.final o) ∨ ∃ message, o = .error (.workerFailure message) := by
  simp only [hear, Option.bind_eq_bind, Option.bind_eq_some_iff] at h
  obtain ⟨t, ht, h⟩ := h
  obtain ⟨htm, rfl⟩ := ticket?_eq_some ht
  obtain ⟨u, hu, huid, -, rfl⟩ := hid
  obtain rfl := ticket_unique hids hu htm huid
  have hwritten : u.written = replies journal u.id := hw u.slip (mem_map_of_mem hu)
  rw [← hwritten]
  split at h
  · rename_i hnext
    cases h
    exact hnext
  · rename_i hnext
    cases h
    exact .inl hnext
  · split at h <;> cases h
    exact .inr ⟨_, rfl⟩

end Pool

namespace Call

def gained (x y : Call) : List RequestId :=
  x.stage.number?.toList.filter (· ∈ y.tickets)

def sending (x : Call) : Bool :=
  x.streaming && !x.request.isBroadcast

variable {x y : Call} {id : RequestId} {p : Pool σ} {seat : Nat}
  {sent heard : List (Except AnalysisError RequestId)} {a : Except AnalysisError RequestId}
  {outcome : Except AnalysisError Response} {failure : Option AnalysisError}

theorem gained_of_none (h : x.stage.number? = none) : x.gained y = [] := by
  simp [gained, h]

theorem gained_of_stage {stage : Stage} (h : x.stage = stage) (hn : stage.number? = none) : x.gained y = [] :=
  gained_of_none (h ▸ hn)

theorem gained_of_mem (h : x.stage.number? = some id) (hid : id ∈ y.tickets) : x.gained y = [id] := by
  simp [gained, h, hid]

theorem gained_of_subset (hx : x.InOrder p) (h : ∀ id ∈ y.tickets, id ∈ x.tickets) : x.gained y = [] := by
  refine filter_eq_nil_iff.mpr fun id hid hmem ↦ ?_
  obtain ⟨n, hn⟩ := hx.held (h id (of_decide_eq_true hmem))
  exact (hx.fresh (Option.mem_toList.mp hid)).2 hn.mem_ids

theorem gained_of_refused (hx : x.InOrder p) (h : x.stage = .spreading seat (some id) sent) (e : AnalysisError) :
    x.gained { x with stage := .spreading (seat + 1) none (sent ++ [.error e]) } = [] := by
  refine gained_of_subset hx fun id hid ↦ ?_
  simpa [tickets, h, Except.toOption] using hid

theorem gained_of_gather (hx : x.InOrder p) {number : Option RequestId} (h : x.stage = .spreading seat number sent) :
    x.gained { x with stage := .gathering sent none } = [] := by
  refine gained_of_subset hx fun id hid ↦ ?_
  simpa [tickets, h] using hid

def Placed (journal : List Happening) (c i : Nat) : Except AnalysisError RequestId → Prop
  | .ok id => .sent c i id ∈ journal
  | .error e => ∃ message, e = .workerFailure message

def Gathered (journal : List Happening) (c : Nat) (heard : List (Except AnalysisError RequestId)) :
    Option AnalysisError → Prop
  | none => ∀ a ∈ heard, ∃ id, a = .ok id ∧ replies journal id = [.final (.ok .ack)]
  | some e => (∃ message, e = .workerFailure message) ∨
      ∃ seat id, .sent c seat id ∈ journal ∧ replies journal id = [.final (.error e)]

/-- Where the outcome of a call comes from. -/
inductive Accounted (timeouts : List Nat) (journal : List Happening) (seats c : Nat) (x : Call) :
    Except AnalysisError Response → Prop
  | failure (message : String) : Accounted timeouts journal seats c x (.error (.workerFailure message))
  | timeout {r delay : Nat} (hr : x.router = some r) (hd : timeouts[r]? = some delay) :
      Accounted timeouts journal seats c x (.error (.timeout delay))
  | reply {seat : Nat} {id : RequestId} {outcome : Except AnalysisError Response}
      (hr : x.request.isBroadcast = false) (hs : .sent c seat id ∈ journal)
      (h : replies journal id = x.heard.map .part ++ [Reply.final outcome]) :
      Accounted timeouts journal seats c x outcome
  | all (hr : x.request.isBroadcast)
      (h : ∀ i < seats, ∃ id, .sent c i id ∈ journal ∧ replies journal id = [.final (.ok .ack)])
      (honly : ∀ i id, .sent c i id ∈ journal → replies journal id = [.final (.ok .ack)]) :
      Accounted timeouts journal seats c x (.ok .ack)
  | one {seat : Nat} {id : RequestId} {e : AnalysisError} (hr : x.request.isBroadcast)
      (hs : .sent c seat id ∈ journal) (h : replies journal id = [.final (.error e)]) :
      Accounted timeouts journal seats c x (.error e)

def Stands (timeouts : List Nat) (journal : List Happening) (seats c : Nat) (x : Call) : Prop :=
  match x.stage with
  | .arrived | .accepted => ∀ seat id, .sent c seat id ∉ journal
  | .chosen _ | .numbered _ _ => x.request.isBroadcast = false ∧ ∀ seat id, .sent c seat id ∉ journal
  | .waiting id => x.request.isBroadcast = false ∧ ∃ seat, .sent c seat id ∈ journal
  | .spreading seat _ sent => x.request.isBroadcast ∧ sent.length = seat ∧
      (∀ i a, sent[i]? = some a → Placed journal c i a) ∧ ∀ i id, .sent c i id ∈ journal → .ok id ∈ sent
  | .gathering left failure => x.request.isBroadcast ∧ ∃ heard, seats ≤ (heard ++ left).length ∧
      (∀ i a, (heard ++ left)[i]? = some a → Placed journal c i a) ∧
      (∀ i id, .sent c i id ∈ journal → .ok id ∈ heard ++ left) ∧ Gathered journal c heard failure
  | .finished outcome => x.Accounted timeouts journal seats c outcome
  | .abandoned => True

structure Told (timeouts : List Nat) (journal : List Happening) (seats c : Nat) (x : Call) : Prop where
  timed : x.deadline.sleepers = [] ∨ ∃ r, x.router = some r ∧ timeouts[r]? = some x.deadline.delay
  heard {seat : Nat} {id : RequestId} : .sent c seat id ∈ journal → x.heard.map .part <+: replies journal id
  unheard : (∀ seat id, .sent c seat id ∉ journal) → x.heard = []
  one {seat seat' : Nat} {id id' : RequestId} : x.request.isBroadcast = false →
    .sent c seat id ∈ journal → .sent c seat' id' ∈ journal → id = id'
  stands : x.Stands timeouts journal seats c

variable {timeouts : List Nat} {journal journal' : List Happening} {seats c : Nat}

/-- Nothing of what a journal says of a call is taken back. -/
structure Extends (journal journal' : List Happening) (c : Nat) : Prop where
  sent {seat : Nat} {id : RequestId} : .sent c seat id ∈ journal' ↔ .sent c seat id ∈ journal
  grows {seat : Nat} {id : RequestId} : .sent c seat id ∈ journal → replies journal id <+: replies journal' id
  final {seat : Nat} {id : RequestId} {outcome : Except AnalysisError Response} :
    .sent c seat id ∈ journal → .final outcome ∈ replies journal id →
    replies journal' id = replies journal id

theorem Extends.ended {outcome : Except AnalysisError Response} {seat : Nat}
    (h : Extends journal journal' c) (parts : List Reply) (hs : .sent c seat id ∈ journal)
    (ho : replies journal id = parts ++ [Reply.final outcome]) :
    replies journal' id = parts ++ [Reply.final outcome] := by
  have hmem : .final outcome ∈ replies journal id := by
    rw [ho]
    exact mem_append_right _ (mem_singleton_self _)
  exact (h.final hs hmem).trans ho

theorem Placed.extends (hp : Placed journal c i a)
    (h : ∀ seat id, .sent c seat id ∈ journal → .sent c seat id ∈ journal') : Placed journal' c i a := by
  cases a with
  | ok id => exact h _ _ hp
  | error e => exact hp

theorem placed_concat
    (h : ∀ i b, sent[i]? = some b → Placed journal c i b) (ha : Placed journal c sent.length a) (i : Nat)
    (b : Except AnalysisError RequestId) (hb : (sent ++ [a])[i]? = some b) : Placed journal c i b := by
  obtain hb | ⟨rfl, rfl⟩ := getElem?_concat_cases hb
  · exact h i b hb
  · exact ha

theorem Accounted.extends (ho : x.Accounted timeouts journal seats c outcome) (h : Extends journal journal' c) :
    x.Accounted timeouts journal' seats c outcome := by
  cases ho with
  | failure message => exact .failure message
  | timeout hr hd => exact .timeout hr hd
  | reply hr hs ho => exact .reply hr (h.sent.mpr hs) (h.ended _ hs ho)
  | all hr hall honly =>
    refine .all hr (fun i hi ↦ ?_) fun i id hs ↦ ?_
    · obtain ⟨id, hs, ho⟩ := hall i hi
      exact ⟨id, h.sent.mpr hs, h.ended [] hs ho⟩
    · have hs := h.sent.mp hs
      exact h.ended [] hs (honly i id hs)
  | one hr hs ho => exact .one hr (h.sent.mpr hs) (h.ended [] hs ho)

theorem Gathered.extends (hg : Gathered journal c heard failure) (h : Extends journal journal' c)
    (hs : ∀ id, .ok id ∈ heard → ∃ seat, .sent c seat id ∈ journal) :
    Gathered journal' c heard failure := by
  cases failure with
  | none =>
    intro a ha
    obtain ⟨id, rfl, ho⟩ := hg a ha
    obtain ⟨seat, hsent⟩ := hs id ha
    exact ⟨id, rfl, h.ended [] hsent ho⟩
  | some e =>
    obtain hfail | ⟨seat, id, hsent, ho⟩ := hg
    · exact .inl hfail
    · exact .inr ⟨seat, id, h.sent.mpr hsent, h.ended [] hsent ho⟩

theorem Stands.extends (hx : x.Stands timeouts journal seats c) (h : Extends journal journal' c) :
    x.Stands timeouts journal' seats c := by
  have hnone (hn : ∀ seat id, .sent c seat id ∉ journal) (seat : Nat) (id : RequestId) :
      .sent c seat id ∉ journal' := fun hs ↦ hn seat id (h.sent.mp hs)
  have hplaced {l : List (Except AnalysisError RequestId)}
      (hl : ∀ i a, l[i]? = some a → Placed journal c i a) (i : Nat) (a : Except AnalysisError RequestId)
      (ha : l[i]? = some a) : Placed journal' c i a :=
    (hl i a ha).extends fun _ _ ↦ h.sent.mpr
  unfold Stands at hx ⊢
  split at hx
  · exact hnone hx
  · exact hnone hx
  · exact ⟨hx.1, hnone hx.2⟩
  · exact ⟨hx.1, hnone hx.2⟩
  · obtain ⟨hr, seat, hs⟩ := hx
    exact ⟨hr, seat, h.sent.mpr hs⟩
  · obtain ⟨hr, hlen, hsent, hmem⟩ := hx
    exact ⟨hr, hlen, hplaced hsent, fun i id hs ↦ hmem i id (h.sent.mp hs)⟩
  · obtain ⟨hr, heard, hlen, hsent, hmem, hg⟩ := hx
    refine ⟨hr, heard, hlen, hplaced hsent, fun i id hs ↦ hmem i id (h.sent.mp hs), hg.extends h fun id hid ↦ ?_⟩
    obtain ⟨i, hi⟩ := List.getElem?_of_mem (mem_append_left _ hid)
    exact ⟨i, hsent i _ hi⟩
  · exact hx.extends h
  · trivial

section

variable (hx : x.Told timeouts journal seats c)

include hx

theorem Told.extends (h : Extends journal journal' c) : x.Told timeouts journal' seats c :=
  ⟨hx.timed, fun hs ↦ (hx.heard (h.sent.mp hs)).trans (h.grows (h.sent.mp hs)),
    fun hn ↦ hx.unheard fun seat id hs ↦ hn seat id (h.sent.mpr hs),
    fun hr hs hs' ↦ hx.one hr (h.sent.mp hs) (h.sent.mp hs'), hx.stands.extends h⟩

theorem Told.restage (hsame : x.Same y) (hheard : y.heard = x.heard)
    (hd : y.deadline.sleepers = x.deadline.sleepers ∧ y.deadline.delay = x.deadline.delay)
    (hst : y.Stands timeouts journal seats c) : y.Told timeouts journal seats c := by
  refine ⟨?_, fun hs ↦ hheard ▸ hx.heard hs, fun hn ↦ hheard.trans (hx.unheard hn), fun hr ↦ ?_, hst⟩
  · rw [hd.1, hd.2, hsame.router]
    exact hx.timed
  · exact hx.one (hsame.request ▸ hr)

theorem Told.onTo {stage : Stage} (hst : { x with stage }.Stands timeouts journal seats c) :
    { x with stage }.Told timeouts journal seats c :=
  hx.restage ⟨rfl, rfl, rfl, prefix_rfl⟩ rfl ⟨rfl, rfl⟩ hst

theorem Told.ended {outcome : Except AnalysisError Response} (h : x.Accounted timeouts journal seats c outcome) :
    (x.ended (.finished outcome)).Told timeouts journal seats c := by
  refine hx.restage (x.same_ended _) rfl ?_ ?_
  · unfold Call.ended Deadline.stop
    split <;> exact ⟨rfl, rfl⟩
  · cases h with
    | failure message => exact .failure message
    | timeout hr hd => exact .timeout hr hd
    | reply hr hs h => exact .reply hr hs h
    | all hr h honly => exact .all hr h honly
    | one hr hs h => exact .one hr hs h

theorem Told.abandoned : (x.ended .abandoned).Told timeouts journal seats c := by
  refine hx.restage (x.same_ended _) rfl ?_ trivial
  unfold Call.ended Deadline.stop
  split <;> exact ⟨rfl, rfl⟩

theorem Told.sends (hsame : x.Same y) (hheard : y.heard = []) (hd : y.deadline = x.deadline) {seat : Nat}
    (hone : x.request.isBroadcast = false → ∀ seat id, .sent c seat id ∉ journal)
    (hst : y.Stands timeouts (journal ++ [id].map (.sent c seat)) seats c) :
    y.Told timeouts (journal ++ [id].map (.sent c seat)) seats c := by
  refine ⟨?_, fun _ ↦ ?_, fun _ ↦ hheard, fun {i i' id₁ id₂} hr hs hs' ↦ ?_, hst⟩
  · rw [hd, hsame.router]
    exact hx.timed
  · rw [hheard]
    exact nil_prefix
  · have honly {i id'} (hs : Happening.sent c i id' ∈ journal ++ [id].map (.sent c seat)) : id' = id := by
      obtain hs | hs := mem_append.mp hs
      · exact (hone (hsame.request ▸ hr) _ _ hs).elim
      · cases mem_singleton.mp hs
        rfl
    rw [honly hs, honly hs']

theorem Told.accounted (ho : x.outcome? = some outcome) : x.Accounted timeouts journal seats c outcome := by
  have hstands := hx.stands
  unfold Call.outcome? at ho
  unfold Call.Stands at hstands
  split at ho
  · rename_i hst
    cases ho
    rwa [hst] at hstands
  · cases ho

theorem Told.answered {response : Response} (ho : x.outcome? = some (.ok response)) (hs : .sent c seat id ∈ journal) :
    .final (.ok response) ∈ replies journal id := by
  cases hx.accounted ho with
  | reply hr hs' h =>
    rw [hx.one hr hs hs', h]
    exact mem_append_right _ (mem_singleton_self _)
  | all hr h honly =>
    rw [honly seat id hs]
    exact mem_singleton_self _

end

theorem Gathered.note (hg : Gathered journal c heard failure) (h : match outcome with
      | .ok _ => ∃ id, a = .ok id ∧ replies journal id = [.final (.ok .ack)]
      | .error e => Gathered journal c [] (some e)) :
    Gathered journal c (heard ++ [a]) (System.note failure outcome) := by
  cases outcome with
  | ok response =>
    cases failure with
    | none =>
      intro b hb
      obtain hb | hb := mem_append.mp hb
      · exact hg b hb
      · cases mem_singleton.mp hb
        exact h
    | some e => exact hg
  | error e =>
    cases failure with
    | none => exact h
    | some e' => exact hg

theorem Accounted.of_gathered (hr : x.request.isBroadcast) (hlen : seats ≤ heard.length)
    (hplaced : ∀ i a, heard[i]? = some a → Placed journal c i a)
    (hmem : ∀ i id, .sent c i id ∈ journal → .ok id ∈ heard) (hg : Gathered journal c heard failure) :
    x.Accounted timeouts journal seats c (System.gathered failure) := by
  cases failure with
  | none =>
    refine .all hr (fun i hi ↦ ?_) fun i id hs ↦ ?_
    · have ha : heard[i]? = some heard[i] := List.getElem?_eq_getElem (Nat.lt_of_lt_of_le hi hlen)
      obtain ⟨id, hid, hack⟩ := hg _ (getElem_mem _)
      have hsent := hplaced i _ ha
      rw [hid] at hsent
      exact ⟨id, hsent, hack⟩
    · obtain ⟨id', hid, hack⟩ := hg _ (hmem i id hs)
      cases hid
      exact hack
  | some e =>
    obtain ⟨message, rfl⟩ | ⟨seat, id, hs, he⟩ := hg
    · exact .failure message
    · exact .one hr hs he

theorem Stands.spreadSend {seat : Nat} {number : Option RequestId}
    {sent : List (Except AnalysisError RequestId)} (hx : x.Stands timeouts journal seats c)
    (h : x.stage = .spreading seat number sent) (id : RequestId) :
    Stands timeouts (journal ++ [id].map (.sent c seat)) seats c
      { x with stage := .spreading (seat + 1) none (sent ++ [.ok id]) } := by
  simp only [Stands, h] at hx
  obtain ⟨hr, hlen, hsent, hmem⟩ := hx
  refine ⟨hr, by simp [hlen], ?_, fun i id' hs ↦ ?_⟩
  · refine placed_concat (fun i a ha ↦ (hsent i a ha).extends fun _ _ ↦ mem_append_left _) ?_
    exact mem_append_right _ (hlen ▸ mem_singleton_self _)
  · obtain hs | hs := mem_append.mp hs
    · exact mem_append_left _ (hmem i id' hs)
    · cases mem_singleton.mp hs
      exact mem_append_right _ (mem_singleton_self _)

section Step

variable [Digest] {setup : PoolSetup σ} {s : System σ} {q : Pool σ} {engine : RuleEngine σ}
  {recorded : RequestId → Request → Bool → Prop}

section

variable (hp : s.pool.InOrder) (hm : s.pool.mailroom.Journaled engine recorded journal) (ho : x.InOrder s.pool)

include hp hm ho

section

variable (hx : x.Told timeouts journal seats c) (hst : x.stage = .waiting id)

include hx hst

theorem Told.hear {outcome : Except AnalysisError Response}
    (hrec : ∀ seat id, .sent c seat id ∈ journal → recorded id x.request x.sending)
    (hq : s.pool.hear id = some (.outcome outcome, q)) :
    x.Accounted timeouts journal seats c outcome := by
  have hstands := hx.stands
  simp only [Stands, hst] at hstands
  obtain ⟨hr, seat, hs⟩ := hstands
  obtain hsaid | ⟨message, rfl⟩ := Pool.hear_said hp.ids_nodup (fun _ ↦ hm.written) (ho.waiting hst) hq
  · have hlen := (hm.served (hrec seat id hs)).length_of_final hsaid
    have hpre := concat_isPrefix (hx.heard hs) (by rwa [length_map])
    have hall := hpre.eq_of_length (by rw [length_append, length_map, hlen]; rfl)
    exact .reply hr hs hall.symm
  · exact .failure message

theorem Told.hearPart {part : Partial} (hq : s.pool.hear id = some (.part part, q)) :
    Told timeouts journal seats c { x with heard := x.heard ++ [part] } := by
  have hsaid := Pool.hear_said hp.ids_nodup (fun _ ↦ hm.written) (ho.waiting hst) hq
  have hstands := hx.stands
  simp only [Stands, hst] at hstands
  obtain ⟨hr, seat, hs⟩ := hstands
  refine ⟨hx.timed, fun hs' ↦ ?_, fun hn ↦ (hn _ _ hs).elim, hx.one, ?_⟩
  · rw [hx.one hr hs' hs, map_append]
    exact concat_isPrefix (hx.heard hs) (by rwa [length_map])
  · simp only [Stands, hst]
    exact ⟨hr, seat, hs⟩

end

theorem Gathered.hear {outcome : Except AnalysisError Response} (hr : x.request.isBroadcast) (hid : id ∈ x.tickets)
    {seat : Nat} (hs : .sent c seat id ∈ journal) (hrec : recorded id x.request x.sending)
    (hq : s.pool.hear id = some (.outcome outcome, q)) :
    match outcome with
    | .ok _ => replies journal id = [.final (.ok .ack)]
    | .error e => Gathered journal c [] (some e) := by
  obtain ⟨n, hn⟩ := ho.held hid
  obtain hsaid | ⟨message, rfl⟩ := Pool.hear_said hp.ids_nodup (fun _ ↦ hm.written) hn hq
  · have hmem := mem_of_getElem? hsaid
    obtain hnone | hack | ⟨e, he⟩ := (hm.served hrec).broadcast hr
    · rw [hnone] at hmem
      cases hmem
    · rw [hack] at hmem
      cases mem_singleton.mp hmem
      exact hack
    · rw [he] at hmem
      cases mem_singleton.mp hmem
      exact .inr ⟨seat, id, hs, he⟩
  · exact .inl ⟨message, rfl⟩

end

theorem Step.told (h : x.Step setup s q y) (hp : s.pool.InOrder)
    (hm : s.pool.mailroom.Journaled engine recorded journal) (ho : x.InOrder s.pool)
    (hx : x.Told timeouts journal s.pool.seats.length c)
    (hrec : ∀ seat id, .sent c seat id ∈ journal → recorded id x.request x.sending)
    (ht : s.routers.map Router.timeout = timeouts) :
    y.Told timeouts (journal ++ (x.gained y).map (.sent c x.stage.target)) s.pool.seats.length c := by
  have hkept {y : Call} (hg : x.gained y = []) (hy : y.Told timeouts journal s.pool.seats.length c) :
      y.Told timeouts (journal ++ (x.gained y).map (.sent c x.stage.target)) s.pool.seats.length c := by
    rw [hg]
    simpa using hy
  have hfailed {e : AnalysisError} (he : ∃ message, e = .workerFailure message) :
      (x.ended (.finished (.error e))).Told timeouts
        (journal ++ (x.gained (x.ended (.finished (.error e)))).map (.sent c x.stage.target))
        s.pool.seats.length c := by
    obtain ⟨message, rfl⟩ := he
    exact hkept (gained_of_subset ho (by rintro _ ⟨⟩)) (hx.ended (.failure message))
  have hstands := hx.stands
  -- only `send` and `spreadSend` add to the journal; all other steps keep it and change the stage
  cases h with
  | @accept d h hd =>
    simp only [Stands, h] at hstands
    refine hkept (gained_of_stage h rfl) ⟨?_, fun hs ↦ (hstands _ _ hs).elim, hx.unheard,
      fun _ hs ↦ (hstands _ _ hs).elim, hstands⟩
    obtain rfl | ⟨r, router, hr, hrouter, -, rfl⟩ := hd
    · exact hx.timed
    · refine .inr ⟨r, hr, ?_⟩
      rw [← ht, List.getElem?_map, hrouter]
      rfl
  | turnAway h hr ha =>
    exact hkept (gained_of_stage h rfl) (hx.onTo (.failure _))
  | remember h hr =>
    simp only [Stands, h] at hstands
    refine hkept (gained_of_stage h rfl) (hx.onTo ?_)
    exact ⟨hr, rfl, by simp, fun i id hs ↦ (hstands i id hs).elim⟩
  | choose h hr =>
    simp only [Stands, h] at hstands
    exact hkept (gained_of_stage h rfl) (hx.onTo ⟨hr, hstands⟩)
  | number h hq | spreadNumber h hs hq =>
    simp only [Stands, h] at hstands
    exact hkept (gained_of_stage h rfl) (hx.onTo hstands)
  | numberRefused h hq => exact hfailed (Pool.giveNumber_failure hq)
  | @send seat id u q h hq =>
    simp only [Stands, h] at hstands
    have hgained : x.gained { x with stage := .waiting id } = [id] :=
      gained_of_mem (by rw [h]; rfl) (by simp [tickets])
    rw [hgained, h]
    refine hx.sends (y := { x with stage := .waiting id }) ⟨rfl, rfl, rfl, prefix_rfl⟩
      (ho.quiet (by rw [h]; rfl)) rfl (fun _ ↦ hstands.2) ⟨hstands.1, seat, ?_⟩
    exact mem_append_right _ (mem_singleton_self _)
  | sendRefused h hq => exact hfailed (Pool.enqueue_failure hq)
  | hearPart h hq => exact hkept (gained_of_stage h rfl) (hx.hearPart hp hm ho h hq)
  | hear h hq => exact hkept (gained_of_stage h rfl) (hx.ended (hx.hear hp hm ho h hrec hq))
  | spreadClosed h hs hq =>
    simp only [Stands, h] at hstands
    refine hkept (gained_of_stage h rfl) (hx.onTo ?_)
    obtain ⟨hr, hlen, hsent, hmem⟩ := hstands
    exact ⟨hr, by simp [hlen], placed_concat hsent (Pool.giveNumber_failure hq),
      fun i id hs ↦ mem_append_left _ (hmem i id hs)⟩
  | @spreadSend seat sent id u q h hs hq =>
    let y : Call := { x with stage := .spreading (seat + 1) none (sent ++ [.ok id]) }
    have hgained : x.gained y = [id] :=
      gained_of_mem (by rw [h]; rfl) (by simp [y, tickets, Except.toOption])
    have hnext := hstands.spreadSend h id
    simp only [Stands, h] at hstands
    rw [hgained, h]
    refine hx.sends (y := y) ⟨rfl, rfl, rfl, prefix_rfl⟩ (ho.quiet (by rw [h]; rfl)) rfl (fun hr ↦ ?_) hnext
    rw [hstands.1] at hr
    cases hr
  | spreadRefused h hs hq =>
    simp only [Stands, h] at hstands
    refine hkept (gained_of_refused ho h _) (hx.onTo ?_)
    obtain ⟨hr, hlen, hsent, hmem⟩ := hstands
    exact ⟨hr, by simp [hlen], placed_concat hsent (Pool.enqueue_failure hq),
      fun i id hs ↦ mem_append_left _ (hmem i id hs)⟩
  | gather h hs =>
    simp only [Stands, h] at hstands
    refine hkept (gained_of_gather ho h) (hx.onTo ?_)
    obtain ⟨hr, hlen, hsent, hmem⟩ := hstands
    exact ⟨hr, [], hlen ▸ hs, hsent, hmem, by rintro _ ⟨⟩⟩
  | @gathered failure h =>
    simp only [Stands, h] at hstands
    obtain ⟨hr, heard, hlen, hplaced, hmem, hg⟩ := hstands
    rw [append_nil] at hlen hplaced hmem
    exact hkept (gained_of_stage h rfl) (hx.ended (.of_gathered hr hlen hplaced hmem hg))
  | @gatherUnsent e rest failure h =>
    simp only [Stands, h] at hstands
    obtain ⟨hr, heard, hlen, hplaced, hmem, hg⟩ := hstands
    have he : Placed journal c heard.length (.error e) := hplaced _ _ (by simp)
    rw [append_cons] at hlen hplaced hmem
    refine hkept (gained_of_stage h rfl) (hx.onTo ?_)
    exact ⟨hr, _, hlen, hplaced, hmem, hg.note (.inl he)⟩
  | gatherPart h hq => exact hkept (gained_of_stage h rfl) hx
  | @gatherHear id rest failure outcome q h hq =>
    simp only [Stands, h] at hstands
    obtain ⟨hr, heard, hlen, hplaced, hmem, hg⟩ := hstands
    have hs : Placed journal c heard.length (.ok id) := hplaced _ _ (by simp)
    have hid : id ∈ x.tickets := by simp [tickets, h, Except.toOption]
    have hword := Gathered.hear hp hm ho hr hid hs (hrec _ _ hs) hq
    rw [append_cons] at hlen hplaced hmem
    refine hkept (gained_of_stage h rfl) (hx.onTo ?_)
    refine ⟨hr, _, hlen, hplaced, hmem, hg.note ?_⟩
    cases outcome with
    | ok response => exact ⟨id, rfl, hword⟩
    | error e => exact hword

end Step

end Call

end AnalysisServer
