import AnalysisServer.Discovery.Store
import AnalysisServer.Proofs.Discovery.Entries

namespace AnalysisServer

open List

open HasDisk (disk)

open FileStore (isInitialized name postProcess processDirectory processFile setup supportsDirectories)

/-- A call to a store; a question comes with its answer. -/
inductive StoreCall where
  | isInitialized (ready : Bool)
  | setup
  | processFile (path : Path)
  | processDirectory (path : Path)
  | postProcess
deriving DecidableEq

abbrev PlacedCall := Nat × StoreCall

structure PlacedStore (S : Type) where
  place : Nat
  store : S

structure Journaled (E : Type) where
  bare : E
  calls : List PlacedCall := []

variable {E S : Type}

instance [HasDisk E] : HasDisk (Journaled E) where
  disk e := disk e.bare
  setDisk disk e := { e with bare := HasDisk.setDisk disk e.bare }

/-- Stores that note every call to them, and else do what they did. -/
instance [FileStore E S] : FileStore (Journaled E) (PlacedStore S) where
  name s := name E s.store
  isInitialized ctx s e :=
    let r := isInitialized ctx s.store e.bare
    (r.1, ⟨s.place, r.2.1⟩, ⟨r.2.2, e.calls ++ [(s.place, .isInitialized r.1)]⟩)
  setup ctx s e :=
    let r := setup ctx s.store e.bare
    (r.1, ⟨s.place, r.2.1⟩, ⟨r.2.2, e.calls ++ [(s.place, .setup)]⟩)
  processFile ctx path s e :=
    let r := processFile ctx path s.store e.bare
    (⟨s.place, r.1⟩, ⟨r.2, e.calls ++ [(s.place, .processFile path)]⟩)
  supportsDirectories s := supportsDirectories E s.store
  processDirectory ctx path s e :=
    let r := processDirectory ctx path s.store e.bare
    (⟨s.place, r.1⟩, ⟨r.2, e.calls ++ [(s.place, .processDirectory path)]⟩)
  postProcess ctx s e :=
    let r := postProcess ctx s.store e.bare
    (r.1, ⟨s.place, r.2.1⟩, ⟨r.2.2, e.calls ++ [(s.place, .postProcess)]⟩)

namespace StoreSet

def placed (k : Nat) : List S → List (PlacedStore S)
  | [] => []
  | s :: rest => ⟨k, s⟩ :: placed (k + 1) rest

def placedMarked (k : Nat) : List (Marked S) → List (Marked (PlacedStore S))
  | [] => []
  | (s, waits) :: rest => (⟨k, s⟩, waits) :: placedMarked (k + 1) rest

def asked (k : Nat) : List Bool → List PlacedCall
  | [] => []
  | ready :: rest => (k, .isInitialized ready) :: asked (k + 1) rest

def waiting (k : Nat) : List Bool → List Nat
  | [] => []
  | true :: rest => waiting (k + 1) rest
  | false :: rest => k :: waiting (k + 1) rest

/-- The calls of a round in which each waiting store is asked what `plan` says of it. -/
def roundCalls (plan : S → List StoreCall) (k : Nat) : List (Marked S) → List PlacedCall
  | [] => []
  | (_, false) :: rest => roundCalls plan (k + 1) rest
  | (s, true) :: rest => (plan s).map (k, ·) ++ roundCalls plan (k + 1) rest

theorem map_store_placedMarked (k : Nat) (ms : List (Marked S)) :
    (placedMarked k ms).map (·.1.store) = ms.map (·.1) := by
  induction ms generalizing k with
  | nil => rfl
  | cons m ms ih => simp [placedMarked, ih]

theorem all_placedMarked (k : Nat) (ms : List (Marked S)) :
    ((placedMarked k ms).all fun m ↦ !m.2) = ms.all fun m ↦ !m.2 := by
  induction ms generalizing k with
  | nil => rfl
  | cons m ms ih => simp [placedMarked, ih]

section Marks

variable {ms : List (Marked S)} {ready : List Bool}

def MarkedBy (ms : List (Marked S)) (ready : List Bool) : Prop :=
  ms.map (·.2) = ready.map (!·)

theorem MarkedBy.eq (h : MarkedBy ms ready) : ready = ms.map (!·.2) := by
  have hback := congrArg (List.map (!·)) h
  simpa [Function.comp_def] using hback.symm

theorem MarkedBy.ext {ms' : List (Marked S)} (h : MarkedBy ms ready) (h' : MarkedBy ms' ready)
    (hstores : ms.map (·.1) = ms'.map (·.1)) : ms = ms' := by
  have hmarks : ms.map (·.2) = ms'.map (·.2) := h.trans h'.symm
  exact (zip_of_prod hstores hmarks).trans (zip_of_prod rfl rfl).symm

theorem all_of_markedBy (h : MarkedBy ms ready) (k : Nat) : (ms.all fun m ↦ !m.2) = true ↔ waiting k ready = [] := by
  rw [h.eq]
  clear h
  induction ms generalizing k with
  | nil => simp [waiting]
  | cons m ms ih =>
    obtain ⟨s, waits⟩ := m
    cases waits with
    | false => simpa [waiting] using ih (k + 1)
    | true => simp [waiting]

theorem roundCalls_eq (plan : S → List StoreCall) (h : MarkedBy ms ready) (front : List S) :
    roundCalls plan front.length ms = (waiting front.length ready).flatMap fun i ↦
      ((front ++ ms.map (·.1))[i]?.toList.flatMap plan).map (i, ·) := by
  rw [h.eq]
  clear h
  induction ms generalizing front with
  | nil => rfl
  | cons m ms ih =>
    obtain ⟨s, waits⟩ := m
    have hlater := ih (front ++ [s])
    cases waits <;> simpa [roundCalls, waiting] using hlater

theorem waiting_stores (h : MarkedBy ms ready) (front : List S) :
    (waiting front.length ready).filterMap ((front ++ ms.map (·.1))[·]?) = (ms.filter (·.2)).map (·.1) := by
  rw [h.eq]
  clear h
  induction ms generalizing front with
  | nil => rfl
  | cons m ms ih =>
    obtain ⟨s, waits⟩ := m
    have hlater := ih (front ++ [s])
    cases waits <;> simpa [waiting] using hlater

end Marks

section Passes

variable {act : S → E → S × E} {attempt : S → E → Except AnalysisError Unit × S × E} {rest : List (Marked S)}

variable {ms : List (Marked S)}

variable {ready : List Bool}

theorem markedBy_eachPending (h : MarkedBy ms ready) (e : E) : MarkedBy (eachPending act ms e).1 ready := by
  refine Eq.trans ?_ h
  clear h
  induction ms generalizing e with
  | nil => rfl
  | cons m ms ih =>
    obtain ⟨s, waits⟩ := m
    cases waits with
    | false => simpa [eachPending] using ih e
    | true => simpa [eachPending] using ih (act s e).2

theorem tryPending_error {s s' : S} {e e' : E} {err : AnalysisError} (h : attempt s e = (.error err, s', e')) :
    tryPending attempt ((s, true) :: rest) e = (.error err, (s', true) :: rest, e') := by
  rw [tryPending, h]

theorem tryPending_ok {s s' : S} {e e' : E} (h : attempt s e = (.ok (), s', e')) :
    tryPending attempt ((s, true) :: rest) e =
      ((tryPending attempt rest e').1, (s', true) :: (tryPending attempt rest e').2.1,
        (tryPending attempt rest e').2.2) := by
  rw [tryPending, h]

end Passes

variable [FileStore E S] (ctx : DiscoveryContext)

def answers : List S → E → List Bool
  | [], _ => []
  | s :: rest, e =>
    let r := isInitialized ctx s e
    r.1 :: answers rest r.2.2

def make (x : S × E) : StoreCall → S × E
  | .isInitialized _ => (isInitialized ctx x.1 x.2).2
  | .setup => (setup ctx x.1 x.2).2
  | .processFile path => processFile ctx path x.1 x.2
  | .processDirectory path => processDirectory ctx path x.1 x.2
  | .postProcess => (postProcess ctx x.1 x.2).2

def Fails (x : S × E) (err : AnalysisError) : StoreCall → Prop
  | .setup => (setup ctx x.1 x.2).1 = .error err
  | .postProcess => (postProcess ctx x.1 x.2).1 = .error err
  | _ => False

def makeAt (x : List S × E) (call : PlacedCall) : List S × E :=
  match x.1[call.1]? with
  | none => x
  | some s =>
    let r := make ctx (s, x.2) call.2
    (x.1.set call.1 r.1, r.2)

def after (calls : List PlacedCall) (x : List S × E) : List S × E :=
  calls.foldl (makeAt ctx) x

def EndsWith (err : AnalysisError) (calls : List PlacedCall) (x : List S × E) : Prop :=
  ∃ before call s, calls = before ++ [call] ∧ (after ctx before x).1[call.1]? = some s ∧
    Fails ctx (s, (after ctx before x).2) err call.2

variable (E) in
def entryCalls (event : Walk.Event) (s : S) : List StoreCall :=
  match event with
  | .file path => [.processFile path]
  | .directory path => if supportsDirectories E s then [.processDirectory path] else []

/-- The calls by which an entry is told to the stores at some places. -/
def round (places : List Nat) (event : Walk.Event) (x : List S × E) : List PlacedCall :=
  places.flatMap fun i ↦ (x.1[i]?.toList.flatMap (entryCalls E event)).map (i, ·)

/-- Takes down the calls that tell the entries to the stores at some places; the disk is what the calls make it. -/
def rounds [HasDisk E] (places : List Nat) (x : List S × E) : Walk.Visitor (List PlacedCall) where
  disk calls := disk (after ctx calls x).2
  visit event calls := calls ++ round places event (after ctx calls x)

theorem after_append (calls calls' : List PlacedCall) (x : List S × E) :
    after ctx (calls ++ calls') x = after ctx calls' (after ctx calls x) :=
  foldl_append

theorem EndsWith.append {err : AnalysisError} {calls : List PlacedCall} {x : List S × E}
    (before : List PlacedCall) (h : EndsWith ctx err calls (after ctx before x)) :
    EndsWith ctx err (before ++ calls) x := by
  obtain ⟨before', call, s, rfl, hs, hfails⟩ := h
  refine ⟨before ++ before', call, s, by simp, ?_, ?_⟩
  · rwa [after_append]
  · rwa [after_append]

theorem after_here (front rest : List S) (calls : List StoreCall) (s : S) (e : E) :
    after ctx (calls.map (front.length, ·)) (front ++ s :: rest, e) =
      (front ++ (calls.foldl (make ctx) (s, e)).1 :: rest, (calls.foldl (make ctx) (s, e)).2) := by
  induction calls generalizing s e with
  | nil => rfl
  | cons call calls ih =>
    have hcall : makeAt ctx (front ++ s :: rest, e) (front.length, call) =
        (front ++ (make ctx (s, e) call).1 :: rest, (make ctx (s, e) call).2) := by
      simp [makeAt]
    rw [map_cons, after, foldl_cons, hcall]
    exact ih _ _

section Asking

theorem length_answers (stores : List S) (e : E) : (answers ctx stores e).length = stores.length := by
  induction stores generalizing e with
  | nil => rfl
  | cons s rest ih => simp [answers, ih]

theorem markedBy_mark (stores : List S) (e : E) : MarkedBy (mark ctx stores e).1 (answers ctx stores e) := by
  induction stores generalizing e with
  | nil => rfl
  | cons s rest ih => simpa [MarkedBy, mark, answers] using ih _

theorem after_mark (front stores : List S) (e : E) :
    after ctx (asked front.length (answers ctx stores e)) (front ++ stores, e) =
      (front ++ (mark ctx stores e).1.map (·.1), (mark ctx stores e).2) := by
  induction stores generalizing front e with
  | nil => rfl
  | cons s rest ih =>
    let r := isInitialized ctx s e
    have hhere := after_here ctx front rest [.isInitialized r.1] s e
    have hlater := ih (front ++ [r.2.1]) r.2.2
    rw [answers, asked, ← singleton_append, after_append]
    refine (congrArg _ hhere).trans ?_
    simpa [mark, make, r] using hlater

theorem told_mark (k : Nat) (stores : List S) (e : E) (calls : List PlacedCall) :
    mark ctx (placed k stores) (⟨e, calls⟩ : Journaled E) =
      (placedMarked k (mark ctx stores e).1, ⟨(mark ctx stores e).2, calls ++ asked k (answers ctx stores e)⟩) := by
  induction stores generalizing k e calls with
  | nil => simp [placed, placedMarked, mark, answers, asked]
  | cons s rest ih =>
    simp only [placed, mark, placedMarked, answers, asked, isInitialized]
    rw [ih, append_assoc]
    rfl

end Asking

section Feeding

theorem make_entryCalls (event : Walk.Event) (s : S) (e : E) :
    (entryCalls E event s).foldl (make ctx) (s, e) = feed ctx event s e := by
  cases event with
  | file path => rfl
  | directory path =>
    rw [entryCalls, feed]
    split <;> rfl

theorem told_feed (event : Walk.Event) (k : Nat) (s : S) (e : E) (calls : List PlacedCall) :
    feed ctx event (⟨k, s⟩ : PlacedStore S) (⟨e, calls⟩ : Journaled E) =
      (⟨k, (feed ctx event s e).1⟩, ⟨(feed ctx event s e).2, calls ++ (entryCalls E event s).map (k, ·)⟩) := by
  cases event with
  | file path => rfl
  | directory path =>
    simp only [feed, entryCalls, supportsDirectories]
    split
    · rfl
    · simp

theorem after_eachPending (event : Walk.Event) (front : List S) (ms : List (Marked S)) (e : E) :
    after ctx (roundCalls (entryCalls E event) front.length ms) (front ++ ms.map (·.1), e) =
      (front ++ (eachPending (feed ctx event) ms e).1.map (·.1), (eachPending (feed ctx event) ms e).2) := by
  induction ms generalizing front e with
  | nil => rfl
  | cons m ms ih =>
    obtain ⟨s, waits⟩ := m
    cases waits with
    | false => simpa [roundCalls, eachPending] using ih (front ++ [s]) e
    | true =>
      have hrest := ih (front ++ [(feed ctx event s e).1]) (feed ctx event s e).2
      rw [roundCalls, after_append, map_cons, after_here, make_entryCalls]
      simpa [eachPending] using hrest

theorem told_eachPending (event : Walk.Event) (k : Nat) (ms : List (Marked S)) (e : E) (calls : List PlacedCall) :
    eachPending (feed ctx event) (placedMarked k ms) (⟨e, calls⟩ : Journaled E) =
      (placedMarked k (eachPending (feed ctx event) ms e).1,
        ⟨(eachPending (feed ctx event) ms e).2, calls ++ roundCalls (entryCalls E event) k ms⟩) := by
  induction ms generalizing k e calls with
  | nil => simp [placedMarked, eachPending, roundCalls]
  | cons m ms ih =>
    obtain ⟨s, waits⟩ := m
    cases waits with
    | false => simp [placedMarked, eachPending, roundCalls, ih]
    | true => simp [placedMarked, eachPending, roundCalls, told_feed, ih, append_assoc]

theorem round_eq {ms : List (Marked S)} (h : MarkedBy ms ready) (event : Walk.Event) (e : E) :
    round (waiting 0 ready) event (ms.map (·.1), e) = roundCalls (entryCalls E event) 0 ms :=
  (roundCalls_eq (entryCalls E event) h []).symm

section Walking

variable [HasDisk E] {ms : List (Marked S)} {x : List S × E}

theorem after_visit {e : E} {calls : List PlacedCall} (h : MarkedBy ms ready)
    (hafter : after ctx calls x = (ms.map (·.1), e)) (event : Walk.Event) :
    after ctx ((rounds ctx (waiting 0 ready) x).visit event calls) x =
      ((eachPending (feed ctx event) ms e).1.map (·.1), (eachPending (feed ctx event) ms e).2) := by
  have hround := after_eachPending ctx event [] ms e
  rw [rounds, after_append, hafter, round_eq h]
  exact hround

theorem visitor_alike (x : List S × E) (ready : List Bool) (root : Path) :
    (visitor (S := S) (E := E) ctx).Alike (rounds ctx (waiting 0 ready) x) root fun y calls ↦
      MarkedBy y.1 ready ∧ after ctx calls x = (y.1.map (·.1), y.2) := by
  constructor
  · rintro ⟨ms, e⟩ calls ⟨-, hafter⟩ names
    simp only [visitor, rounds, hafter]
  · rintro event ⟨ms, e⟩ calls ⟨hmarked, hafter⟩
    exact ⟨markedBy_eachPending hmarked e, after_visit ctx hmarked hafter event⟩

theorem told_alike (x : List S × E) (ready : List Bool) (root : Path) (before : List PlacedCall) :
    (visitor (S := PlacedStore S) (E := Journaled E) ctx).Alike (rounds ctx (waiting 0 ready) x) root fun y calls ↦
      ∃ ms e, MarkedBy ms ready ∧ after ctx calls x = (ms.map (·.1), e) ∧
        y = (placedMarked 0 ms, ⟨e, before ++ calls⟩) := by
  constructor
  · rintro _ calls ⟨ms, e, -, hafter, rfl⟩ names
    simp only [visitor, rounds, hafter]
    rfl
  · rintro event _ calls ⟨ms, e, hmarked, hafter, rfl⟩
    refine ⟨_, _, markedBy_eachPending hmarked e, after_visit ctx hmarked hafter event, ?_⟩
    simp only [visitor, rounds, hafter, told_eachPending, round_eq hmarked, append_assoc]

theorem walk_calls (h : MarkedBy ms ready) (e : E) (root : Path) (patterns : List String) :
    let walked := (visitor ctx).walk root patterns (ms, e)
    let made := (rounds ctx (waiting 0 ready) (ms.map (·.1), e)).walk root patterns []
    walked.1 = made.1 ∧
    (∀ calls, (visitor ctx).walk root patterns (placedMarked 0 ms, (⟨e, calls⟩ : Journaled E)) =
      (walked.1, placedMarked 0 walked.2.1, ⟨walked.2.2, calls ++ made.2⟩)) ∧
    after ctx made.2 (ms.map (·.1), e) = (walked.2.1.map (·.1), walked.2.2) ∧ MarkedBy walked.2.1 ready := by
  obtain ⟨hsummary, hmarked, hafter⟩ := (visitor_alike ctx (ms.map (·.1), e) ready root).walk patterns
    (x := (ms, e)) (y := []) ⟨h, rfl⟩
  refine ⟨hsummary, fun calls ↦ ?_, hafter, hmarked⟩
  obtain ⟨hsummary', ms', e', hmarked', hafter', htold⟩ := (told_alike ctx (ms.map (·.1), e) ready root calls).walk
    patterns (x := (placedMarked 0 ms, ⟨e, calls⟩)) (y := []) ⟨ms, e, h, rfl, by rw [append_nil]⟩
  obtain ⟨hstores, rfl⟩ := Prod.mk.inj (hafter'.symm.trans hafter)
  obtain rfl := hmarked'.ext hmarked hstores
  exact Prod.ext (hsummary'.trans hsummary.symm) htold

end Walking

end Feeding

section Trying

variable {ctx} {act : S → E → Except AnalysisError Unit × S × E}
  {told : PlacedStore S → Journaled E → Except AnalysisError Unit × PlacedStore S × Journaled E}
  {call : StoreCall}

/-- A round of one call to the stores at some places, which ends early if the call fails. -/
structure CallRound (ctx : DiscoveryContext) (call : StoreCall) (places : List Nat) (r : Except AnalysisError Unit)
    (x x' : List S × E) (made : List PlacedCall) : Prop where
  leads : after ctx made x = x'
  within : ∀ c ∈ made, c.1 ∈ places ∧ c.2 = call
  full : r = .ok () → made = places.map (·, call)
  stops : ∀ err, r = .error err → EndsWith ctx err made x

/-- What stores that note their calls do when one kind of call is made to them. -/
structure Notes (ctx : DiscoveryContext) (call : StoreCall) (act : S → E → Except AnalysisError Unit × S × E)
    (told : PlacedStore S → Journaled E → Except AnalysisError Unit × PlacedStore S × Journaled E) : Prop where
  makes : ∀ s e, make ctx (s, e) call = (act s e).2
  fails : ∀ s e err, (act s e).1 = .error err → Fails ctx (s, e) err call
  told : ∀ k s e calls, told ⟨k, s⟩ ⟨e, calls⟩ =
    ((act s e).1, ⟨k, (act s e).2.1⟩, ⟨(act s e).2.2, calls ++ [(k, call)]⟩)

theorem Notes.setup : Notes ctx .setup (setup ctx : S → E → _) (setup ctx) :=
  ⟨fun _ _ ↦ rfl, fun _ _ _ h ↦ h, fun _ _ _ _ ↦ rfl⟩

theorem Notes.postProcess : Notes ctx .postProcess (postProcess ctx : S → E → _) (postProcess ctx) :=
  ⟨fun _ _ ↦ rfl, fun _ _ _ h ↦ h, fun _ _ _ _ ↦ rfl⟩

theorem tryPending_calls (hnotes : Notes ctx call act told)
    {ms : List (Marked S)} {ready : List Bool} (h : MarkedBy ms ready) (front : List S) (e : E) :
    let tried := tryPending act ms e
    ∃ made, (∀ calls, tryPending told (placedMarked front.length ms) ⟨e, calls⟩ =
        (tried.1, placedMarked front.length tried.2.1, ⟨tried.2.2, calls ++ made⟩)) ∧
      MarkedBy tried.2.1 ready ∧
      CallRound ctx call (waiting front.length ready) tried.1 (front ++ ms.map (·.1), e)
        (front ++ tried.2.1.map (·.1), tried.2.2) made := by
  rw [h.eq]
  clear h
  induction ms generalizing front e with
  | nil =>
    exact ⟨[], fun calls ↦ by simp [placedMarked, tryPending], rfl, ⟨rfl, by simp, fun _ ↦ rfl, nofun⟩⟩
  | cons m ms ih =>
    obtain ⟨s, waits⟩ := m
    cases waits with
    | false =>
      obtain ⟨made, hmade, hmarked, hround⟩ := ih (front ++ [s]) e
      simp only [length_append, length_singleton, append_assoc, singleton_append] at *
      refine ⟨made, fun calls ↦ ?_, ?_, hround⟩
      · simp [placedMarked, tryPending, hmade]
      · simpa [MarkedBy, tryPending] using hmarked
    | true =>
      have hmake := hnotes.makes s e
      have hhere := after_here ctx front (ms.map (·.1)) [call] s e
      have hnote (calls : List PlacedCall) := hnotes.told front.length s e calls
      rcases hr : act s e with ⟨_ | _, s', e'⟩
      · rename_i err
        rw [tryPending_error hr]
        rw [hr] at hmake hnote
        refine ⟨[(front.length, call)], fun calls ↦ tryPending_error (hnote calls), ?_, ?_, ?_, nofun, ?_⟩
        · simp [MarkedBy]
        · simpa [hmake] using hhere
        · simp [waiting]
        · rintro _ ⟨⟩
          exact ⟨[], _, s, rfl, by simp [after], hnotes.fails s e err (by rw [hr])⟩
      · obtain ⟨made, hmade, hmarked, hround⟩ := ih (front ++ [s']) e'
        simp only [length_append, length_singleton, append_assoc, singleton_append] at *
        rw [tryPending_ok hr]
        rw [hr] at hmake hnote
        have hstep : after ctx [(front.length, call)] (front ++ s :: ms.map (·.1), e) =
            (front ++ s' :: ms.map (·.1), e') := by
          simpa [hmake] using hhere
        refine ⟨(front.length, call) :: made, fun calls ↦ ?_, ?_, ?_, ?_, fun hok ↦ ?_, fun err herr ↦ ?_⟩
        · refine (tryPending_ok (hnote calls)).trans ?_
          simp [placedMarked, hmade]
        · simpa [MarkedBy] using hmarked
        · exact (congrArg _ hstep).trans hround.leads
        · intro c hc
          rcases mem_cons.mp hc with rfl | hc
          · exact ⟨mem_cons_self, rfl⟩
          · exact ⟨.tail _ (hround.within c hc).1, (hround.within c hc).2⟩
        · rw [hround.full hok]
          rfl
        · refine EndsWith.append ctx [(front.length, call)] ?_
          rw [map_cons, hstep]
          exact hround.stops err herr

theorem CallRound.spares {places : List Nat} {r : Except AnalysisError Unit} {x x' : List S × E}
    {made : List PlacedCall} (h : CallRound ctx call places r x x' made) (hcall : ∀ ready, call ≠ .isInitialized ready)
    {c : PlacedCall} (hc : c ∈ made) : c.1 ∈ places ∧ ∀ ready, c.2 ≠ .isInitialized ready := by
  obtain ⟨hplace, heq⟩ := h.within c hc
  exact ⟨hplace, by rwa [heq]⟩

variable {ms ms' : List (Marked S)} {ready : List Bool} {r : Except AnalysisError Unit} {e e' : E}

theorem Notes.calls (hnotes : Notes ctx call act told) (h : MarkedBy ms ready)
    (hr : tryPending act ms e = (r, ms', e')) :
    ∃ made, (∀ calls, tryPending told (placedMarked 0 ms) ⟨e, calls⟩ = (r, placedMarked 0 ms', ⟨e', calls ++ made⟩)) ∧
      MarkedBy ms' ready ∧
      CallRound ctx call (waiting 0 ready) r (ms.map (·.1), e) (ms'.map (·.1), e') made := by
  have hcalls := tryPending_calls hnotes h [] e
  simp only [hr] at hcalls
  exact hcalls

end Trying

section Discovering

variable {ctx} [HasDisk E] {set : StoreSet S} {e e₁ e₂ e₃ e₄ : E} {ms ms₂ ms₃ ms₄ : List (Marked S)}
  {err : AnalysisError} {summary : Walk.Summary}

theorem discover_ready (hmark : mark ctx set.stores e = (ms, e₁)) (hall : (ms.all fun m ↦ !m.2) = true) :
    discover ctx set e = (.ok {}, set.withStores ms, e₁) := by
  rw [discover, hmark]
  exact if_pos hall

section

variable (hmark : mark ctx set.stores e = (ms, e₁)) (hall : (ms.all fun m ↦ !m.2) = false)

include hmark hall

theorem discover_baseless (hdir : (disk e₁).isDir ctx.baseDir = false) :
    discover ctx set e = (.error (missingBase ctx), set.withStores ms, e₁) := by
  simp [discover, hmark, hall, hdir]

theorem discover_unset (hdir : (disk e₁).isDir ctx.baseDir = true)
    (hsetup : tryPending (setup ctx) ms e₁ = (.error err, ms₂, e₂)) :
    discover ctx set e = (.error err, set.withStores ms₂, e₂) := by
  simp [discover, hmark, hall, hdir, hsetup]

theorem discover_walked {r : Except AnalysisError Unit} (hdir : (disk e₁).isDir ctx.baseDir = true)
    (hsetup : tryPending (setup ctx) ms e₁ = (.ok (), ms₂, e₂))
    (hwalked : (visitor ctx).walk ctx.baseDir ctx.config.exclusionPatterns (ms₂, e₂) = (summary, ms₃, e₃))
    (hpost : tryPending (postProcess ctx) ms₃ e₃ = (r, ms₄, e₄)) :
    discover ctx set e =
      (r.map fun _ ↦ { refreshed := (ms₄.filter (·.2)).map fun s ↦ name E s.1
                       walk := some summary },
        { set with walks := set.walks + 1 }.withStores ms₄, e₄) := by
  cases r <;> simp [discover, hmark, hall, hdir, hsetup, hwalked, hpost, Except.map]

end

end Discovering

theorem names_placedMarked (k : Nat) (ms : List (Marked S)) :
    ((placedMarked k ms).filter (·.2)).map (fun m ↦ name (Journaled E) m.1) =
      (ms.filter (·.2)).map fun m ↦ name E m.1 := by
  induction ms generalizing k with
  | nil => rfl
  | cons m ms ih =>
    obtain ⟨s, waits⟩ := m
    cases waits with
    | false => simpa [placedMarked] using ih (k + 1)
    | true =>
      simp only [placedMarked, filter_cons_of_pos, map_cons, ih]
      rfl

/-- A call that tells a store an entry. -/
def StoreCall.IsTelling : StoreCall → Prop
  | .processFile _ | .processDirectory _ => True
  | _ => False

theorem mem_round {places : List Nat} {event : Walk.Event} {x : List S × E} {c : PlacedCall}
    (h : c ∈ round places event x) : c.1 ∈ places ∧ StoreCall.IsTelling c.2 := by
  obtain ⟨i, hi, h⟩ := mem_flatMap.mp h
  obtain ⟨call, hcall, rfl⟩ := mem_map.mp h
  obtain ⟨s, -, hcall⟩ := mem_flatMap.mp hcall
  refine ⟨hi, ?_⟩
  cases event with
  | file path =>
    rw [mem_singleton.mp hcall]
    trivial
  | directory path =>
    rw [entryCalls] at hcall
    split at hcall
    · rw [mem_singleton.mp hcall]
      trivial
    · cases hcall

section Told

variable {ctx} [HasDisk E] {places : List Nat} {x : List S × E}

theorem mem_rounds {root : Path} {patterns : List String} {c : PlacedCall}
    (h : c ∈ ((rounds ctx places x).walk root patterns []).2) : c.1 ∈ places ∧ StoreCall.IsTelling c.2 := by
  refine Walk.Visitor.walk_keeps (v := rounds ctx places x)
    (P := fun calls ↦ ∀ c ∈ calls, c.1 ∈ places ∧ StoreCall.IsTelling c.2)
    (fun event calls hcalls c hc ↦ ?_) root patterns (by simp) c h
  exact (mem_append.mp hc).elim (hcalls c) mem_round

variable (ctx E S) in
/-- Nothing below the base directory is changed by a store that is told an entry. -/
def Unseen : Prop :=
  ∀ path (s : S) (e : E) names, (disk (processFile ctx path s e).2).node (Walk.pathBelow ctx.baseDir names) =
      (disk e).node (Walk.pathBelow ctx.baseDir names) ∧
    (disk (processDirectory ctx path s e).2).node (Walk.pathBelow ctx.baseDir names) =
      (disk e).node (Walk.pathBelow ctx.baseDir names)

theorem Unseen.after (h : Unseen E S ctx) {calls : List PlacedCall} (hcalls : ∀ c ∈ calls, StoreCall.IsTelling c.2)
    (x : List S × E) (names : Location) :
    (disk (after ctx calls x).2).node (Walk.pathBelow ctx.baseDir names) =
      (disk x.2).node (Walk.pathBelow ctx.baseDir names) := by
  refine foldlRecOn (motive := fun y : List S × E ↦ (disk y.2).node (Walk.pathBelow ctx.baseDir names) = _)
    calls _ rfl fun y hy c hc ↦ Eq.trans ?_ hy
  have htelling := hcalls c hc
  obtain ⟨i, call⟩ := c
  rw [makeAt]
  cases y.1[i]? with
  | none => rfl
  | some s =>
    cases call with
    | processFile path => exact (h path s y.2 names).1
    | processDirectory path => exact (h path s y.2 names).2
    | _ => exact htelling.elim

end Told

section Journal

variable (set : StoreSet S) (e : E)

def pending : List Nat :=
  waiting 0 (answers ctx set.stores e)

def opening : List S × E :=
  after ctx (asked 0 (answers ctx set.stores e)) (set.stores, e)

def setups : List PlacedCall :=
  (pending ctx set e).map (·, .setup)

def started : List S × E :=
  after ctx (setups ctx set e) (opening ctx set e)

structure Opened (ctx : DiscoveryContext) (set : StoreSet S) (e : E) (ms : List (Marked S)) (e₁ : E) : Prop where
  mark : mark ctx set.stores e = (ms, e₁)
  told : StoreSet.mark ctx (placed 0 set.stores) (⟨e, []⟩ : Journaled E) =
    (placedMarked 0 ms, ⟨e₁, asked 0 (answers ctx set.stores e)⟩)
  marked : MarkedBy ms (answers ctx set.stores e)
  leads : opening ctx set e = (ms.map (·.1), e₁)

theorem exists_opened (ctx : DiscoveryContext) (set : StoreSet S) (e : E) : ∃ ms e₁, Opened ctx set e ms e₁ :=
  ⟨_, _, rfl, by simpa using told_mark ctx 0 set.stores e [], markedBy_mark ctx set.stores e,
    by simpa [opening] using after_mark ctx [] set.stores e⟩

theorem Opened.pending_eq_nil {ctx : DiscoveryContext} {set : StoreSet S} {e e₁ : E}
    (h : Opened ctx set e ms e₁) : pending ctx set e = [] ↔ (ms.all fun m ↦ !m.2) = true :=
  (all_of_markedBy h.marked 0).symm

variable [HasDisk E]

/-- The summary of the walk that tells the entries to the stores that wait, and the calls that it makes. -/
def surveyed : Walk.Summary × List PlacedCall :=
  (rounds ctx (pending ctx set e) (started ctx set e)).walk ctx.baseDir ctx.config.exclusionPatterns []

def feeding : List PlacedCall :=
  (surveyed ctx set e).2

/-- A discovery by stores that know their places, and the calls that they note. -/
def journal : (Except AnalysisError DiscoveryOutcome × StoreSet S × E) × List PlacedCall :=
  let r := discover ctx (⟨placed 0 set.stores, set.walks⟩ : StoreSet (PlacedStore S)) (⟨e, []⟩ : Journaled E)
  ((r.1, ⟨r.2.1.stores.map (·.store), r.2.1.walks⟩, r.2.2.bare), r.2.2.calls)

/-- The calls of a discovery after every store has been asked whether it is ready. -/
structure Course (later : List PlacedCall) : Prop where
  noted : journal ctx set e = (discover ctx set e, asked 0 (answers ctx set.stores e) ++ later)
  leads : after ctx later (opening ctx set e) = ((discover ctx set e).2.1.stores, (discover ctx set e).2.2)
  /-- A store that is ready gets none of them, and no store is asked again. -/
  spares : ∀ c ∈ later, c.1 ∈ pending ctx set e ∧ ∀ ready, c.2 ≠ .isInitialized ready
  idle : pending ctx set e = [] → later = [] ∧ (discover ctx set e).1 = .ok {} ∧
    (discover ctx set e).2.1.walks = set.walks
  /-- Only a missing base directory and a store's own error make a discovery fail, and both end it. -/
  fails : ∀ err, (discover ctx set e).1 = .error err →
    later = [] ∧ (disk (opening ctx set e).2).isDir ctx.baseDir = false ∧ err = missingBase ctx ∨
      EndsWith ctx err later (opening ctx set e)
  succeeds : ∀ outcome, (discover ctx set e).1 = .ok outcome → pending ctx set e ≠ [] →
    later = setups ctx set e ++ feeding ctx set e ++ (pending ctx set e).map (·, .postProcess) ∧
    (discover ctx set e).2.1.walks = set.walks + 1 ∧
    outcome.refreshed =
      ((pending ctx set e).filterMap ((discover ctx set e).2.1.stores[·]?)).map (name E) ∧
    outcome.walk = some (surveyed ctx set e).1

variable {ctx set e}

theorem journal_eq {r : Except AnalysisError DiscoveryOutcome} {e' : E} {walks : Nat} {calls : List PlacedCall}
    (hplain : discover ctx set e = (r, (⟨set.stores, walks⟩ : StoreSet S).withStores ms, e'))
    (htold : discover ctx (⟨placed 0 set.stores, set.walks⟩ : StoreSet (PlacedStore S)) (⟨e, []⟩ : Journaled E) =
      (r, (⟨placed 0 set.stores, walks⟩ : StoreSet (PlacedStore S)).withStores (placedMarked 0 ms), ⟨e', calls⟩)) :
    journal ctx set e = (discover ctx set e, calls) := by
  rw [journal, htold, hplain]
  simp [withStores, map_store_placedMarked, Function.comp_def]

section Courses

variable {ms ms₂ ms₃ ms₄ : List (Marked S)} {e₁ e₂ e₃ e₄ : E} {err : AnalysisError}

theorem Opened.ready (h : Opened ctx set e ms e₁) (hall : (ms.all fun m ↦ !m.2) = true) : Course ctx set e [] := by
  have hrun := discover_ready h.mark hall
  have hnil := h.pending_eq_nil.mpr hall
  refine ⟨?_, ?_, by simp, fun _ ↦ ⟨rfl, by rw [hrun], by rw [hrun]; rfl⟩, ?_, ?_⟩
  · rw [append_nil]
    exact journal_eq hrun (discover_ready h.told (by rwa [all_placedMarked]))
  · rw [hrun, h.leads]
    rfl
  · intro err herr
    simp [hrun] at herr
  · intro outcome _ hne
    exact absurd hnil hne

section

variable (h : Opened ctx set e ms e₁) (hall : (ms.all fun m ↦ !m.2) = false)

include h hall

theorem Opened.baseless (hdir : (disk e₁).isDir ctx.baseDir = false) : Course ctx set e [] := by
  have hrun := discover_baseless h.mark hall hdir
  refine ⟨?_, ?_, by simp, fun hnil ↦ ?_, ?_, ?_⟩
  · rw [append_nil]
    exact journal_eq hrun (discover_baseless h.told (by rwa [all_placedMarked]) hdir)
  · rw [hrun, h.leads]
    rfl
  · simp [h.pending_eq_nil.mp hnil] at hall
  · intro err herr
    rw [hrun] at herr
    cases herr
    exact .inl ⟨rfl, by rwa [h.leads], rfl⟩
  · intro outcome hok
    simp [hrun] at hok

theorem Opened.unset (hdir : (disk e₁).isDir ctx.baseDir = true)
    (hsetup : tryPending (setup ctx) ms e₁ = (.error err, ms₂, e₂)) :
    ∃ later, Course ctx set e later := by
  obtain ⟨made, htold, -, hround⟩ := Notes.setup.calls h.marked hsetup
  have hrun := discover_unset h.mark hall hdir hsetup
  refine ⟨made, ?_, ?_, fun c hc ↦ hround.spares nofun hc, fun hnil ↦ ?_, ?_, ?_⟩
  · exact journal_eq hrun (discover_unset h.told (by rwa [all_placedMarked]) hdir (htold _))
  · rw [hrun, h.leads]
    exact hround.leads
  · simp [h.pending_eq_nil.mp hnil] at hall
  · intro err' herr
    rw [hrun] at herr
    cases herr
    rw [h.leads]
    exact .inr (hround.stops _ rfl)
  · intro outcome hok
    simp [hrun] at hok

end

structure Fed (ctx : DiscoveryContext) (set : StoreSet S) (e : E) (ms ms₂ ms₃ : List (Marked S))
    (e₁ e₂ e₃ : E) : Prop where
  setup : ∀ calls, tryPending (setup ctx) (placedMarked 0 ms) (⟨e₁, calls⟩ : Journaled E) =
    (.ok (), placedMarked 0 ms₂, ⟨e₂, calls ++ setups ctx set e⟩)
  walk : (visitor ctx).walk ctx.baseDir ctx.config.exclusionPatterns (ms₂, e₂) = ((surveyed ctx set e).1, ms₃, e₃)
  told : ∀ calls, (visitor ctx).walk ctx.baseDir ctx.config.exclusionPatterns
      (placedMarked 0 ms₂, (⟨e₂, calls⟩ : Journaled E)) =
    ((surveyed ctx set e).1, placedMarked 0 ms₃, ⟨e₃, calls ++ feeding ctx set e⟩)
  marked : MarkedBy ms₃ (answers ctx set.stores e)
  leads : after ctx (setups ctx set e ++ feeding ctx set e) (opening ctx set e) = (ms₃.map (·.1), e₃)
  spares : ∀ c ∈ setups ctx set e ++ feeding ctx set e, c.1 ∈ pending ctx set e ∧ ∀ ready, c.2 ≠ .isInitialized ready

theorem Opened.fed (h : Opened ctx set e ms e₁) (hsetup : tryPending (setup ctx) ms e₁ = (.ok (), ms₂, e₂)) :
    ∃ ms₃ e₃, Fed ctx set e ms ms₂ ms₃ e₁ e₂ e₃ := by
  obtain ⟨made, htold, hmarked, hround⟩ := Notes.setup.calls h.marked hsetup
  obtain rfl : made = setups ctx set e := hround.full rfl
  have hstarted : started ctx set e = (ms₂.map (·.1), e₂) := by
    rw [started, h.leads]
    exact hround.leads
  obtain ⟨hsummary, htoldFed, hafterFed, hmarkedFed⟩ := walk_calls ctx hmarked e₂ ctx.baseDir
    ctx.config.exclusionPatterns
  rw [← hstarted] at hsummary htoldFed hafterFed
  refine ⟨_, _, htold, Prod.ext hsummary rfl, fun calls ↦ (htoldFed calls).trans ?_, hmarkedFed, ?_, fun c hc ↦ ?_⟩
  · rw [hsummary]
    rfl
  · rwa [after_append]
  · rcases mem_append.mp hc with hc | hc
    · exact hround.spares nofun hc
    · obtain ⟨hplace, htelling⟩ := mem_rounds hc
      refine ⟨hplace, fun ready he ↦ ?_⟩
      rw [he] at htelling
      exact htelling

theorem Opened.finished (h : Opened ctx set e ms e₁) (hall : (ms.all fun m ↦ !m.2) = false)
    (hdir : (disk e₁).isDir ctx.baseDir = true)
    (hsetup : tryPending (setup ctx) ms e₁ = (.ok (), ms₂, e₂)) :
    ∃ later, Course ctx set e later := by
  obtain ⟨ms₃, e₃, hfed⟩ := h.fed hsetup
  rcases hpost : tryPending (postProcess ctx) ms₃ e₃ with ⟨r, ms₄, e₄⟩
  obtain ⟨posts, htold, hmarked, hround⟩ := Notes.postProcess.calls hfed.marked hpost
  have hall' := (all_placedMarked 0 ms).trans hall
  have hdir' : (disk (⟨e₁, asked 0 (answers ctx set.stores e)⟩ : Journaled E)).isDir ctx.baseDir = true :=
    hdir
  have hleads : after ctx (setups ctx set e ++ feeding ctx set e ++ posts) (opening ctx set e) =
      (ms₄.map (·.1), e₄) := by
    rw [after_append, hfed.leads]
    exact hround.leads
  have hspares : ∀ c ∈ setups ctx set e ++ feeding ctx set e ++ posts,
      c.1 ∈ pending ctx set e ∧ ∀ ready, c.2 ≠ .isInitialized ready := by
    intro c hc
    rcases mem_append.mp hc with hc | hc
    · exact hfed.spares c hc
    · exact hround.spares nofun hc
  have hrun := discover_walked h.mark hall hdir hsetup hfed.walk hpost
  have hstores : (pending ctx set e).filterMap ((ms₄.map (·.1))[·]?) = (ms₄.filter (·.2)).map (·.1) :=
    waiting_stores hmarked []
  refine ⟨setups ctx set e ++ feeding ctx set e ++ posts, journal_eq hrun ?_, by rw [hrun]; exact hleads, hspares,
    fun hnil ↦ ?_, fun err herr ↦ .inr ?_, fun outcome hok _ ↦ ?_⟩
  · refine (discover_walked h.told hall' hdir' (hfed.setup _) (hfed.told _) (htold _)).trans ?_
    simp only [append_assoc, names_placedMarked]
  · simp [h.pending_eq_nil.mp hnil] at hall
  · rw [hrun] at herr
    cases r with
    | ok => cases herr
    | error =>
      cases herr
      refine EndsWith.append ctx (setups ctx set e ++ feeding ctx set e) ?_
      rw [hfed.leads]
      exact hround.stops _ rfl
  · rw [hrun] at hok
    cases r with
    | error => cases hok
    | ok =>
      cases hok
      refine ⟨by rw [hround.full rfl]; rfl, by rw [hrun]; rfl, ?_, rfl⟩
      simp only [hrun, withStores, hstores, map_map]
      rfl

end Courses

variable (ctx set e)

theorem exists_course : ∃ later, Course ctx set e later := by
  obtain ⟨ms, e₁, h⟩ := exists_opened ctx set e
  cases hall : ms.all fun m ↦ !m.2 with
  | true => exact ⟨[], h.ready hall⟩
  | false =>
    cases hdir : (disk e₁).isDir ctx.baseDir with
    | false => exact ⟨[], h.baseless hall hdir⟩
    | true =>
      rcases hsetup : tryPending (setup ctx) ms e₁ with ⟨_ | _, ms₂, e₂⟩
      · exact h.unset hall hdir hsetup
      · exact h.finished hall hdir hsetup

variable {ctx set e} in
theorem tour_feeding {es : List (String × Node)} (hroot : ctx.baseDir.same Walk.standardInput = false)
    (hes : (disk (started ctx set e).2).node ctx.baseDir = .ok (.dir es)) :
    ∃ visits, Walk.Tour (rounds ctx (pending ctx set e) (started ctx set e))
        (Walk.Exclusions.ofPatterns ctx.config.exclusionPatterns).skip ctx.baseDir [] es [] visits (feeding ctx set e) ∧
      (surveyed ctx set e).1 = visits.foldl Walk.Summary.count {} ∧
      (Unseen E S ctx → Node.TidyEntries es → Walk.Lists ctx.config.exclusionPatterns ctx.baseDir es
        (visits.filterMap (Walk.Visit.event? ctx.baseDir))) := by
  obtain ⟨visits, made, htour, hrun⟩ := Walk.Visitor.walk_tour
    (v := rounds ctx (pending ctx set e) (started ctx set e)) (x := []) ctx.config.exclusionPatterns hroot hes
  obtain rfl : feeding ctx set e = made := congrArg Prod.snd hrun
  refine ⟨visits, htour, congrArg Prod.fst hrun, fun hunseen htidy ↦ ?_⟩
  have hvisits := htour.eq_inside_top (fun calls ↦ ∀ c ∈ calls, StoreCall.IsTelling c.2) hes htidy
    (fun calls hcalls names ↦ hunseen.after hcalls _ names)
    (fun event calls hcalls c hc ↦ (mem_append.mp hc).elim (hcalls c) fun h ↦ (mem_round h).2) (by simp)
  rw [hvisits]
  exact Walk.lists_inside _ _ htidy

/-- Each store is asked once whether it is ready, and what follows is one course of calls to those that are
not. They are told the entries of the base directory, unless that is a lone dash: each directory is read when the walk
comes to it, and where nothing changes meanwhile they are told what is there, in the order of names. -/
theorem discover_keeps_course : (answers ctx set.stores e).length = set.stores.length ∧
    (∃ later, Course ctx set e later) ∧
    (ctx.baseDir.same Walk.standardInput = true ∨
      (∀ es, (disk (started ctx set e).2).node ctx.baseDir ≠ .ok (.dir es)) → feeding ctx set e = []) ∧
    ∀ es, ctx.baseDir.same Walk.standardInput = false →
      (disk (started ctx set e).2).node ctx.baseDir = .ok (.dir es) →
      ∃ visits, Walk.Tour (rounds ctx (pending ctx set e) (started ctx set e))
          (Walk.Exclusions.ofPatterns ctx.config.exclusionPatterns).skip ctx.baseDir [] es [] visits
          (feeding ctx set e) ∧
        (surveyed ctx set e).1 = visits.foldl Walk.Summary.count {} ∧
        (Unseen E S ctx → Node.TidyEntries es → Walk.Lists ctx.config.exclusionPatterns ctx.baseDir es
          (visits.filterMap (Walk.Visit.event? ctx.baseDir))) := by
  exact ⟨length_answers ctx set.stores e, exists_course ctx set e,
    fun hidle ↦ Walk.Visitor.walk_idle _ hidle, fun es hroot hes ↦ tour_feeding hroot hes⟩

end Journal

section Tallies

/-- A store that counts the files and directories that it is told. -/
structure Tally where
  files : Nat := 0
  directories : Nat := 0

instance : FileStore Disk Tally where
  name _ := "tally"
  isInitialized _ s e := (false, s, e)
  setup _ _ e := (.ok (), {}, e)
  processFile _ _ s e := ({ s with files := s.files + 1 }, e)
  supportsDirectories _ := true
  processDirectory _ _ s e := ({ s with directories := s.directories + 1 }, e)
  postProcess _ s e := (.ok (), s, e)

def folder : List (String × Node) :=
  [("a.js", .file .empty), ("lib", .dir [("b.js", .file .empty)])]

def folders : Disk :=
  { root := .dir [("-", .dir folder), ("p", .dir folder)] }

def tallying (base : Path) : DiscoveryContext :=
  { baseDir := base, config := {} }

def tallies : StoreSet Tally :=
  { stores := [{}] }

theorem discover_keeps_course_folder :
    (journal (tallying ⟨"/p"⟩) tallies folders).2 = [(0, .isInitialized false), (0, .setup),
      (0, .processFile ⟨"/p/a.js"⟩), (0, .processDirectory ⟨"/p/lib"⟩), (0, .processFile ⟨"/p/lib/b.js"⟩),
      (0, .postProcess)] ∧
    ∃ visits : List Walk.Visit, (surveyed (tallying ⟨"/p"⟩) tallies folders).1 = visits.foldl Walk.Summary.count {} ∧
      Walk.Lists (tallying ⟨"/p"⟩).config.exclusionPatterns ⟨"/p"⟩ folder
        (visits.filterMap (Walk.Visit.event? ⟨"/p"⟩)) := by
  have hes : folders.node ⟨"/p"⟩ = .ok (.dir folder) := by with_unfolding_all rfl
  have htidy : Node.TidyEntries folder := by
    simp only [folder, Node.Tidy, Node.TidyEntries]
    decide
  obtain ⟨-, -, -, htour⟩ := discover_keeps_course (tallying ⟨"/p"⟩) tallies folders
  obtain ⟨visits, -, hsummary, hlists⟩ := htour folder (by decide +kernel) hes
  exact ⟨by decide +kernel, visits, hsummary, hlists (fun _ _ _ _ ↦ ⟨rfl, rfl⟩) htidy⟩

/-- A directory that a lone dash names is not walked. -/
theorem dash_untold : folders.node ⟨"-"⟩ = .ok (.dir folder) ∧
    (journal (tallying ⟨"-"⟩) tallies folders).1.1 = .ok { refreshed := ["tally"], walk := some {} } ∧
    (journal (tallying ⟨"-"⟩) tallies folders).2 = [(0, .isInitialized false), (0, .setup), (0, .postProcess)] :=
  ⟨by with_unfolding_all rfl, by with_unfolding_all rfl, by decide +kernel⟩

end Tallies

end StoreSet

end AnalysisServer
