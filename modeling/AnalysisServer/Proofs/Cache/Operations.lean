import AnalysisServer.Proofs.Cache.Lookup

namespace AnalysisServer.Cache

variable {K V ε : Type} {c c' : Cache K V} {k : K}

variable [DecidableEq K]

inductive Operation (K V ε : Type) where
  | get (key : K)
  | getFresh (key : K) (fingerprint : Option String)
  | set (key : K) (fingerprint : Option String) (value : V)
  | build (key : K) (fingerprint : Option String) (builder : Unit → Except ε V)
  | find (wanted : K → V → Bool)
  | invalidate (key : K)
  | clear

namespace Operation

def run (c : Cache K V) : Operation K V ε → Cache K V
  | get k => (c.get k).2
  | getFresh k fp => (c.getFresh k fp).2
  | set k fp v => c.set k fp v
  | build k fp builder => (c.getOrBuild k fp builder).2
  | find wanted => (c.find wanted).2
  | invalidate k => (c.invalidate k).2
  | clear => c.clear

/-- Whether a lookup is counted; one whose builder fails is not. -/
def looksUp (c : Cache K V) : Operation K V ε → Bool
  | get _ | getFresh _ _ | find _ => true
  | build k fp builder => (c.getOrBuild k fp builder).1.outcome.isOk
  | set _ _ _ | invalidate _ | clear => false

def builds (c : Cache K V) : Operation K V ε → Bool
  | build k fp builder => (c.getOrBuild k fp builder).1.ran
  | _ => false

/-- What an operation does to a map of entries. -/
def onMap (m : K → Option (CacheEntry V)) : Operation K V ε → K → Option (CacheEntry V)
  | get _ | getFresh _ _ | find _ => m
  | set k fp v => Function.update m k (some ⟨v, fp⟩)
  | build k fp builder =>
    if (m k).any (·.isFresh fp) then m else Function.update m k ((builder ()).toOption.map (⟨·, fp⟩))
  | invalidate k => Function.update m k none
  | clear => fun _ ↦ none

def history (c : Cache K V) : List (Operation K V ε) → List (Cache K V × Operation K V ε)
  | [] => []
  | op :: ops => (c, op) :: history (op.run c) ops

/-- A settled cache stands for a map of entries, after so many lookups and builders. -/
structure Keeps (c : Cache K V) (m : K → Option (CacheEntry V)) (lookups builds : Nat) : Prop where
  settled : c.Settled
  entries : c.stored? = m
  lookups : c.hits + c.misses = lookups
  builds : c.builds = builds

theorem keeps_count (h : c.Settled) (hit : Bool) : Keeps (c.count hit) c.stored? (c.hits + c.misses + 1) c.builds := by
  refine ⟨h.count hit, ?_, ?_, ?_⟩
  · cases hit <;> rfl
  · cases hit
    · rfl
    · exact Nat.add_right_comm _ _ _
  · cases hit <;> rfl

theorem keeps_run (h : c.Settled) (op : Operation K V ε) : Keeps (op.run c) (op.onMap c.stored?)
    (c.hits + c.misses + (op.looksUp c).toNat) (c.builds + (op.builds c).toNat) := by
  cases op with
  | get k | getFresh k fp | find wanted => exact keeps_count h _
  | set k fp v => exact ⟨h.set k fp v, h.stored?_link k _, rfl, rfl⟩
  | invalidate k => exact ⟨h.unlink k, stored?_unlink c k, rfl, rfl⟩
  | clear => exact ⟨h.clear, rfl, rfl, rfl⟩
  | build k fp builder =>
    simp only [run, onMap, looksUp, builds]
    rw [← isSome_getFresh]
    cases hv : (c.getFresh k fp).1 with
    | some v =>
      rw [h.getOrBuild, hv]
      exact keeps_count h true
    | none =>
      obtain ⟨hsettled, hentry⟩ := h.built hv builder
      refine ⟨hsettled, hentry, ?_, ?_⟩ <;> rw [h.getOrBuild, hv] <;> cases builder () <;> rfl

theorem keeps_foldl (h : c.Settled) (ops : List (Operation K V ε)) :
    Keeps (ops.foldl run c) (ops.foldl onMap c.stored?)
      (c.hits + c.misses + (history c ops).countP fun x ↦ x.2.looksUp x.1)
      (c.builds + (history c ops).countP fun x ↦ x.2.builds x.1) := by
  induction ops generalizing c with
  | nil => exact ⟨h, rfl, rfl, rfl⟩
  | cons op ops ih =>
    obtain ⟨hsettled, hentries, hlookups, hbuilds⟩ := keeps_run h op
    have hrest := ih hsettled
    have hcount (a n : Nat) (b : Bool) : a + b.toNat + n = a + (n + if b = true then 1 else 0) := by
      cases b <;> simp [Nat.add_assoc, Nat.add_comm 1]
    rw [hentries, hlookups, hbuilds, hcount, hcount] at hrest
    rwa [history, List.countP_cons, List.countP_cons]

end Operation

/-- For one caller a cache is a map of entries that go with fingerprints, and it counts exactly. Between two operations
no slot is pending, and every slot has the fingerprint of its entry. A builder runs just if there is nothing fresh, and
one that fails takes away its own key at most. -/
theorem single_caller_map (ops : List (Operation K V ε)) :
    let c : Cache K V := ops.foldl Operation.run {}
    c.stored? = ops.foldl Operation.onMap (fun _ ↦ none) ∧
    (∀ k fp, (c.getFresh k fp).1 = ((c.stored? k).filter (·.isFresh fp)).map (·.value)) ∧
    (∀ k i, c.slotOf? k = some i → ∃ e : CacheEntry V, c.slot? i = some ⟨e.fingerprint, .full e⟩) ∧
    (∀ k fp (build : Unit → Except ε V), (c.getOrBuild k fp build).1.ran = (c.getFresh k fp).1.isNone) ∧
    (∀ k fp (build : Unit → Except ε V), (c.getOrBuild k fp build).1.outcome.isOk = false →
      let failed := (c.getOrBuild k fp build).2
      failed.slotOf? k = none ∧ (∀ k', k' ≠ k → failed.stored? k' = c.stored? k') ∧
        failed.hits = c.hits ∧ failed.misses = c.misses) ∧
    c.stats.hits + c.stats.misses = (Operation.history {} ops).countP (fun x ↦ x.2.looksUp x.1) ∧
    c.stats.builds = (Operation.history {} ops).countP (fun x ↦ x.2.builds x.1) ∧
    c.keys.Nodup ∧ (∀ k, k ∈ c.keys ↔ (c.stored? k).isSome) ∧ c.stats.entries = c.keys.length := by
  obtain ⟨hsettled, hentries, hlookups, hbuilds⟩ := Operation.keeps_foldl (.empty : ({} : Cache K V).Settled) ops
  refine ⟨hentries, getFresh_eq _, fun k i hi ↦ ?_, fun k fp build ↦ ?_, fun k fp build hfails ↦ ?_,
    hlookups.trans (Nat.zero_add _), hbuilds.trans (Nat.zero_add _), ?_, hsettled.mem_keys, ?_⟩
  · obtain ⟨e, he, -⟩ := hsettled.slot hi
    exact ⟨e, he⟩
  · rw [hsettled.getOrBuild]
    cases (getFresh _ k fp).1 with
    | some v => rfl
    | none => cases build () <;> rfl
  · dsimp only
    rw [hsettled.getOrBuild] at hfails ⊢
    cases hv : (getFresh _ k fp).1 with
    | some v =>
      rw [hv] at hfails
      cases hfails
    | none =>
      rw [hv] at hfails
      cases hb : build () with
      | ok v =>
        rw [hb] at hfails
        cases hfails
      | error e =>
        refine ⟨by simp [slotOf?_unlink], fun k' hk' ↦ ?_, rfl, rfl⟩
        rw [stored?_unlink, hsettled.begun.stored?_link, Function.update_of_ne hk', Function.update_of_ne hk']
        rfl
  · rw [hsettled.keys_eq]
    exact hsettled.keyed.nodup
  · rw [keys, List.length_map]
    rfl

end AnalysisServer.Cache
