import AnalysisServer.Proofs.Path.Order
import AnalysisServer.Proofs.Project.Keys

namespace AnalysisServer.Registry

open List

section Ids

variable {r : Registry} {id id' : String} {key key' : Path}

theorem mem_setId : (id', key') ∈ (r.setId id key).ids ↔
    (id' ≠ id ∧ (id', key') ∈ r.ids) ∨ (id' = id ∧ key' = key) := by
  simp [setId, and_comm]

theorem mem_dropIds : (id', key') ∈ (r.dropIds key).ids ↔ (id', key') ∈ r.ids ∧ key' ≠ key := by
  simp [dropIds]

theorem nodup_setId (h : (r.ids.map Prod.fst).Nodup) : ((r.setId id key).ids.map Prod.fst).Nodup := by
  have hsub : ((r.ids.filter fun e ↦ e.1 ≠ id).map Prod.fst).Nodup :=
    h.sublist (filter_sublist.map _)
  simp only [setId, map_append, map_singleton]
  refine nodup_append.mpr ⟨hsub, by simp, ?_⟩
  rintro a ha b hb rfl
  obtain ⟨e, he, rfl⟩ := mem_map.mp ha
  exact of_decide_eq_true (mem_filter.mp he).2 (mem_singleton.mp hb)

end Ids

section

variable [Digest] {disk : Disk} {classifier : Classifier} {r : Registry} {t : Path}
  {asked : Path → Prop} {id : String}

/-- A registry that was new before some calls, each of them on the disk of its time. -/
def afterEach (calls : List (Disk × Classifier × Call)) : Registry :=
  calls.foldl (fun r c ↦ r.serve c.1 c.2.1 c.2.2) {}

theorem ids_getOrCreate (r : Registry) (disk : Disk) (classifier : Classifier) (t : Path) :
    (r.getOrCreate disk classifier t).2.ids =
      match (r.getOrCreate disk classifier t).1 with
      | .ok handle => ((r.setId (programId t) (programKey disk t)).setId handle.program.id (programKey disk t)).ids
      | .error _ => r.ids := by
  simp only [getOrCreate]
  split
  · rfl
  · split
    · rfl
    · split <;> rfl

structure Linked (r : Registry) : Prop where
  settled : r.cache.Settled
  nodup : (r.ids.map Prod.fst).Nodup
  constructed : ∀ {id key}, (id, key) ∈ r.ids → ∃ p, r.cache.peek? key none = some p

namespace Linked

omit [Digest] in
theorem new : Linked {} :=
  ⟨.empty, .nil, fun h ↦ by cases h⟩

omit [Digest] in
theorem count (h : r.Linked) (hit : Bool) : Linked { r with cache := r.cache.count hit } :=
  ⟨h.settled.count hit, h.nodup, fun hmem ↦ by simpa using h.constructed hmem⟩

omit [Digest] in
theorem invalidateKey (h : r.Linked) (key : Path) : (r.invalidateKey key).2.Linked := by
  refine ⟨h.settled.unlink key, h.nodup.sublist (filter_sublist.map _), fun {id k} hmem ↦ ?_⟩
  obtain ⟨hmem, hne⟩ := mem_dropIds.mp hmem
  rw [peek?_invalidateKey, beq_false_of_ne hne]
  exact h.constructed hmem

theorem getOrCreate (h : r.Linked) (disk : Disk) (classifier : Classifier) (t : Path) :
    (r.getOrCreate disk classifier t).2.Linked := by
  obtain ⟨hres, hsettled, hpeek⟩ := getOrCreate_spec disk classifier h.settled t
  have hids := ids_getOrCreate r disk classifier t
  cases hg : (r.getOrCreate disk classifier t).1 with
  | ok handle =>
    rw [hg] at hids hpeek
    refine ⟨hsettled, by rw [hids]; exact nodup_setId (nodup_setId h.nodup), fun {id key} hmem ↦ ?_⟩
    rw [hpeek key]
    by_cases hkey : key = programKey disk t
    · rw [hkey, beq_self_eq_true]
      exact ⟨handle.program, rfl⟩
    · rw [beq_false_of_ne hkey]
      rw [hids, mem_setId, mem_setId] at hmem
      have hold : (id, key) ∈ r.ids := by
        obtain ⟨-, ⟨-, hmem⟩ | ⟨-, he⟩⟩ | ⟨-, he⟩ := hmem
        · exact hmem
        · exact absurd he hkey
        · exact absurd he hkey
      exact h.constructed hold
  | error e =>
    rw [hg] at hids hpeek hres
    refine ⟨hsettled, by rw [hids]; exact h.nodup, fun {id key} hmem ↦ ?_⟩
    obtain ⟨p, hp⟩ := h.constructed (hids ▸ hmem)
    rw [hpeek key]
    by_cases hkey : key = programKey disk t
    · -- a key that an id leads to is answered from the cache
      rw [hkey] at hp
      rw [hp] at hres
      cases hres
    · rw [beq_false_of_ne hkey]
      exact ⟨p, hp⟩

theorem serve (h : r.Linked) (disk : Disk) (classifier : Classifier) (call : Call) :
    (r.serve disk classifier call).Linked :=
  serve_preserves Linked (fun _ _ h ↦ h.count _) (fun _ key h ↦ h.invalidateKey key)
    (fun _ h ↦ ⟨h.settled.clear, .nil, fun hmem ↦ by cases hmem⟩) h fun t _ ↦ h.getOrCreate disk classifier t

theorem afterEach (calls : List (Disk × Classifier × Call)) : (afterEach calls).Linked :=
  foldlRecOn (motive := Linked) calls _ new fun _ h c _ ↦ h.serve c.1 c.2.1 c.2.2

theorem after (disk : Disk) (classifier : Classifier) (calls : List Call) : (after disk classifier calls).Linked := by
  have h := Linked.afterEach (calls.map (disk, classifier, ·))
  rwa [Registry.afterEach, foldl_map] at h

end Linked

theorem id_of_ofFile {p : Program} (h : Program.ofFile disk classifier t = .ok p) :
    p.id = programId (sourcePath disk t) := by
  cases hc : disk.canonical? t with
  | none =>
    rw [Program.ofFile_absent hc] at h
    cases h
    rw [sourcePath, hc, Option.getD_none]
  | some c =>
    obtain ⟨m, hm, hb⟩ := bind_eq_ok h
    obtain ⟨hashes, -, hp⟩ := bind_eq_ok hb
    obtain ⟨s, hs, hm⟩ := bind_eq_ok hm
    have hspath : s.path = c := by
      rw [Manifest.source_found hc, Manifest.Source.read] at hs
      split at hs <;> cases hs
      rfl
    have hmpath : m.path = s.path := by
      simp only [Manifest.ofSource] at hm
      split at hm
      · cases hm
      · obtain ⟨roots, -, hm⟩ := bind_eq_ok hm
        cases hm
        rfl
      · cases hm
    cases hp
    rw [hmpath, hspath, sourcePath, hc, Option.getD_some]

omit [Digest] in
structure Leads (disk : Disk) (q k : Path) : Prop where
  asked : programKey disk q = k
  looked : q.normalize = q → settled disk q = k

namespace Leads

variable {q k : Path}

omit [Digest] in
theorem exists_of_key (hd : disk.Proper) (t : Path) :
    ∃ q, (q = t ∨ q = sourcePath disk t) ∧ Leads disk q (programKey disk t) := by
  cases hc : disk.canonical? t with
  | some c =>
    obtain ⟨hkey, hsettled, -⟩ := programKey_canonical hd hc
    rw [programKey_found hc]
    exact ⟨c, .inr (by rw [sourcePath, hc, Option.getD_some]), hkey, fun _ ↦ hsettled⟩
  | none =>
    refine ⟨t, .inl rfl, rfl, fun hnormal ↦ ?_⟩
    rw [programKey_absent hc, hnormal]

omit [Digest] in
theorem key_eq (hd : disk.Proper) (h : Leads disk q k) (hq : q = t ∨ q = sourcePath disk t) :
    programKey disk t = k := by
  obtain rfl | rfl := hq
  · exact h.asked
  · cases hc : disk.canonical? t with
    | some c =>
      have hkey := h.asked
      rw [sourcePath, hc, Option.getD_some, (programKey_canonical hd hc).1] at hkey
      rw [programKey_found hc, hkey]
    | none =>
      have hsettled := h.looked
      rw [sourcePath, hc, Option.getD_none] at hsettled
      rw [programKey_absent hc, hsettled t.normalize_normalize]

end Leads

omit [Digest] in
def Named (disk : Disk) (asked : Path → Prop) (q : Path) : Prop :=
  ∃ t, asked t ∧ (q = t ∨ q = sourcePath disk t)

/-- Every program in the cache has an id that belongs to no other key. -/
structure Anchored (disk : Disk) (classifier : Classifier) (asked : Path → Prop) (r : Registry) :
    Prop where
  faithful : Faithful disk classifier asked r
  anchor : ∀ {k p}, r.cache.peek? k none = some p →
    ∃ q, Named disk asked q ∧ Leads disk q k ∧ (programId q, k) ∈ r.ids

namespace Anchored

variable {asked : Path → Prop}

theorem new (asked : Path → Prop) : Anchored disk classifier asked {} :=
  ⟨.new asked, fun h ↦ by cases h⟩

section

variable (h : Anchored disk classifier asked r)

include h

theorem count (hit : Bool) : Anchored disk classifier asked { r with cache := r.cache.count hit } :=
  ⟨h.faithful.shrink (h.faithful.settled.count hit) fun _ _ hp ↦ by simpa using hp,
    fun hp ↦ h.anchor (by simpa using hp)⟩

theorem clear : Anchored disk classifier asked r.clear :=
  ⟨h.faithful.shrink h.faithful.settled.clear (fun _ _ hp ↦ by cases hp), fun hp ↦ by cases hp⟩

theorem invalidateKey (key : Path) : Anchored disk classifier asked (r.invalidateKey key).2 := by
  refine ⟨h.faithful.invalidateKey key, fun {k p} hp ↦ ?_⟩
  rw [peek?_invalidateKey] at hp
  split at hp
  · cases hp
  · rename_i hne
    obtain ⟨q, hq, hk, hmem⟩ := h.anchor hp
    exact ⟨q, hq, hk, mem_dropIds.mpr ⟨hmem, by simpa using hne⟩⟩

end

theorem getOrCreate (hd : disk.Proper)
    (hinj : ∀ q q', Named disk asked q → Named disk asked q' → programId q = programId q' → q = q')
    (h : Anchored disk classifier asked r) (ht : asked t) :
    Anchored disk classifier asked (r.getOrCreate disk classifier t).2 := by
  have hfaithful := h.faithful.getOrCreate ht
  obtain ⟨hres, -, hpeek⟩ := getOrCreate_spec disk classifier h.faithful.settled t
  have hids := ids_getOrCreate r disk classifier t
  refine ⟨hfaithful, fun {k p} hp ↦ ?_⟩
  cases hg : (r.getOrCreate disk classifier t).1 with
  | error e =>
    rw [hg] at hids hpeek
    rw [hids]
    rw [hpeek k] at hp
    split at hp
    · cases hp
    · exact h.anchor hp
  | ok handle =>
    rw [hg] at hids hpeek hres
    have hstored : (r.getOrCreate disk classifier t).2.cache.peek? (programKey disk t) none =
        some handle.program := by
      rw [hpeek, beq_self_eq_true]
      rfl
    obtain ⟨t', ht', hkey', hbuilt⟩ := hfaithful.built hstored
    have hid := id_of_ofFile hbuilt
    rw [hids]
    -- an anchor stays: whoever sets its id has its key
    have hstays {q} (hq : Named disk asked q) (hk : Leads disk q k)
        (hmem : (programId q, k) ∈ r.ids) : (programId q, k) ∈
          ((r.setId (programId t) (programKey disk t)).setId handle.program.id (programKey disk t)).ids := by
      rw [mem_setId, mem_setId, hid]
      by_cases he' : programId q = programId (sourcePath disk t')
      · have hqt := hinj q _ hq ⟨t', ht', .inr rfl⟩ he'
        exact .inr ⟨he', (hk.key_eq hd (.inr hqt)).symm.trans hkey'⟩
      · refine .inl ⟨he', ?_⟩
        by_cases he : programId q = programId t
        · have hqt := hinj q t hq ⟨t, ht, .inl rfl⟩ he
          exact .inr ⟨he, (hk.key_eq hd (.inl hqt)).symm⟩
        · exact .inl ⟨he, hmem⟩
    cases hold : r.cache.peek? k none with
    | some p' =>
      obtain ⟨q, hq, hk, hmem⟩ := h.anchor hold
      exact ⟨q, hq, hk, hstays hq hk hmem⟩
    | none =>
      -- the program is new, and built for the path itself
      have hkt : k = programKey disk t := by
        rw [hpeek k, hold] at hp
        split at hp
        · exact eq_of_beq ‹_›
        · cases hp
      rw [hkt] at hold
      rw [hold] at hres
      have hid : handle.program.id = programId (sourcePath disk t) := id_of_ofFile hres.symm
      obtain ⟨q, hq, hk⟩ := Leads.exists_of_key hd t
      rw [← hkt] at hk
      refine ⟨q, ⟨t, ht, hq⟩, hk, ?_⟩
      rw [mem_setId, mem_setId, hid]
      by_cases he : programId q = programId (sourcePath disk t)
      · exact .inr ⟨he, hkt⟩
      · obtain rfl | rfl := hq
        · exact .inl ⟨he, .inr ⟨rfl, hkt⟩⟩
        · exact absurd rfl he

theorem after (hd : disk.Proper) (classifier : Classifier) (calls : List Call)
    (hinj : ∀ q q', Named disk (.getOrCreate · ∈ calls) q → Named disk (.getOrCreate · ∈ calls) q' →
      programId q = programId q' → q = q') :
    Anchored disk classifier (.getOrCreate · ∈ calls) (after disk classifier calls) :=
  after_preserves _ calls (new _) (fun _ _ h ↦ h.count _) (fun _ key h ↦ h.invalidateKey key)
    (fun _ h ↦ h.clear) fun _ _ ht h ↦ h.getOrCreate hd hinj ht

end Anchored

omit [Digest] in
theorem isSome_getById (h : r.Linked) (id : String) : (r.getById id).1.isSome = true ↔ id ∈ r.ids.map Prod.fst := by
  rw [getById]
  cases hl : r.ids.lookup id with
  | none =>
    refine ⟨by simp, fun hmem ↦ ?_⟩
    obtain ⟨⟨_, key⟩, he, rfl⟩ := mem_map.mp hmem
    rw [lookup_of_mem h.nodup he] at hl
    cases hl
  | some key =>
    have hmem := mem_of_lookup hl
    obtain ⟨p, hp⟩ := h.constructed hmem
    refine ⟨fun _ ↦ mem_map.mpr ⟨_, hmem, rfl⟩, fun _ ↦ ?_⟩
    simp only [Cache.get, Cache.getFresh, hp, Option.isSome_some]

omit [Digest] in
theorem delete_of_mem (h : r.Linked) {id : String} {k : Path} (hmem : (id, k) ∈ r.ids) :
    (r.delete id).1 = true ∧ (r.delete id).2.cache.peek? k none = none := by
  rw [delete, lookup_of_mem h.nodup hmem]
  refine ⟨rfl, ?_⟩
  rw [peek?_invalidateKey, beq_self_eq_true, if_pos rfl]

omit [Digest] in
theorem peek?_invalidateContaining (r : Registry) (disk : Disk) (path k : Path) :
    (r.invalidateContaining disk path).2.cache.peek? k none =
      if ∃ key ∈ r.keysAround (programKey disk path), programKey disk key = k then none
      else r.cache.peek? k none := by
  rw [invalidateContaining]
  generalize r.keysAround (programKey disk path) = keys
  generalize 0 = n
  induction keys generalizing r n with
  | nil => simp
  | cons key keys ih =>
    rw [foldl_cons, ih, invalidate, peek?_invalidateKey]
    by_cases hk : programKey disk key = k
    · simp [hk]
    · simp [hk, Ne.symm hk]

section

variable (hd : disk.Proper) (h : r.Linked) (hf : Faithful disk classifier asked r)

include hd h hf

theorem programKey_of_mem_ids {key : Path} (hmem : (id, key) ∈ r.ids) :
    key.normalize = key ∧ programKey disk key = (disk.canonical? key).getD key := by
  obtain ⟨p, hp⟩ := h.constructed hmem
  obtain ⟨t, -, rfl, -⟩ := hf.built hp
  exact (programKey_programKey hd t).symm

theorem mem_keysAround {path k : Path} :
    k ∈ r.keysAround path ↔ (∃ id, (id, k) ∈ r.ids) ∧ k.parent?.any path.startsWith = true := by
  have hid {key} (hkey : key ∈ (r.ids.map (·.2)).filter fun key ↦ key.parent?.any path.startsWith) :
      (∃ id, (id, key) ∈ r.ids) ∧ key.parent?.any path.startsWith = true := by
    obtain ⟨hkey, haround⟩ := mem_filter.mp hkey
    obtain ⟨⟨id, _⟩, he, rfl⟩ := mem_map.mp hkey
    exact ⟨⟨id, he⟩, haround⟩
  refine ⟨fun hk ↦ hid (Path.mem_of_mem_sorted hk), ?_⟩
  rintro ⟨⟨id, hmem⟩, haround⟩
  have hin : k ∈ (r.ids.map (·.2)).filter fun key ↦ key.parent?.any path.startsWith :=
    mem_filter.mpr ⟨mem_map.mpr ⟨_, hmem, rfl⟩, haround⟩
  obtain ⟨key, hkey, hcomponents⟩ := Path.exists_mem_sorted hin
  obtain ⟨id', he⟩ := (hid (Path.mem_of_mem_sorted hkey)).1
  rwa [Path.eq_of_components (programKey_of_mem_ids hd h hf he).1 (programKey_of_mem_ids hd h hf hmem).1
    hcomponents] at hkey

theorem dropped_iff {k path : Path} (hmem : (id, k) ∈ r.ids)
    (haround : k.parent?.any (programKey disk path).startsWith = true) :
    (r.invalidateContaining disk path).2.cache.peek? k none = none ↔ ∀ c, disk.canonical? k = some c → c = k := by
  have hkept : r.cache.peek? k none ≠ none := by
    obtain ⟨p, hp⟩ := h.constructed hmem
    simp [hp]
  rw [peek?_invalidateContaining, ite_eq_left_iff, imp_iff_not (by simpa using hkept), Classical.not_not]
  constructor
  · rintro ⟨key, hkey, hk⟩ c hc
    obtain ⟨id', he⟩ := ((mem_keysAround hd h hf).mp hkey).1
    have hkey' := (programKey_of_mem_ids hd h hf he).2
    cases hc' : disk.canonical? key with
    | some c' =>
      -- the key leads to a canonical path, which is its own key
      rw [programKey_found hc'] at hk
      rw [← hk] at hc ⊢
      rw [← programKey_found hc, (programKey_canonical hd hc').1]
    | none =>
      rw [hkey', hc', Option.getD_none] at hk
      rw [hk, hc] at hc'
      cases hc'
  · intro hself
    refine ⟨k, (mem_keysAround hd h hf).mpr ⟨⟨id, hmem⟩, haround⟩, ?_⟩
    rw [(programKey_of_mem_ids hd h hf hmem).2]
    cases hc : disk.canonical? k with
    | none => rfl
    | some c => exact hself c hc

end

omit [Digest] in
def linkedProject : Disk :=
  { root := .dir [("tsconfig.base.json", .file "\x7b\x7d".toUTF8),
      ("tsconfig.json", .link ⟨"tsconfig.base.json"⟩)] }

omit [Digest] in
def lostCalls : List Call :=
  [.getOrCreate ⟨"/gone/../tsconfig.json"⟩]

omit [Digest] in
theorem canonical?_linkedProject_lost : linkedProject.canonical? ⟨"/gone/../tsconfig.json"⟩ = none := by
  decide +kernel

omit [Digest] in
theorem canonical?_linkedProject : linkedProject.canonical? ⟨"/tsconfig.json"⟩ = some ⟨"/tsconfig.base.json"⟩ := by
  decide +kernel

omit [Digest] in
theorem programKey_linkedProject_lost : programKey linkedProject ⟨"/gone/../tsconfig.json"⟩ = ⟨"/tsconfig.json"⟩ := by
  decide +kernel

theorem after_one (classifier : Classifier) {p : Program} (hb : Program.ofFile disk classifier t = .ok p) :
    (after disk classifier [.getOrCreate t]).cache.peek? (programKey disk t) none = some p ∧
      (programId t, programKey disk t) ∈ (after disk classifier [.getOrCreate t]).ids := by
  obtain ⟨hres, -, hpeek⟩ := getOrCreate_spec disk classifier (r := {}) .empty t
  have hids := ids_getOrCreate {} disk classifier t
  rw [hb] at hres
  refine ⟨(hpeek _).trans (by rw [beq_self_eq_true, hres]; rfl), ?_⟩
  cases hg : (({} : Registry).getOrCreate disk classifier t).1 with
  | error e => rw [hg] at hres; cases hres
  | ok handle =>
    rw [hg] at hids
    show _ ∈ (({} : Registry).getOrCreate disk classifier t).2.ids
    rw [hids, mem_setId, mem_setId]
    by_cases he : programId t = handle.program.id
    · exact .inr ⟨he, rfl⟩
    · exact .inl ⟨he, .inr ⟨rfl, rfl⟩⟩

theorem peek?_linkedProject :
    ∃ p, (after linkedProject .standard lostCalls).cache.peek? ⟨"/tsconfig.json"⟩ none = some p := by
  have h := (after_one .standard (Program.ofFile_absent canonical?_linkedProject_lost)).1
  rw [programKey_linkedProject_lost] at h
  exact ⟨_, h⟩

/-- Every id leads to a program, whatever happens to the disk. On a disk that does not change, as long as no
two paths have one id, every program has an id under which it can be deleted, and a path in its directory
takes it away just if its key does not lead elsewhere. -/
theorem ids_consistent : (∀ calls : List (Disk × Classifier × Call), (∀ id key, (id, key) ∈ (afterEach calls).ids →
        ∃ p, (afterEach calls).cache.peek? key none = some p) ∧
      ∀ id, ((afterEach calls).getById id).1.isSome = true ↔ id ∈ (afterEach calls).ids.map Prod.fst) ∧
    ∀ (disk : Disk) (classifier : Classifier) (calls : List Call), disk.Proper →
      (∀ q q', Named disk (.getOrCreate · ∈ calls) q → Named disk (.getOrCreate · ∈ calls) q' →
        programId q = programId q' → q = q') →
      ∀ k p, (after disk classifier calls).cache.peek? k none = some p →
        (∃ id, (id, k) ∈ (after disk classifier calls).ids ∧ ((after disk classifier calls).delete id).1 = true ∧
          ((after disk classifier calls).delete id).2.cache.peek? k none = none) ∧
        ∀ path, k.parent?.any (programKey disk path).startsWith = true →
          (((after disk classifier calls).invalidateContaining disk path).2.cache.peek? k none = none ↔
            ∀ c, disk.canonical? k = some c → c = k) := by
  constructor
  · intro calls
    have hlinked := Linked.afterEach calls
    exact ⟨fun _ _ hmem ↦ hlinked.constructed hmem, isSome_getById hlinked⟩
  · intro disk classifier calls hd hinj k p hp
    have hlinked : (after disk classifier calls).Linked := .after disk classifier calls
    have hanchored := Anchored.after hd classifier calls hinj
    obtain ⟨q, -, -, hmem⟩ := hanchored.anchor hp
    exact ⟨⟨_, hmem, delete_of_mem hlinked hmem⟩,
      fun path haround ↦ dropped_iff hd hlinked hanchored.faithful hmem haround⟩

end

theorem ids_consistent_linkedProject : linkedProject.Proper ∧ ∃ p id,
      (@after sizeDigest linkedProject .standard lostCalls).cache.peek? ⟨"/tsconfig.json"⟩ none = some p ∧
      ((@after sizeDigest linkedProject .standard lostCalls).delete id).2.cache.peek?
        ⟨"/tsconfig.json"⟩ none = none := by
  have hinj : ∀ q q', Named linkedProject (Call.getOrCreate · ∈ lostCalls) q →
      Named linkedProject (Call.getOrCreate · ∈ lostCalls) q' →
      @programId sizeDigest q = @programId sizeDigest q' → q = q' := by
    have hnamed {q : Path} (h : Named linkedProject (Call.getOrCreate · ∈ lostCalls) q) :
        q = ⟨"/gone/../tsconfig.json"⟩ ∨ q = ⟨"/tsconfig.json"⟩ := by
      obtain ⟨t, ht, h⟩ := h
      obtain rfl : t = ⟨"/gone/../tsconfig.json"⟩ := by simpa [lostCalls] using ht
      have hnormal : (Path.mk "/gone/../tsconfig.json").normalize = ⟨"/tsconfig.json"⟩ := by decide
      rwa [sourcePath, canonical?_linkedProject_lost, Option.getD_none, hnormal] at h
    intro q q' hq hq' he
    obtain rfl | rfl := hnamed hq <;> obtain rfl | rfl := hnamed hq' <;>
      first | rfl | exact absurd he (by decide)
  have hd : linkedProject.Proper := by decide
  obtain ⟨p, hp⟩ := @peek?_linkedProject sizeDigest
  obtain ⟨⟨id, -, -, hgone⟩, -⟩ := (@ids_consistent sizeDigest).2 linkedProject .standard _ hd hinj _ p hp
  exact ⟨hd, p, id, hp, hgone⟩

/-- A program whose project file was not found by the path it was asked for under stays when something
changes in its directory, if its name is that of a link. -/
theorem linked_program_stays : ∃ p p',
      (after linkedProject .standard lostCalls).cache.peek? ⟨"/tsconfig.json"⟩ none = some p ∧
      (Path.mk "/tsconfig.json").parent?.any (programKey linkedProject ⟨"/tsconfig.json"⟩).startsWith = true ∧
      ((after linkedProject .standard lostCalls).invalidateContaining linkedProject
        ⟨"/tsconfig.json"⟩).2.cache.peek? ⟨"/tsconfig.json"⟩ none = some p' := by
  obtain ⟨p, hp⟩ := peek?_linkedProject
  have haround : (Path.mk "/tsconfig.json").parent?.any
      (programKey linkedProject ⟨"/tsconfig.json"⟩).startsWith = true := by
    rw [programKey_found canonical?_linkedProject]
    decide
  have hmem := (after_one .standard (Program.ofFile_absent canonical?_linkedProject_lost)).2
  rw [programKey_linkedProject_lost] at hmem
  have hkept := mt (dropped_iff (by decide) (.after linkedProject .standard _)
    (Faithful.after linkedProject .standard _) hmem haround).mp fun hself ↦ by
      have := hself _ canonical?_linkedProject
      revert this
      decide
  obtain ⟨p', hp'⟩ := Option.ne_none_iff_exists'.mp hkept
  exact ⟨p, p', hp, haround, hp'⟩

end AnalysisServer.Registry
