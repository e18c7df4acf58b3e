import AnalysisServer.Proofs.Cache.Lookup
import AnalysisServer.Proofs.Disk.Following
import AnalysisServer.Proofs.Project.Building

namespace AnalysisServer.Registry

open Program (build missing_of_ofFile ofFile ofFile_absent)

section

variable [Digest]

/-- What may be asked of a registry. -/
inductive Call where
  | getOrCreate (tsconfig : Path)
  | getById (id : String)
  | findForFile (file : Path)
  | delete (id : String)
  | invalidate (tsconfig : Path)
  | invalidateContaining (path : Path)
  | clear

def serve (disk : Disk) (classifier : Classifier) (r : Registry) : Call → Registry
  | .getOrCreate t => (r.getOrCreate disk classifier t).2
  | .getById id => (r.getById id).2
  | .findForFile file => (r.findForFile file).2
  | .delete id => (r.delete id).2
  | .invalidate t => (r.invalidate disk t).2
  | .invalidateContaining path => (r.invalidateContaining disk path).2
  | .clear => r.clear

def after (disk : Disk) (classifier : Classifier) (calls : List Call) : Registry :=
  calls.foldl (serve disk classifier) {}

variable {disk : Disk} {classifier : Classifier} {r : Registry} {t : Path} {p : Program} {t' : Path}

theorem program_getOrCreate (r : Registry) (disk : Disk) (classifier : Classifier) (t : Path) :
    (r.getOrCreate disk classifier t).1.map ProgramHandle.program =
      match r.cache.peek? (programKey disk t) none with
      | some p => .ok p
      | none => ofFile disk classifier t := by
  simp only [getOrCreate, Cache.get, Cache.getFresh]
  cases hp : r.cache.peek? (programKey disk t) none with
  | some p => rfl
  | none =>
    rw [ofFile]
    cases Manifest.resolve disk classifier t with
    | error e => rfl
    | ok m =>
      have hbuilt := Cache.getOrBuild_of_peek?_none ((Cache.peek?_count r.cache false _).trans hp)
        (some m.fingerprint) fun _ ↦ build disk m
      simp only [Option.isSome_none, hbuilt, bind, Except.bind]
      cases build disk m <;> rfl

theorem getOrCreate_spec (disk : Disk) (classifier : Classifier) (hs : r.cache.Settled) (t : Path) :
    (r.getOrCreate disk classifier t).1.map ProgramHandle.program = (match r.cache.peek? (programKey disk t) none with
      | some p => .ok p
      | none => ofFile disk classifier t) ∧
    (r.getOrCreate disk classifier t).2.cache.Settled ∧
    ∀ k, (r.getOrCreate disk classifier t).2.cache.peek? k none =
      if k == programKey disk t then
        ((r.getOrCreate disk classifier t).1.map ProgramHandle.program).toOption
      else r.cache.peek? k none := by
  refine ⟨program_getOrCreate r disk classifier t, ?_⟩
  have hcount (p : Option Program) (hp : r.cache.peek? (programKey disk t) none = p) :
      (r.cache.count p.isSome).Settled ∧ ∀ k, (r.cache.count p.isSome).peek? k none =
        if k == programKey disk t then p else r.cache.peek? k none := by
    refine ⟨hs.count _, fun k ↦ ?_⟩
    by_cases hk : k = programKey disk t <;> simp [hk, hp]
  simp only [getOrCreate, Cache.get, Cache.getFresh]
  cases hp : r.cache.peek? (programKey disk t) none with
  | some p => exact hcount _ hp
  | none =>
    cases Manifest.resolve disk classifier t with
    | error e => exact hcount _ hp
    | ok m =>
      have hnone := (Cache.peek?_count r.cache false _).trans hp
      have hbuilt := Cache.getOrBuild_of_peek?_none hnone (some m.fingerprint) fun _ ↦ build disk m
      have hpeek := (hs.count false).peek?_built hnone (some m.fingerprint) fun _ ↦ build disk m
      simp only [Option.isSome_none, hbuilt]
      cases hb : build disk m <;> simpa [hb, setId, Except.map, Except.toOption] using hpeek

omit [Digest] in
theorem peek?_invalidateKey (r : Registry) (key k : Path) :
    (r.invalidateKey key).2.cache.peek? k none = if k == key then none else r.cache.peek? k none :=
  Cache.peek?_unlink r.cache key k

theorem serve_preserves (P : Registry → Prop) (hcount : ∀ r hit, P r → P { r with cache := r.cache.count hit })
    (hdrop : ∀ r key, P r → P (r.invalidateKey key).2) (hclear : ∀ r, P r → P r.clear)
    {call : Call} (h : P r)
    (hget : ∀ t, call = .getOrCreate t → P (r.getOrCreate disk classifier t).2) :
    P (r.serve disk classifier call) := by
  cases call with
  | getOrCreate t => exact hget t rfl
  | getById id =>
    simp only [serve, getById]
    split
    · exact h
    · exact hcount r _ h
  | findForFile file => exact hcount r _ h
  | delete id =>
    simp only [serve, delete]
    split
    · exact h
    · exact hdrop r _ h
  | invalidate t => exact hdrop r _ h
  | invalidateContaining path =>
    simp only [serve, invalidateContaining]
    exact List.foldlRecOn (motive := fun x : Nat × Registry ↦ P x.2) _ _ h fun _ h _ _ ↦ hdrop _ _ h
  | clear => exact hclear r h

theorem after_preserves (P : Registry → Prop) (calls : List Call) (hnew : P {})
    (hcount : ∀ r hit, P r → P { r with cache := r.cache.count hit })
    (hdrop : ∀ r key, P r → P (r.invalidateKey key).2) (hclear : ∀ r, P r → P r.clear)
    (hget : ∀ r t, .getOrCreate t ∈ calls → P r → P (r.getOrCreate disk classifier t).2) :
    P (after disk classifier calls) := by
  refine List.foldlRecOn (motive := P) calls _ hnew fun r hr call hcall ↦ ?_
  exact serve_preserves P hcount hdrop hclear hr fun t ht ↦ hget r t (ht ▸ hcall) hr

/-- Every program in the cache was built for one of the given paths, which has its key. -/
structure Faithful (disk : Disk) (classifier : Classifier) (asked : Path → Prop) (r : Registry) :
    Prop where
  settled : r.cache.Settled
  built : ∀ {k p}, r.cache.peek? k none = some p →
    ∃ t, asked t ∧ programKey disk t = k ∧ ofFile disk classifier t = .ok p

namespace Faithful

variable {asked asked' : Path → Prop}

theorem new (asked : Path → Prop) : Faithful disk classifier asked {} :=
  ⟨.empty, fun h ↦ by cases h⟩

section

variable (h : Faithful disk classifier asked r)

include h

theorem shrink {r' : Registry} (hs : r'.cache.Settled)
    (hle : ∀ k p, r'.cache.peek? k none = some p → r.cache.peek? k none = some p) :
    Faithful disk classifier asked r' :=
  ⟨hs, fun hp ↦ h.built (hle _ _ hp)⟩

theorem invalidateKey (key : Path) : Faithful disk classifier asked (r.invalidateKey key).2 := by
  refine h.shrink (h.settled.unlink key) fun k p hp ↦ ?_
  have hu : (r.cache.unlink key).peek? k none = some p := hp
  rw [Cache.peek?_unlink] at hu
  split at hu
  · cases hu
  · exact hu

theorem getOrCreate (ht : asked t) : Faithful disk classifier asked (r.getOrCreate disk classifier t).2 := by
  obtain ⟨hres, hsettled, hpeek⟩ := getOrCreate_spec disk classifier h.settled t
  refine ⟨hsettled, fun {k p} hp ↦ ?_⟩
  rw [hpeek k] at hp
  by_cases hk : k = programKey disk t
  · subst hk
    rw [beq_self_eq_true, hres] at hp
    cases hc : r.cache.peek? (programKey disk t) none with
    | some q =>
      rw [hc] at hp
      cases hp
      exact h.built hc
    | none =>
      rw [hc] at hp
      refine ⟨t, ht, rfl, ?_⟩
      cases hf : ofFile disk classifier t with
      | ok q => rw [hf] at hp; cases hp; rfl
      | error e => rw [hf] at hp; cases hp
  · rw [beq_false_of_ne hk] at hp
    exact h.built hp

end

theorem after (disk : Disk) (classifier : Classifier) (calls : List Call) :
    Faithful disk classifier (fun t ↦ .getOrCreate t ∈ calls) (after disk classifier calls) :=
  after_preserves _ calls (new _) (fun _ hit h ↦ h.shrink (h.settled.count hit) fun _ _ hp ↦ by simpa using hp)
    (fun _ key h ↦ h.invalidateKey key) (fun _ h ↦ h.shrink (h.settled.clear) nofun) fun _ _ ht h ↦ h.getOrCreate ht

end Faithful

theorem exists_builder {calls : List Call} {handle : ProgramHandle}
    (h : ((after disk classifier calls).getOrCreate disk classifier t).1 = .ok handle) :
    ∃ t', (t' = t ∨ .getOrCreate t' ∈ calls) ∧ programKey disk t' = programKey disk t ∧
      ofFile disk classifier t' = .ok handle.program := by
  have hf := Faithful.after disk classifier calls
  obtain ⟨hres, -, -⟩ := getOrCreate_spec disk classifier hf.settled t
  rw [h] at hres
  cases hp : (after disk classifier calls).cache.peek? (programKey disk t) none with
  | some p =>
    rw [hp] at hres
    cases hres
    obtain ⟨t', ht', hk, hb⟩ := hf.built hp
    exact ⟨t', .inr ht', hk, hb⟩
  | none =>
    rw [hp] at hres
    exact ⟨t, .inl rfl, rfl, hres.symm⟩

omit [Digest] in
theorem programKey_found {path : Path} (h : disk.canonical? t = some path) : programKey disk t = path := by
  simp only [programKey, h]

section

variable (hk : programKey disk t' = programKey disk t) (hb : ofFile disk classifier t' = .ok p)

include hk hb

theorem sameContent_iff : (∃ q, ofFile disk classifier t = .ok q ∧ q.SameContent p) ↔
      (disk.canonical? t').isSome = (disk.canonical? t).isSome := by
  constructor
  · rintro ⟨q, hq, hqp⟩
    have hm := hqp.missing
    rw [missing_of_ofFile hq, missing_of_ofFile hb] at hm
    rw [← Option.not_isNone, ← Option.not_isNone, hm]
  · intro hsame
    cases hc : disk.canonical? t with
    | some path =>
      rw [hc] at hsame
      obtain ⟨path', hc'⟩ := Option.isSome_iff_exists.mp hsame
      have he : path' = path := by rw [← programKey_found hc', hk, programKey_found hc]
      subst he
      exact ⟨p, (Program.ofFile_congr hc hc').trans hb, rfl, rfl, rfl⟩
    | none =>
      rw [hc, Option.isSome_none, Option.isSome_eq_false_iff, Option.isNone_iff_eq_none] at hsame
      rw [ofFile_absent hsame] at hb
      cases hb
      exact ⟨_, ofFile_absent hc, rfl, rfl, rfl⟩

theorem getOrCreate_after_one : ∃ handle, ((after disk classifier [.getOrCreate t']).getOrCreate disk classifier t).1 =
      .ok handle ∧ handle.program = p := by
  have hs := (Faithful.after disk classifier [.getOrCreate t']).settled
  obtain ⟨hres', -, hpeek'⟩ := getOrCreate_spec disk classifier (r := {}) .empty t'
  obtain ⟨hres, -, -⟩ := getOrCreate_spec disk classifier hs t
  have hstored : (after disk classifier [.getOrCreate t']).cache.peek? (programKey disk t) none = some p := by
    rw [← hk]
    refine (hpeek' _).trans ?_
    rw [beq_self_eq_true, hres', hb]
    rfl
  rw [hstored] at hres
  cases hg : ((after disk classifier [.getOrCreate t']).getOrCreate disk classifier t).1 with
  | error e => rw [hg] at hres; cases hres
  | ok handle =>
    rw [hg] at hres
    cases hres
    exact ⟨handle, rfl, rfl⟩

end

/-- Whether a registry shows through. An answer has the content of a fresh build just if it is marked
as missing when its path is not found and only then; and all answers for a path are like that,
whatever was asked before, just if no path with the same key that can be built differs from it in
being found. -/
theorem transparent_iff (disk : Disk) (classifier : Classifier) (t : Path) :
    (∀ calls handle, ((after disk classifier calls).getOrCreate disk classifier t).1 = .ok handle →
      ((∃ p, ofFile disk classifier t = .ok p ∧ p.SameContent handle.program) ↔
        handle.program.manifest.missing = (disk.canonical? t).isNone)) ∧
    ((∀ calls handle, ((after disk classifier calls).getOrCreate disk classifier t).1 = .ok handle →
      ∃ p, ofFile disk classifier t = .ok p ∧ p.SameContent handle.program) ↔
    ∀ t' p, programKey disk t' = programKey disk t → ofFile disk classifier t' = .ok p →
      (disk.canonical? t').isSome = (disk.canonical? t).isSome) := by
  refine ⟨fun calls handle h ↦ ?_, fun h t' p hk hb ↦ ?_, fun h calls handle ha ↦ ?_⟩
  · obtain ⟨t', -, hk, hb⟩ := exists_builder h
    rw [sameContent_iff hk hb, missing_of_ofFile hb, ← Option.not_isNone, ← Option.not_isNone]
    exact Bool.not_inj_iff
  · obtain ⟨handle, hg, rfl⟩ := getOrCreate_after_one hk hb
    exact (sameContent_iff hk hb).mp (h _ _ hg)
  · obtain ⟨t', -, hk, hb⟩ := exists_builder ha
    exact (sameContent_iff hk hb).mpr (h t' _ hk hb)

def loneProject : Disk :=
  { root := .dir [("tsconfig.json", .file "\x7b\"files\": []\x7d".toUTF8)] }

omit [Digest] in
theorem canonical?_loneProject : loneProject.canonical? ⟨"/tsconfig.json"⟩ = some ⟨"/tsconfig.json"⟩ := by
  decide +kernel

omit [Digest] in
theorem canonical?_lostPath : loneProject.canonical? ⟨"/gone/../tsconfig.json"⟩ = none := by
  decide +kernel

omit [Digest] in
theorem programKey_lostPath : programKey loneProject ⟨"/gone/../tsconfig.json"⟩ = ⟨"/tsconfig.json"⟩ := by
  decide +kernel

theorem ofFile_loneProject : ∃ p, ofFile loneProject .standard ⟨"/tsconfig.json"⟩ = .ok p := by
  have hbytes : loneProject.read ⟨"/tsconfig.json"⟩ = .ok "\x7b\"files\": []\x7d".toUTF8 := by
    with_unfolding_all rfl
  have hsource : Manifest.source loneProject ⟨"/tsconfig.json"⟩ =
      .ok ⟨⟨"/tsconfig.json"⟩, "\x7b\"files\": []\x7d", false⟩ := by
    rw [Manifest.source_found canonical?_loneProject, Manifest.Source.read, Disk.readText_toUTF8 hbytes]
  have htext : Json.Lenient.ofText? "\x7b\"files\": []\x7d" = some (.obj [("files", .arr [])]) := rfl
  exact Program.ofFile_of_no_rootFiles hsource htext rfl

end

/-- A path that leads through a directory that does not exist takes the key of a project file that
does: whoever asks for that file afterwards gets a program that says it is missing. -/
theorem found_file_reported_missing :
    ∃ handle p, ((after loneProject .standard [.getOrCreate ⟨"/gone/../tsconfig.json"⟩]).getOrCreate
        loneProject .standard ⟨"/tsconfig.json"⟩).1 = .ok handle ∧
      handle.program.manifest.missing = true ∧
      ofFile loneProject .standard ⟨"/tsconfig.json"⟩ = .ok p ∧
      p.manifest.missing = false := by
  obtain ⟨p, hp⟩ := ofFile_loneProject
  have hk : programKey loneProject ⟨"/gone/../tsconfig.json"⟩ = programKey loneProject ⟨"/tsconfig.json"⟩ := by
    rw [programKey_lostPath, programKey_found canonical?_loneProject]
  obtain ⟨handle, hg, hhandle⟩ := getOrCreate_after_one hk (ofFile_absent canonical?_lostPath)
  refine ⟨handle, p, hg, ?_, hp, ?_⟩
  · rw [hhandle]
    rfl
  · rw [missing_of_ofFile hp, canonical?_loneProject]
    rfl

end AnalysisServer.Registry
