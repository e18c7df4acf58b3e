import AnalysisServer.Project.Program

namespace AnalysisServer

@[reducible] def sizeDigest : Digest :=
  ⟨fun bytes ↦ toString bytes.size⟩

theorem bind_eq_ok {ε α β : Type} {x : Except ε α} {f : α → Except ε β} {b : β}
    (h : (x >>= f) = .ok b) : ∃ a, x = .ok a ∧ f a = .ok b := by
  cases x with
  | error e => cases h
  | ok a => exact ⟨a, rfl, h⟩

variable {bytes : ByteArray} {path : Path} {disk : Disk} {t : Path}

theorem Disk.exists_modify_of_write {d d' : Disk}
    (h : d.write path bytes = .ok d') : ∃ here, d' = d.modify (Node.put (.file bytes) here) := by
  rw [write] at h
  obtain ⟨here, -, hput⟩ := bind_eq_ok h
  split at hput
  · cases hput
  · obtain ⟨there, -, he⟩ := bind_eq_ok hput
    exact ⟨there, (Except.ok.inj he).symm⟩
  · exact ⟨here, (Except.ok.inj hput).symm⟩

theorem Disk.exists_modify_of_writeTemp {d d' : Disk} (h : d.writeTemp bytes = .ok (path, d')) :
    ∃ here, d' = { d.modify (Node.put (.file bytes) here) with made := d.made + 1 } := by
  rw [writeTemp] at h
  obtain ⟨d'', hwrite, he⟩ := bind_eq_ok h
  obtain ⟨here, rfl⟩ := exists_modify_of_write hwrite
  exact ⟨here, (Prod.mk.inj (Except.ok.inj he)).2.symm⟩

theorem Disk.canonical?_eq_some (h : disk.canonical? t = some path) : disk.canonical t = .ok path := by
  cases hc : disk.canonical t with
  | ok q | error e => simp_all [Disk.canonical?, Except.toOption]

theorem Disk.canonical?_eq_none (h : disk.canonical? t = none) : ∃ e, disk.canonical t = .error e := by
  cases hc : disk.canonical t with
  | ok q => simp_all [Disk.canonical?, Except.toOption]
  | error e => exact ⟨e, rfl⟩

namespace Manifest

variable [Digest] {disk : Disk} {classifier : Classifier} {t t' path : Path} {m : Manifest} {s : Source}

omit [Digest] in
theorem source_found (h : disk.canonical? t = some path) : source disk t = Source.read disk path := by
  simp only [source, Disk.canonical?_eq_some h]

omit [Digest] in
theorem source_absent (h : disk.canonical? t = none) : source disk t = .ok (.absent t) := by
  obtain ⟨e, he⟩ := Disk.canonical?_eq_none h
  simp only [source, he]

omit [Digest] in
theorem missing_of_read (h : Source.read disk path = .ok s) : s.missing = false := by
  rw [Source.read] at h
  split at h
  · cases h
    rfl
  · cases h

theorem missing_of_ofSource (h : ofSource disk classifier s = .ok m) : m.missing = s.missing := by
  simp only [ofSource] at h
  split at h
  · cases h
  · obtain ⟨roots, -, h⟩ := bind_eq_ok h
    cases h
    rfl
  · cases h

omit [Digest] in
theorem ofText?_braces : Json.Lenient.ofText? "\x7b\x7d" = some (.obj []) := by
  rfl

def absent (t : Path) : Manifest :=
  { path := t.normalize
    rootFiles := []
    references := []
    compilerOptions := .obj []
    missing := true
    fingerprint := fingerprintText (fingerprintSource "\x7b\x7d" (.obj []) []) }

theorem resolve_absent (h : disk.canonical? t = none) : resolve disk classifier t = .ok (absent t) := by
  have hempty : Json.Lenient.ofText? (Source.absent t).text = some (.obj []) := ofText?_braces
  rw [resolve, source_absent h]
  show ofSource disk classifier _ = _
  rw [ofSource, hempty]
  rfl

theorem missing_of_resolve (h : resolve disk classifier t = .ok m) : m.missing = (disk.canonical? t).isNone := by
  obtain ⟨s, hs, hm⟩ := bind_eq_ok h
  rw [missing_of_ofSource hm]
  cases hc : disk.canonical? t with
  | none =>
    rw [source_absent hc] at hs
    cases hs
    rfl
  | some path =>
    rw [source_found hc] at hs
    exact missing_of_read hs

end Manifest

namespace Program

variable [Digest]

def ofFile (disk : Disk) (classifier : Classifier) (tsconfig : Path) :
    Except AnalysisError Program := do
  let manifest ← Manifest.resolve disk classifier tsconfig
  build disk manifest

omit [Digest] in
/-- Two programs are the same to whoever analyzes files with them. -/
structure SameContent (p q : Program) : Prop where
  rootFiles : p.manifest.rootFiles = q.manifest.rootFiles
  hashes : p.hashes = q.hashes
  missing : p.manifest.missing = q.manifest.missing

variable {disk : Disk} {classifier : Classifier} {t t' path : Path} {p : Program}

theorem ofFile_congr (h : disk.canonical? t = some path) (h' : disk.canonical? t' = some path) :
    ofFile disk classifier t = ofFile disk classifier t' := by
  rw [ofFile, ofFile, Manifest.resolve, Manifest.resolve, Manifest.source_found h, Manifest.source_found h']

theorem ofFile_absent (h : disk.canonical? t = none) : ofFile disk classifier t =
      .ok { id := programId t.normalize, manifest := Manifest.absent t, hashes := [] } := by
  rw [ofFile, Manifest.resolve_absent h]
  rfl

theorem ofFile_of_no_rootFiles {s : Manifest.Source} {fields : Json.Fields}
    (hs : Manifest.source disk t = .ok s) (htext : Json.Lenient.ofText? s.text = some (.obj fields))
    (hroots : Manifest.rootFilesOf disk classifier s fields = .ok []) :
    ∃ p, ofFile disk classifier t = .ok p := by
  obtain ⟨m, hm, hnone⟩ : ∃ m, Manifest.ofSource disk classifier s = .ok m ∧ m.rootFiles = [] := by
    rw [Manifest.ofSource]
    simp only [htext, hroots]
    exact ⟨_, rfl, rfl⟩
  refine ⟨{ id := programId m.path, manifest := m, hashes := [] }, ?_⟩
  rw [ofFile, Manifest.resolve, hs]
  show (Manifest.ofSource disk classifier s >>= build disk) = _
  rw [hm]
  show build disk m = _
  rw [build, hnone]
  rfl

theorem missing_of_ofFile (h : ofFile disk classifier t = .ok p) :
    p.manifest.missing = (disk.canonical? t).isNone := by
  obtain ⟨m, hm, hb⟩ := bind_eq_ok h
  obtain ⟨hashes, -, hp⟩ := bind_eq_ok hb
  cases hp
  exact Manifest.missing_of_resolve hm

end Program

end AnalysisServer
