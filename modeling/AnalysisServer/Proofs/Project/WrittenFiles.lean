import AnalysisServer.Proofs.Disk.Temporaries
import AnalysisServer.Proofs.Json.WideText
import AnalysisServer.Proofs.Session.Beginnings

namespace AnalysisServer

open AnalysisServer.Path (IsName ofNames)

namespace Disk

def Reaches (d : Disk) (dir : Path) (name : String) : Prop :=
  d.isDir dir = true ∧ fault? dir [name] = none

/-- The next temporary file can be written, and found both by its path and by its clean path. -/
structure TakesTemp (d : Disk) : Prop where
  absolute : d.temp.isAbsolute = true
  free : d.temporary? d.made = none
  reached : d.Reaches d.temp (tempName d.made)
  clean : ∀ c, d.canonical? d.temp = some c → d.Reaches c (tempName d.made)

section Writing

variable {d d' : Disk} {p base : Path} {x dir loc : Location} {s : String} {bytes : ByteArray}

theorem exists_dir_of_isDir (h : d.isDir p = true) :
    ∃ dir es, d.locate p = .ok dir ∧ d.root.get? dir = some (.dir es) := by
  unfold isDir at h
  split at h
  · rename_i n hn
    obtain ⟨dir, hlocate, hget⟩ := exists_locate hn
    cases n with
    | dir es => exact ⟨dir, es, hlocate, hget⟩
    | _ => cases h
  · cases h

theorem locate_sameBut (hsame : d.root.SameBut x d'.root) (hx : IsFileOrNone (d.root.get? x))
    (hcurrent : d'.current = d.current) (h : d.locate p = .ok loc) (hloc : loc ≠ x) :
    d'.locate p = .ok loc := by
  obtain ⟨hempty, hfollow⟩ := follow_of_locate h
  apply locate_of_prefix h List.prefix_rfl hempty
  rw [hcurrent]
  exact follow_sameBut hsame hx hfollow hloc

structure Gains (d : Disk) (dir : Location) (s : String) (bytes : ByteArray) (d' : Disk) : Prop where
  current : d'.current = d.current
  parent : ∃ es, d.root.get? dir = some (.dir es)
  free : d.root.get? (dir ++ [s]) = none
  root : d'.root = Node.put (.file bytes) (dir ++ [s]) d.root

namespace Gains

variable (h : d.Gains dir s bytes d')

include h

theorem sameBut : d.root.SameBut (dir ++ [s]) d'.root := by
  obtain ⟨es, hdir⟩ := h.parent
  rw [h.root]
  exact Node.sameBut_put hdir (by rw [h.free]; nofun) (by nofun) _

theorem isFileOrNone : IsFileOrNone (d.root.get? (dir ++ [s])) := by
  rw [h.free]
  nofun

theorem get? : d'.root.get? (dir ++ [s]) = some (.file bytes) := by
  rw [h.root]
  exact Node.get?_put_self _ _ _

theorem locate_joinName (hbase : d.locate base = .ok dir) (hs : IsName s) (hfault : fault? base [s] = none) :
    d'.locate (base.joinName s) = .ok (dir ++ [s]) := by
  obtain ⟨es, hdir⟩ := h.parent
  obtain ⟨es', hdir'⟩ := dir_sameBut h.sameBut h.isFileOrNone hdir
  have hbase' := locate_sameBut h.sameBut h.isFileOrNone h.current hbase (by simp)
  have hentry : (Node.dir es').get? [s] = some (.file bytes) := by
    rw [← h.get?, Node.get?_append, hdir', Option.bind_some]
  have hlocate := locate_pathBelow hbase' hdir' (by simpa using hs) (List.cons_ne_nil _ _) hentry (by nofun)
  rwa [hfault] at hlocate

end Gains

namespace TakesTemp

variable (h : d.TakesTemp)

include h

theorem exists_gains (bytes : ByteArray) : ∃ dir d', d.locate d.temp = .ok dir ∧
    d.writeTemp bytes = .ok (d.temp.joinName (tempName d.made), d') ∧
    d.Gains dir (tempName d.made) bytes d' := by
  obtain ⟨dir, es, hlocate, hdir⟩ := exists_dir_of_isDir h.reached.1
  have htrimmed := locate_trimmed h.absolute hlocate
  have hfree := h.free
  rw [temporary?_of_locate h.absolute htrimmed] at hfree
  refine ⟨dir, { d.modify (Node.put (.file bytes) (dir ++ [tempName d.made])) with made := d.made + 1 },
    hlocate, ?_, rfl, ⟨es, hdir⟩, hfree, rfl⟩
  rw [writeTemp, write, place_joinName d h.absolute (isName_tempName _), htrimmed]
  simp only [bind, Except.bind, hfree]
  rfl

theorem isPlace_temp (hlocate : d.locate d.temp = .ok dir) : IsPlace d.root dir := by
  obtain ⟨hempty, hfollow⟩ := follow_of_locate hlocate
  rw [if_pos h.absolute] at hfollow
  refine follow_isPlace hfollow (fun s hs ↦ isStep_of_mem_steps hs) nofun fun hnil ↦ ?_
  exact absurd hnil (steps_ne_nil hempty)

theorem read_writeTemp (bytes : ByteArray) : ∃ c d', d.writeTemp bytes = .ok (d.temp.joinName (tempName d.made), d') ∧
    d'.canonical? (d.temp.joinName (tempName d.made)) = some c ∧ d'.read c = .ok bytes := by
  obtain ⟨dir, d', hlocate, hwrite, hgains⟩ := h.exists_gains bytes
  have hplace := h.isPlace_temp hlocate
  have hname := isName_tempName d.made
  obtain ⟨hisDir, hfault⟩ := h.clean (ofNames true dir) (by rw [canonical?, canonical, hlocate]; rfl)
  have hclean : d.locate (ofNames true dir) = .ok dir := by
    obtain ⟨dir', _, hdir', -⟩ := exists_dir_of_isDir hisDir
    rw [hdir', locate_ofNames hplace hdir']
  have hfile := hgains.locate_joinName hclean hname hfault
  rw [Path.joinName_ofNames hplace.names hname] at hfile
  refine ⟨ofNames true (dir ++ [tempName d.made]), d', hwrite, ?_, ?_⟩
  · rw [canonical?, canonical, hgains.locate_joinName hlocate hname h.reached.2]
    rfl
  · simp only [read, node, hfile, bind, Except.bind, hgains.get?]

end TakesTemp

end Writing

end Disk

namespace Manifest

def told (disk : Disk) (classifier : Classifier) (dir : Path) (fields : Json.Fields) :
    Except AnalysisError (List Path × List Path × Json) :=
  (resolveRootFiles disk classifier dir fields).map fun rootFiles ↦
    (rootFiles, resolveReferences disk dir fields, (fields.lookup "compilerOptions").getD (.obj []))

def said (m : Manifest) : List Path × List Path × Json :=
  (m.rootFiles, m.references, m.compilerOptions)

variable [Digest] {disk : Disk} {classifier : Classifier} {t c : Path} {fields : Json.Fields}

/-- A project file says what the given fields say, to whoever resolves it and to whoever gets a program
that is built for it. -/
def IsReadAs (disk : Disk) (t : Path) (fields : Json.Fields) : Prop :=
  ∃ c, disk.canonical? t = some c ∧ ∀ classifier,
    (resolve disk classifier t).map said = told disk classifier (c.parent?.getD ⟨""⟩) fields ∧
    ∀ (r : Registry) (handle : ProgramHandle), r.cache.Sound → r.cache.peek? c none = none →
      (r.getOrCreate disk classifier t).1 = .ok handle →
      told disk classifier (c.parent?.getD ⟨""⟩) fields = .ok handle.program.manifest.said

theorem resolve_of_read (classifier : Classifier) (hc : disk.canonical? t = some c) {text : String}
    (hread : disk.read c = .ok text.toUTF8) (htext : Json.Lenient.ofText? text = some (.obj fields)) :
    (resolve disk classifier t).map said = told disk classifier (c.parent?.getD ⟨""⟩) fields := by
  have hsource : source disk t = .ok ⟨c, text, false⟩ := by
    rw [source_found hc, Source.read, Disk.readText_toUTF8 hread]
  rw [resolve, hsource]
  simp only [bind, Except.bind, ofSource, htext, rootFilesOf, Source.dir, told]
  cases resolveRootFiles disk classifier (c.parent?.getD ⟨""⟩) fields <;> rfl

theorem manifest_of_ofFile {p : Program} (h : Program.ofFile disk classifier t = .ok p) :
    resolve disk classifier t = .ok p.manifest := by
  obtain ⟨m, hm, hbuild⟩ := bind_eq_ok h
  obtain ⟨hashes, -, hp⟩ := bind_eq_ok hbuild
  cases hp
  exact hm

theorem isReadAs_of_read (hv : (Json.obj fields).IsExact) (hc : disk.canonical? t = some c)
    (hread : disk.read c = .ok (Json.obj fields).pretty.toUTF8) : IsReadAs disk t fields := by
  have hresolve (classifier : Classifier) :=
    resolve_of_read classifier hc hread (Json.Lenient.ofText?_pretty hv)
  refine ⟨c, hc, fun classifier ↦ ⟨hresolve classifier, fun r handle _ hpeek hget ↦ ?_⟩⟩
  have hspec := r.program_getOrCreate disk classifier t
  rw [Registry.programKey_found hc, hpeek, hget] at hspec
  rw [← hresolve classifier, manifest_of_ofFile hspec.symm]
  rfl

end Manifest

section Writers

variable [Digest] {d : Disk} {fields : Json.Fields}

omit [Digest] in
theorem writeTsConfig_of_writeTemp {tsconfig : Json} {r : Path × Disk}
    (h : d.writeTemp tsconfig.pretty.toUTF8 = .ok r) : writeTsConfig d tsconfig = .ok r := by
  unfold writeTsConfig
  rw [h]

theorem isReadAs_writeTsConfig (hd : d.TakesTemp) (hv : (Json.obj fields).IsExact) :
    ∃ path d', writeTsConfig d (.obj fields) = .ok (path, d') ∧ Manifest.IsReadAs d' path fields := by
  obtain ⟨c, d', hwrite, hc, hread⟩ := hd.read_writeTemp (Json.obj fields).pretty.toUTF8
  exact ⟨_, d', writeTsConfig_of_writeTemp hwrite, Manifest.isReadAs_of_read hv hc hread⟩

omit [Digest] in
theorem Json.isExact_strings (ss : List String) : (Json.strings ss).IsExact := by
  have hitems : Json.ExactItems (ss.map .str) := by
    induction ss with
    | nil => trivial
    | cons s ss ih => exact ⟨trivial, ih⟩
  exact hitems

omit [Digest] in
theorem exists_fields_tsConfigObject (files patterns : Option (List String)) :
    ∃ fields, tsConfigObject files patterns = .obj fields ∧ (Json.obj fields).IsExact := by
  have hoptions : (Json.obj [("allowJs", .bool true), ("noImplicitAny", .bool true)]).IsExact :=
    ⟨by decide, trivial, trivial, trivial⟩
  refine ⟨_, rfl, ?_⟩
  cases files with
  | none =>
    cases patterns with
    | none => exact ⟨List.pairwise_singleton _ _, hoptions, trivial⟩
    | some patterns =>
      have hnames : ["compilerOptions", "include"].Pairwise (· < ·) := by decide
      exact ⟨List.pairwise_map.mp hnames, hoptions, Json.isExact_strings _, trivial⟩
  | some files =>
    cases patterns with
    | none =>
      have hnames : ["compilerOptions", "files"].Pairwise (· < ·) := by decide
      exact ⟨List.pairwise_map.mp hnames, hoptions, Json.isExact_strings _, trivial⟩
    | some patterns =>
      have hnames : ["compilerOptions", "files", "include"].Pairwise (· < ·) := by decide
      exact ⟨List.pairwise_map.mp hnames, hoptions, Json.isExact_strings _, Json.isExact_strings _, trivial⟩

variable {σ : Type}

theorem Session.begin_createTsConfigFile {w : Workspace σ} {content : Json} {path : Path} {d' : Disk}
    (hobj : content.obj?.isNone = false) (h : writeTsConfig w.disk content = .ok (path, d'))
    (engine : RuleEngine σ) (streaming : Bool) :
    begin engine (.createTsConfigFile content) streaming w = (.done (.ok (.tsConfigFile path)),
      ⟨{ w.session with temporary := w.session.temporary ++ [path] }, d'⟩) := by
  unfold begin
  rw [start_createTsConfigFile, Action.run_bind, createTsConfigFile_run, if_neg (by rw [hobj]; decide), h]
  rfl

theorem Session.isReadAs_createTsConfigFile {w : Workspace σ} (hd : w.disk.TakesTemp)
    (hv : (Json.obj fields).IsExact) (engine : RuleEngine σ) (streaming : Bool) : ∃ path w',
    begin engine (.createTsConfigFile (.obj fields)) streaming w = (.done (.ok (.tsConfigFile path)), w') ∧
      Manifest.IsReadAs w'.disk path fields := by
  obtain ⟨path, d', hwrite, hreadAs⟩ := isReadAs_writeTsConfig hd hv
  exact ⟨path, _, begin_createTsConfigFile rfl hwrite engine streaming, hreadAs⟩

theorem TsConfigStore.isReadAs_writeFallback {ctx : DiscoveryContext} {s : TsConfigStore} {tsconfig : Json}
    (hd : d.TakesTemp) (h : fallbackObject? ctx s = some tsconfig) : ∃ fields path s' d',
    tsconfig = .obj fields ∧ writeFallback ctx s d = .ok (s', d') ∧ s'.paths = [path] ∧
      Manifest.IsReadAs d' path fields := by
  obtain ⟨fields, rfl, hv⟩ : ∃ fields, tsconfig = .obj fields ∧ (Json.obj fields).IsExact := by
    unfold fallbackObject? at h
    split at h
    · split at h
      · cases h
      · cases h
        exact exists_fields_tsConfigObject _ _
    · cases h
      exact exists_fields_tsConfigObject _ _
  obtain ⟨path, d', hwrite, hreadAs⟩ := isReadAs_writeTsConfig hd hv
  refine ⟨fields, path, { s with origin := some .fallback, paths := [path], fallback := some path }, d', rfl, ?_,
    rfl, hreadAs⟩
  unfold writeFallback
  rw [h]
  simp only [hwrite]

/-- Written project files are read as they were written. The text of any object with integers of 64 bits
is read as that object. So a project file that is asked for says what it was asked to say, and a project
that has none gets one that says what it should. -/
theorem written_projectFile_isReadAs : (∀ fields, (Json.obj fields).IsExact →
      Json.Lenient.ofText? (Json.obj fields).pretty = some (.obj fields) ∧
      ∀ (engine : RuleEngine σ) (streaming : Bool) (w : Workspace σ), w.disk.TakesTemp → ∃ path w',
        Session.begin engine (.createTsConfigFile (.obj fields)) streaming w =
          (.done (.ok (.tsConfigFile path)), w') ∧
        Manifest.IsReadAs w'.disk path fields) ∧
    ∀ (ctx : DiscoveryContext) (s : TsConfigStore) (d : Disk) (tsconfig : Json), d.TakesTemp →
      TsConfigStore.fallbackObject? ctx s = some tsconfig → ∃ fields path s' d',
        tsconfig = .obj fields ∧ TsConfigStore.writeFallback ctx s d = .ok (s', d') ∧ s'.paths = [path] ∧
        Manifest.IsReadAs d' path fields :=
  ⟨fun _ hv ↦ ⟨Json.Lenient.ofText?_pretty hv, fun engine streaming _ hd ↦
      Session.isReadAs_createTsConfigFile hd hv engine streaming⟩,
    fun _ _ _ _ hd h ↦ TsConfigStore.isReadAs_writeFallback hd h⟩

end Writers

section Odd

def oddFields : Json.Fields :=
  [("compilerOptions", .obj [("", .arr []), ("\x00\"\\\n//*", .arr [.num (.int (-9223372036854775808)), .obj []])]),
    ("files", .arr []), ("include", .num (.int 18446744073709551615))]

theorem isExact_oddFields : (Json.obj oddFields).IsExact := by
  have hnames : ["compilerOptions", "files", "include"].Pairwise (· < ·) := by decide
  have hoptions : ["", "\x00\"\\\n//*"].Pairwise (· < ·) := by decide
  have hleast : Json.IsWord (.int (-9223372036854775808)) := ⟨by decide, by decide⟩
  have hgreatest : Json.IsWord (.int 18446744073709551615) := ⟨by decide, by decide⟩
  exact ⟨List.pairwise_map.mp hnames,
    ⟨List.pairwise_map.mp hoptions, trivial, ⟨hleast, ⟨List.Pairwise.nil, trivial⟩, trivial⟩, trivial⟩, trivial,
    hgreatest, trivial⟩

def tempOnly : Disk :=
  { root := .dir [("tmp", .dir [])] }

theorem takesTemp_tempOnly : tempOnly.TakesTemp := by
  have hreached : tempOnly.Reaches ⟨"/tmp"⟩ (Disk.tempName 0) :=
    ⟨by decide +kernel, by decide +kernel⟩
  refine ⟨by decide, by decide +kernel, hreached, fun c hc ↦ ?_⟩
  have hclean : tempOnly.canonical? ⟨"/tmp"⟩ = some ⟨"/tmp"⟩ := by decide +kernel
  cases hclean.symm.trans hc
  exact hreached

theorem written_projectFile_isReadAs_odd : let _ : Digest := sizeDigest
    (Json.obj oddFields).IsExact ∧ tempOnly.TakesTemp ∧
    Json.Lenient.ofText? (Json.obj oddFields).pretty = some (.obj oddFields) ∧
    (∃ path w', Session.begin .silent (.createTsConfigFile (.obj oddFields)) false
        ⟨Session.fresh .silent {}, tempOnly⟩ = (.done (.ok (.tsConfigFile path)), w') ∧
      Manifest.IsReadAs w'.disk path oddFields) ∧
    ∃ fields path s' d', tsConfigObject (some []) none = .obj fields ∧
      TsConfigStore.writeFallback { baseDir := ⟨"/p"⟩, config := {} } {} tempOnly = .ok (s', d') ∧
      s'.paths = [path] ∧ Manifest.IsReadAs d' path fields := by
  let _ : Digest := sizeDigest
  obtain ⟨hasked, hfallback⟩ := @written_projectFile_isReadAs _ (List Path)
  obtain ⟨htext, hbegin⟩ := hasked oddFields isExact_oddFields
  exact ⟨isExact_oddFields, takesTemp_tempOnly, htext,
    hbegin .silent false ⟨Session.fresh .silent {}, tempOnly⟩ takesTemp_tempOnly,
    hfallback _ _ _ _ takesTemp_tempOnly rfl⟩

end Odd

end AnalysisServer
