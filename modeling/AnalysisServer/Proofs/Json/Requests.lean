import AnalysisServer.Proofs.Json.Codecs
import AnalysisServer.Proofs.Json.Marks
import AnalysisServer.Proofs.Path.Order
import AnalysisServer.Request

namespace AnalysisServer

open List

open Json (Codec lookup_cons_eq_ite lookup_optionalField)

variable (filler : Json.Filler)

theorem ChangeKind.codec : Codec (fun k : ChangeKind ↦ .str k.word) (Json.word? filler ChangeKind.words) :=
  .word filler fun k ↦ by cases k <;> rfl

theorem FileEvent.codec : Codec FileEvent.toJson (FileEvent.ofJson? filler) where
  read_write e := by
    simp [toJson, ofJson?, Path.codec.read_write, (ChangeKind.codec filler).read_write]
  ne_null _ := nofun

theorem AnalysisMode.codec : Codec (fun m : AnalysisMode ↦ .str m.word) (Json.word? filler AnalysisMode.words) :=
  .word filler fun m ↦ by cases m <;> rfl

theorem Configuration.codec : Codec Configuration.toJson (Configuration.ofJson? filler) where
  read_write c := by
    rw [toJson, ofJson?, Json.record?, Option.bind_eq_bind, Option.bind_some]
    -- The binds of the other fields stay folded, as simp goes through all that follows an open one twice.
    simp only [lookup_cons_eq_ite, String.reduceEq, ↓reduceIte, Path.codec.optional, Codec.bool.withDefault,
      Codec.strings.withDefault, Codec.uint64.withDefault, (FileEvent.codec filler).list.withDefault]
    rfl
  ne_null _ := nofun

namespace Rule

theorem ofJson?_toJson_eq_some_iff (r : Rule) :
    ofJson? filler r.toJson = some r ↔ ∀ j ∈ r.configurations, j.isUnmarked := by
  obtain ⟨key, configurations, targets, language, modes⟩ := r
  have hself : configurations.mapM Json.any? = some configurations ↔ ∀ j ∈ configurations, j.isUnmarked := by
    simpa [Json.any?_eq_self_iff] using Json.mapM_map_eq_some_iff (f := id) (g := Json.any?)
  have hread : Json.withDefault [] (Json.listOf Json.any?) (some (.arr configurations)) =
      configurations.mapM Json.any? := rfl
  simp [toJson, ofJson?, Json.record?, lookup_cons_eq_ite, Codec.str.required, hread, hself,
    (FileType.codec filler).list.withDefault, (Language.codec filler).optional,
    (AnalysisMode.codec filler).list.withDefault, Option.bind_eq_some_iff]

theorem listOf_ofJson?_eq_some_iff (rules : List Rule) :
    Json.withDefault [] (Json.listOf (ofJson? filler)) (some (Json.ofList toJson rules)) = some rules ↔
      ∀ j ∈ rules.flatMap configurations, j.isUnmarked := by
  rw [forall_mem_flatMap, Json.withDefault, Json.ofList, Json.listOf, Json.mapM_map_eq_some_iff]
  simp only [ofJson?_toJson_eq_some_iff]

end Rule

theorem Linter.ofJson?_toJson_eq_some_iff (l : Linter) :
    ofJson? filler l.toJson = some l ↔ ∀ j ∈ l.rules.flatMap Rule.configurations, j.isUnmarked := by
  rw [← Rule.listOf_ofJson?_eq_some_iff filler]
  obtain ⟨baseDir, rules, environments, globals, sonarlint, bundles⟩ := l
  simp [toJson, ofJson?, Json.record?, lookup_cons_eq_ite, Path.codec.required,
    Codec.strings.withDefault, Codec.bool.withDefault, Path.codec.list.withDefault,
    Option.bind_eq_some_iff]

theorem FileInput.codec : Codec FileInput.toJson (FileInput.ofJson? filler) where
  read_write i := by
    simp [toJson, ofJson?, Json.record?, lookup_cons_eq_ite, Path.codec.required, Codec.str.optional,
      (FileType.codec filler).withDefault, (Language.codec filler).optional, Path.codec.list.withDefault,
      Codec.bool.withDefault]
  ne_null _ := nofun

theorem ProjectFile.codec : Codec ProjectFile.toJson (ProjectFile.ofJson? filler) where
  read_write f := by
    simp [toJson, ofJson?, Json.record?, lookup_cons_eq_ite, Codec.str.optional,
      (FileType.codec filler).withDefault, (Language.codec filler).optional]
  ne_null _ := nofun

namespace ProjectFiles

theorem mapM_eq_filterMap {α β : Type} {f : α → Option β} {as : List α} (h : ∀ a ∈ as, (f a).isSome) :
    as.mapM f = some (as.filterMap f) := by
  induction as with
  | nil => rfl
  | cons a as ih =>
    obtain ⟨b, hb⟩ := Option.isSome_iff_exists.mp (h a (.head _))
    rw [mapM_cons, hb, ih fun a' ha' ↦ h a' (.tail _ ha'), filterMap_cons_some hb]
    rfl

def toField (e : Path × ProjectFile) : String × Json :=
  (e.1.text, e.2.toJson)

def ofField? (f : String × Json) : Option (Path × ProjectFile) :=
  (ProjectFile.ofJson? filler f.2).map fun v ↦ (Path.mk f.1, v)

theorem ofField?_toField (e : Path × ProjectFile) : ofField? filler (toField e) = some e := by
  rw [ofField?, toField, (ProjectFile.codec filler).read_write, Option.map_some]

theorem filterMap_toField (files : ProjectFiles) : (files.map toField).filterMap (ofField? filler) = files := by
  have hback : ofField? filler ∘ toField = some := funext (ofField?_toField filler)
  rw [filterMap_map, hback, filterMap_some]

variable {files : ProjectFiles}

theorem nodup_names (h : PathMap.Ascending files) : ((files.map toField).map Prod.fst).Nodup := by
  rw [nodup_iff_pairwise_ne, pairwise_map, pairwise_map]
  refine h.imp fun hlt heq ↦ ?_
  have happart := Path.not_same_iff.mp (PathMap.not_same_of_order hlt)
  exact happart (congrArg (fun text ↦ Path.components ⟨text⟩) heq)

theorem ofJson?_toJson (h : PathMap.Ascending files) : ofJson? filler (toJson files) = some files := by
  obtain ⟨fields, hfields, hperm⟩ := Json.exists_ofFields (nodup_names h)
  have hall (f : String × Json) (hf : f ∈ fields) : (ofField? filler f).isSome := by
    obtain ⟨e, -, rfl⟩ := mem_map.mp (hperm.subset hf)
    rw [ofField?_toField]
    rfl
  have hentries : (fields.filterMap (ofField? filler)).Perm files :=
    (hperm.filterMap _).trans (.of_eq (filterMap_toField filler files))
  show ofJson? filler (Json.ofFields (files.map toField)) = some files
  rw [hfields]
  show ((fields.mapM (ofField? filler)).bind fun entries ↦ some (PathMap.ofList entries)) = some files
  rw [mapM_eq_filterMap hall, Option.bind_some, PathMap.ofList_eq_of_perm h hentries]

end ProjectFiles

def ProjectInput.InOrder (i : ProjectInput) : Prop :=
  ∀ files, i.files = some files → PathMap.Ascending files

theorem ProjectInput.ofJson?_toJson_eq_some_iff {i : ProjectInput} (h : i.InOrder) :
    ofJson? filler i.toJson = some i ↔ ∀ j ∈ i.rules.flatMap Rule.configurations, j.isUnmarked := by
  have hfiles : Json.optional (ProjectFiles.ofJson? filler)
      (some (Json.ofOption ProjectFiles.toJson i.files)) = some i.files := by
    cases hf : i.files with
    | none => rfl
    | some files => exact congrArg (Option.map some) (ProjectFiles.ofJson?_toJson filler (h files hf))
  rw [← Rule.listOf_ofJson?_eq_some_iff filler]
  obtain ⟨configuration, files, rules, bundles⟩ := i
  simp [toJson, ofJson?, Json.record?, lookup_cons_eq_ite, hfiles, (Configuration.codec filler).withDefault,
    Path.codec.list.withDefault, Option.bind_eq_some_iff]

namespace Request

/-- A request whose files, if it lists any, are a map: in their order, and each path once. -/
def InOrder : Request → Prop
  | analyzeProject i => i.InOrder
  | _ => True

def values : Request → List Json
  | initLinter l => l.rules.flatMap Rule.configurations
  | analyzeProject i => i.rules.flatMap Rule.configurations
  | createTsConfigFile content => [content]
  | _ => []

theorem lookup_kind (k : RequestKind) : RequestKind.words.lookup k.word = some k := by
  cases k <;> rfl

variable {r : Request}

theorem ofData?_data_eq_some_iff (h : r.InOrder) :
    ofData? filler r.kind r.data = some r ↔ ∀ j ∈ r.values, j.isUnmarked := by
  cases r with
  | initLinter l =>
    rw [values, ← Linter.ofJson?_toJson_eq_some_iff filler]
    simp [kind, data, ofData?]
  | analyzeProject i =>
    rw [values, ← ProjectInput.ofJson?_toJson_eq_some_iff filler h]
    simp [kind, data, ofData?]
  | createTsConfigFile content => simp [kind, data, ofData?, values, ← Json.any?_eq_self_iff]
  | analyzeJsTs i | analyzeCss i | analyzeHtml i | analyzeYaml i =>
    simp [kind, data, ofData?, values, (FileInput.codec filler).read_write]
  | createProgram | deleteProgram | tsConfigFiles | newTsConfig => exact iff_of_true rfl nofun

theorem fields_toEnvelope (r : Request) :
    let fields : Json.Fields := Json.optionalField "data" id r.data ++ [("type", Json.str r.kind.word)]
    r.toEnvelope = .obj fields ∧ fields.lookup "type" = some (.str r.kind.word) ∧ fields.lookup "data" = r.data := by
  refine ⟨rfl, ?_, ?_⟩
  · simp [lookup_append, lookup_optionalField]
  · simp [lookup_append, lookup_optionalField, lookup_cons_eq_ite]

theorem ofEnvelope_eq_ok_iff {j : Json} : ofEnvelope j = .ok r ↔ ofEnvelope? j = some r := by
  rw [ofEnvelope]
  cases ofEnvelope? j <;> simp

/-- An envelope gives back the request that was put into it, unless a value in it has a marked object. -/
theorem envelope_reads_back_iff (r : Request) (h : r.InOrder) :
    ofEnvelope r.toEnvelope = .ok r ↔ ∀ j ∈ r.values, j.isUnmarked := by
  obtain ⟨hfields, hkind, hdata⟩ := fields_toEnvelope r
  rw [ofEnvelope_eq_ok_iff, hfields, ofEnvelope?, hkind, hdata, Json.required, Json.word?, lookup_kind]
  exact ofData?_data_eq_some_iff _ h

def dottedListing : Request :=
  .analyzeProject
    { configuration :=
        { baseDir := some ⟨"/p"⟩, maxFileSize := 0, fsEvents := [⟨⟨"/p/a.b.js"⟩, .deleted⟩] }
      files := some [(⟨"/p/a/b.js"⟩, { content := some "a" }), (⟨"/p/a.b.js"⟩, { fileType := .test })]
      rules := [{ key := "k", configurations := [.null], language := some .ts }] }

theorem envelope_reads_back_dottedListing :
    dottedListing.InOrder ∧ (ofEnvelope dottedListing.toEnvelope = .ok dottedListing ↔
      ∀ j ∈ dottedListing.values, j.isUnmarked) := by
  have hordered : dottedListing.InOrder := by
    intro files hfiles
    cases hfiles
    refine pairwise_cons.mpr ⟨fun e he ↦ ?_, pairwise_singleton _ _⟩
    obtain rfl := mem_singleton.mp he
    decide +kernel
  exact ⟨hordered, envelope_reads_back_iff _ hordered⟩

def markedConfig : Request :=
  .createTsConfigFile (.obj [(Json.textMark, .str "1"), ("a", .num (.int 1))])

theorem marked_envelope_refused : markedConfig.InOrder ∧ ofEnvelope markedConfig.toEnvelope = .error invalid :=
  ⟨trivial, rfl⟩

end Request

end AnalysisServer
