import AnalysisServer.Proofs.Session.Singles

namespace AnalysisServer

open List

theorem Configuration.maxFileBytes_pos_iff (c : Configuration) : 0 < c.maxFileBytes ↔ c.maxFileSize ≠ 0 := by
  have hzero : c.maxFileSize = 0 ↔ c.maxFileSize.toNat = 0 := UInt64.toNat_inj.symm
  rw [maxFileBytes, UInt64.size, Ne, hzero]
  omega

theorem SourceStore.skipped_scan [Digest] (ctx : DiscoveryContext) (disk : Disk) :
    (scan ctx disk).skipped = (ctx.walked disk).filter (isTooBig ctx disk) := by
  show (fed ctx disk (ctx.walked disk) {}).tooBig.reverse = _
  rw [fed_eq]
  simp

namespace Session

variable {σ : Type} {engine : RuleEngine σ} {run : ProjectRun} {w w' : Workspace σ} {a : Advance}
  {sent parts : List Partial} {o : ProjectOutput}

def isPassedOver (c : Configuration) (disk : Disk) (r : FileRecord) : Bool :=
  match contentOf c r disk with
  | .ok none => true
  | _ => false

theorem isPassedOver_iff {c : Configuration} {disk : Disk} {r : FileRecord} {bytes : ByteArray} (hr : r.content = none)
    (hfile : disk.node r.path = .ok (.file bytes)) :
    isPassedOver c disk r = true ↔ 0 < c.maxFileBytes ∧ c.maxFileBytes < bytes.size := by
  have hsize : sizeOf disk r.path = .ok bytes.size := by rw [sizeOf, hfile]
  rw [isPassedOver, contentOf, hr]
  dsimp only
  rw [readBounded, hsize]
  dsimp only
  split
  · rename_i h
    split at h
    · rename_i hbig
      exact ⟨fun _ ↦ hbig, fun _ ↦ rfl⟩
    · cases hread : readFile disk r.path <;> rw [hread] at h <;> cases h
  · rename_i h
    split at h
    · exact absurd rfl h
    · rename_i hsmall
      exact ⟨fun h ↦ absurd h Bool.false_ne_true, fun h ↦ absurd h hsmall⟩

def outlook (disk : Disk) (run : ProjectRun) : List Path :=
  run.output.summary.filesAnalyzed ++ run.current.toList.map SourceUnit.path ++
    (run.todo.filter fun r ↦ !isPassedOver run.configuration disk r).map FileRecord.path

theorem outlook_deliver (disk : Disk) (todo : List FileRecord) (p : Path) (result : FileResult) :
    outlook disk ((run.onTo todo).deliver p result).1 = run.output.summary.filesAnalyzed ++ [p] ++
      (todo.filter fun r ↦ !isPassedOver run.configuration disk r).map FileRecord.path := by
  unfold ProjectRun.deliver
  split <;> simp [outlook, ProjectRun.onTo]

theorem outlook_next {r : FileRecord} {rest : List FileRecord} (disk : Disk) (hc : run.current = none)
    (ht : run.todo = r :: rest) : outlook disk run = run.output.summary.filesAnalyzed ++
      (if isPassedOver run.configuration disk r then [] else [r.path]) ++
      (rest.filter fun r ↦ !isPassedOver run.configuration disk r).map FileRecord.path := by
  rw [outlook, hc, ht, filter_cons]
  cases isPassedOver run.configuration disk r <;> simp

theorem ProjectStep.keeps_outlook (h : ProjectStep engine run w a w') :
    (∃ run', a.progress = .more (.project run') ∧ outlook w.disk run' = outlook w.disk run) ∨
      (∃ o, a.progress = .done (.ok (.project o)) ∧ o.summary.filesAnalyzed = outlook w.disk run) ∨
      ∃ e, a.progress = .done (.error e) := by
  cases h with
  | ended hc ht => exact .inr (.inl ⟨_, rfl, by simp [outlook, hc, ht]⟩)
  | @enter r rest content hc ht hr =>
    refine .inl ⟨_, rfl, ?_⟩
    rw [outlook_next _ hc ht, isPassedOver, hr, enterUnit_current]
    rfl
  | @skip r rest warning hc ht hr =>
    refine .inl ⟨_, rfl, ?_⟩
    rw [outlook_next _ hc ht, isPassedOver, hr]
    rfl
  | @lose r rest e hc ht hr =>
    refine .inl ⟨_, rfl, ?_⟩
    rw [outlook_next _ hc ht, isPassedOver, hr, outlook_deliver]
    rfl
  | report hc hu =>
    refine .inl ⟨_, rfl, ?_⟩
    rw [outlook_deliver, outlook, hc]
    rfl
  | abort hc hu => exact .inr (.inr ⟨_, rfl⟩)

theorem finish_outlook {fuel : Nat} {d : Disk} (hd : w.disk = d)
    (h : finish engine fuel (.project run) w parts = (.ok (.ok (.project o)), w', sent)) :
    w'.disk = d ∧ o.summary.filesAnalyzed = outlook d run := by
  refine And.imp_right (fun h ↦ h o rfl) (finish_project
    (I := fun run' w _ ↦ w.disk = d ∧ outlook d run' = outlook d run)
    (Q := fun r w' _ ↦ w'.disk = d ∧ ∀ o, r = .project o → o.summary.filesAnalyzed = outlook d run)
    (fun ⟨hd, hrun⟩ hs ↦ ?_) ⟨hd, rfl⟩ h)
  subst hd
  obtain ⟨run', ha, hkept⟩ | ⟨o', ha, hdone⟩ | he := hs.keeps_outlook
  · exact .inl ⟨run', ha, hs.stays.disk, hkept.trans hrun⟩
  · refine .inr (.inl ⟨_, ha, hs.stays.disk, fun o ho ↦ ?_⟩)
    cases ho
    exact hdone.trans hrun
  · exact .inr (.inr he)

section Listed

variable [Digest] {input : ProjectInput} {streaming : Bool} {files : ProjectFiles}

theorem filesAnalyzed_listed (hw : w.session.stores.Tidy) (hfiles : input.files = some files)
    (hmap : files.Pairwise fun e e' ↦ e.1.same e'.1 = false)
    (h : handle engine (.analyzeProject input) streaming w = (.ok (.ok (.project o)), w', sent)) :
    o.summary.filesAnalyzed =
      ((files.filterMap fun e ↦ SourceStore.inputRecord? input.configuration.classifier e.1 e.2).filter
        fun r ↦ !isPassedOver input.configuration w'.disk r).map FileRecord.path := by
  obtain ⟨dir, w₁, run, w₀, hg, htodo, hfinish⟩ := handle_listed hw hfiles hmap h
  obtain ⟨hdisk, hanalyzed⟩ := finish_outlook rfl hfinish
  rw [hanalyzed, outlook, hg.filesAnalyzed, hg.current, hg.configuration, htodo, hdisk]
  rfl

/-- A walk and an analysis that is told of a file agree on whether it is too big just if the limit is not zero, or the
file is empty. -/
theorem limits_agree_iff {options : SessionOptions} {s : Session σ} (hs : Reachable engine options s)
    (hfiles : input.files = some files) (hmap : files.Pairwise fun e e' ↦ e.1.same e'.1 = false) {p : Path}
    {f : ProjectFile} (hf : (p, f) ∈ files) (hcontent : f.content = none)
    (hlanguage : (input.configuration.classifier.classify p none).isSome) {disk : Disk}
    (h : handle engine (.analyzeProject input) streaming ⟨s, disk⟩ = (.ok (.ok (.project o)), w, sent))
    {ctx : DiscoveryContext} (hctx : ctx.config = input.configuration) {d : Disk} (hwalked : p ∈ ctx.walked d)
    {bytes : ByteArray} (hfile : d.node p = .ok (.file bytes)) (hstays : w.disk.node p = .ok (.file bytes)) :
    (p ∈ (SourceStore.scan ctx d).skipped ↔ p ∉ o.summary.filesAnalyzed) ↔
      input.configuration.maxFileSize ≠ 0 ∨ bytes.size = 0 := by
  obtain ⟨language, hlanguage⟩ := Option.isSome_iff_exists.mp hlanguage
  have hwalk : p ∈ (SourceStore.scan ctx d).skipped ↔ input.configuration.maxFileBytes < bytes.size := by
    rw [SourceStore.skipped_scan, mem_filter, SourceStore.isTooBig, hctx, hlanguage, hfile]
    simp [hwalked]
  have hlisted : p ∉ o.summary.filesAnalyzed ↔
      0 < input.configuration.maxFileBytes ∧ input.configuration.maxFileBytes < bytes.size := by
    obtain ⟨r, hr, hp, hnone⟩ : ∃ r, SourceStore.inputRecord? input.configuration.classifier p f = some r ∧
        r.path = p ∧ r.content = none := by
      rw [SourceStore.inputRecord?, hcontent, hlanguage]
      cases f.language <;> exact ⟨_, rfl, rfl, rfl⟩
    subst hp
    have honly (r' : FileRecord) (hr' : r' ∈ files.filterMap fun e ↦
        SourceStore.inputRecord? input.configuration.classifier e.1 e.2) (hp : r'.path = r.path) : r' = r := by
      obtain ⟨⟨p', f'⟩, hmem, hrecord⟩ := mem_filterMap.mp hr'
      obtain rfl : p' = r.path := (SourceStore.path_of_inputRecord? hrecord).symm.trans hp
      have hsame := (PathMap.get?_of_mem hmap hf).symm.trans (PathMap.get?_of_mem hmap hmem)
      rw [Option.some.inj hsame] at hr
      exact Option.some.inj (hrecord.symm.trans hr)
    rw [← isPassedOver_iff hnone hstays, filesAnalyzed_listed hs.tidy hfiles hmap h, mem_map]
    refine ⟨fun hnot ↦ ?_, ?_⟩
    · cases hpassed : isPassedOver input.configuration w.disk r with
      | true => rfl
      | false =>
        refine (hnot ⟨r, mem_filter.mpr ⟨mem_filterMap.mpr ⟨_, hf, hr⟩, ?_⟩, rfl⟩).elim
        rw [hpassed]
        rfl
    · rintro hpassed ⟨r', hr', hp⟩
      obtain ⟨hmem, hkept⟩ := mem_filter.mp hr'
      rw [honly r' hmem hp, hpassed] at hkept
      cases hkept
  rw [hwalk, hlisted, ← Configuration.maxFileBytes_pos_iff]
  omega

end Listed

section Sizes

def limited (limit : UInt64) : ProjectInput :=
  { configuration :=
      { baseDir := some ⟨"/"⟩, sonarlint := true, maxFilesForTypeChecking := 0, maxFileSize := limit }
    files := some [(⟨"/a.css"⟩, {})] }

def blank : ByteArray :=
  ⟨#[32]⟩

def blankFile : Disk :=
  { root := .dir [("a.css", .file blank)] }

def isBlankFile (d : Disk) : Bool :=
  match d.node ⟨"/a.css"⟩ with
  | .ok (.file bytes) => bytes.data == blank.data
  | _ => false

theorem node_of_isBlankFile {d : Disk} (h : isBlankFile d = true) : d.node ⟨"/a.css"⟩ = .ok (.file blank) := by
  unfold isBlankFile at h
  split at h
  · rename_i hnode
    rw [hnode, ByteArray.ext (eq_of_beq h)]
  · cases h

theorem limits_agree_iff_oneByte :
    let _ : Digest := sizeDigest
    ∃ o w, handle .silent (.analyzeProject (limited 1)) false ⟨listingSession, blankFile⟩ =
        (.ok (.ok (.project o)), w, []) ∧
      (⟨"/a.css"⟩ ∈ (SourceStore.scan ⟨⟨"/"⟩, (limited 1).configuration, none⟩ blankFile).skipped ↔
        ⟨"/a.css"⟩ ∉ o.summary.filesAnalyzed) := by
  intro _
  have hs : Reachable .silent {} listingSession := .begin .fresh _ _ _
  have hok : analyzed (fun _ w ↦ isBlankFile w.disk)
      (handle .silent (.analyzeProject (limited 1)) false ⟨listingSession, blankFile⟩) = true := by
    decide +kernel
  have hwalked : ⟨"/a.css"⟩ ∈ DiscoveryContext.walked ⟨⟨"/"⟩, (limited 1).configuration, none⟩ blankFile := by
    decide +kernel
  have hfile : isBlankFile blankFile = true := by decide +kernel
  have hlanguage : ((limited 1).configuration.classifier.classify ⟨"/a.css"⟩ none).isSome := by decide +kernel
  obtain ⟨o, w, hdone, hstays⟩ := exists_of_analyzed hok
  refine ⟨o, w, hdone, ?_⟩
  have hiff := limits_agree_iff hs rfl (pairwise_singleton _ _) mem_cons_self rfl hlanguage hdone rfl
    hwalked (node_of_isBlankFile hfile) (node_of_isBlankFile hstays)
  exact hiff.mpr (.inl (by decide))

theorem listed_file_passes_zero_limit :
    let _ : Digest := sizeDigest
    ⟨"/a.css"⟩ ∈ (SourceStore.scan ⟨⟨"/"⟩, (limited 0).configuration, none⟩ blankFile).skipped ∧
      ∃ o w, handle .silent (.analyzeProject (limited 0)) false ⟨listingSession, blankFile⟩ =
        (.ok (.ok (.project o)), w, []) ∧ ⟨"/a.css"⟩ ∈ o.summary.filesAnalyzed := by
  intro _
  have hok : analyzed (fun o _ ↦ o.summary.filesAnalyzed.contains ⟨"/a.css"⟩)
      (handle .silent (.analyzeProject (limited 0)) false ⟨listingSession, blankFile⟩) = true := by
    decide +kernel
  obtain ⟨o, w, hdone, hmem⟩ := exists_of_analyzed hok
  exact ⟨by decide +kernel, o, w, hdone, contains_iff_mem.mp hmem⟩

end Sizes

end Session

end AnalysisServer
