import AnalysisServer.Proofs.Discovery.Refreshing
import AnalysisServer.Proofs.Project.Consistency
import AnalysisServer.Session.Task

namespace AnalysisServer

open StoreSet (discover)

def FileInput.Asks (input : FileInput) : Registry.Call → Prop
  | .getOrCreate t => t ∈ input.tsConfigs
  | .getById _ | .findForFile _ => True
  | _ => False

def Request.Asks : Request → Registry.Call → Prop
  | .analyzeJsTs input, call => input.Asks call
  | .createProgram tsconfig, call => call = .getOrCreate tsconfig
  | .deleteProgram id, call => call = .delete id
  | .newTsConfig, call => call = .clear
  | _, _ => False

def Request.linter? : Request → Option Linter
  | initLinter linter => some linter
  | _ => none

def Request.project? : Request → Option ProjectInput
  | .analyzeProject input => some input
  | _ => none

/-- The linter of a session that has served a request well, if it was another one before. -/
def Request.linterAfter (l : Option Linter) : Request → Option Linter
  | .initLinter linter => some linter
  | .analyzeProject input =>
    match input.configuration.baseDir with
    | some dir => if input.rules.isEmpty then l else some (Session.projectLinter input dir)
    | none => l
  | _ => l

def ProjectInput.context (input : ProjectInput) (dir : Path) : DiscoveryContext :=
  ⟨dir, input.configuration, input.files⟩

def StoreSet.projects (set : StoreSet StandardStore) : Except AnalysisError (List Path) :=
  (set.tsconfigs?.map TsConfigStore.tsconfigs).getD (.ok [])

def StoreSet.records (set : StoreSet StandardStore) : Except AnalysisError (List FileRecord) :=
  (set.sources?.map fun store ↦ store.files.read.map FileSet.records).getD (.ok [])

/-- Loads bundles one after the other up to the first that fails, and tells those that it has loaded. -/
def RuleEngine.loadAll {σ : Type} (engine : RuleEngine σ) (disk : Disk) :
    List Path → σ → Except AnalysisError Unit × List Path × σ
  | [], state => (.ok (), [], state)
  | bundle :: rest, state =>
    match engine.loadBundle disk bundle state with
    | (.error e, state) => (.error e, [], state)
    | (.ok _, state) =>
      let (r, loaded, state) := engine.loadAll disk rest state
      (r, bundle :: loaded, state)

namespace Registry

/-- What calls of some kind make of a registry, each of them on the disk of its time. -/
inductive Reaches [Digest] (ok : Call → Prop) (r : Registry) : Registry → Prop
  | refl : Reaches ok r r
  | call {r' : Registry} (h : Reaches ok r r') (disk : Disk) (classifier : Classifier) {call : Call}
      (hc : ok call) : Reaches ok r (r'.serve disk classifier call)

namespace Reaches

variable [Digest] {r r' : Registry} {ok : Call → Prop}

theorem one (disk : Disk) (classifier : Classifier) {call : Call} (hc : ok call) :
    Reaches ok r (r.serve disk classifier call) :=
  .call .refl disk classifier hc

theorem trans {r'' : Registry} (h : Reaches ok r r') (h' : Reaches ok r' r'') : Reaches ok r r'' := by
  induction h' with
  | refl => exact h
  | call _ disk classifier hc ih => exact ih.call disk classifier hc

end Reaches

def withoutStale (r : Registry) (disk : Disk) (events : List FileEvent) (previous tsconfigs : List Path) :
    Registry :=
  (previous.filter fun old ↦ !tsconfigs.any old.same).foldl (fun r old ↦ (r.invalidate disk old).2)
    (events.foldl (fun r event ↦ (r.invalidateContaining disk event.path).2) r)

def createAll [Digest] (disk : Disk) (classifier : Classifier) (tsconfigs : List Path) (r : Registry) : Registry :=
  tsconfigs.foldl (fun r t ↦ (r.getOrCreate disk classifier t).2) r

end Registry

namespace Workspace

variable {σ : Type}

def withPrograms (w : Workspace σ) (programs : Registry) : Workspace σ :=
  { w with session := { w.session with programs } }

def SameButRules (w w' : Workspace σ) : Prop :=
  ∃ engine loadedBundles linter, w' = { w with session := { w.session with engine, loadedBundles, linter } }

theorem SameButRules.refl (w : Workspace σ) : w.SameButRules w :=
  ⟨_, _, _, rfl⟩

variable [Digest]

def discovered (w : Workspace σ) (ctx : DiscoveryContext) : Workspace σ :=
  ⟨{ w.session with
      classifier := ctx.config.classifier
      stores := (discover ctx w.session.stores w.disk).2.1 },
    (discover ctx w.session.stores w.disk).2.2⟩

def refreshed (w : Workspace σ) (events : List FileEvent) (tsconfigs : List Path) : Workspace σ :=
  { w with session := { w.session with
      programs := (w.session.programs.withoutStale w.disk events w.session.projectTsConfigs tsconfigs).createAll
        w.disk w.session.classifier tsconfigs
      projectTsConfigs := tsconfigs } }

end Workspace

namespace Action

variable {σ α β : Type} {a : Action σ α} {k : α → Action σ β}

theorem run_bind (a : Action σ α) (k : α → Action σ β) (w : Workspace σ) : (a >>= k).run.run w =
      match a.run.run w with
      | (.ok x, w') => (k x).run.run w'
      | (.error e, w') => (.error e, w') := by
  show (match a.run.run w with | (r, w') => (ExceptT.bindCont k r).run w') = _
  rcases a.run.run w with ⟨r | r, w'⟩ <;> rfl

variable [Digest] {ok : Registry.Call → Prop}

def CallsOnly (ok : Registry.Call → Prop) (a : Action σ α) : Prop :=
  ∀ w, ∃ r, w.session.programs.Reaches ok r ∧ (a.run.run w).2 = w.withPrograms r

namespace CallsOnly

theorem of_kept (h : ∀ w, (a.run.run w).2 = w) : a.CallsOnly ok :=
  fun w ↦ ⟨_, .refl, h w⟩

theorem ofExcept (r : Except AnalysisError α) : (ofExcept r : Action σ α).CallsOnly ok := by
  apply of_kept
  intro w
  cases r <;> rfl

theorem programs {f : Registry → α × Registry} (disk : Disk) (classifier : Classifier) (call : Registry.Call)
    (hf : ∀ r, (f r).2 = r.serve disk classifier call) (hok : ok call) : (programs f : Action σ α).CallsOnly ok := by
  intro w
  refine ⟨_, .one disk classifier hok, ?_⟩
  rw [← hf]
  rfl

theorem bind (ha : a.CallsOnly ok) (hk : ∀ x, (k x).CallsOnly ok) : (a >>= k).CallsOnly ok := by
  intro w
  obtain ⟨r, hr, hw⟩ := ha w
  rw [run_bind]
  rcases hrun : a.run.run w with ⟨x, w'⟩
  rw [hrun] at hw
  obtain rfl : w' = w.withPrograms r := hw
  cases x with
  | error e => exact ⟨r, hr, rfl⟩
  | ok x =>
    obtain ⟨r', hr', hw'⟩ := hk x (w.withPrograms r)
    exact ⟨r', hr.trans hr', hw'⟩

theorem guard {c : Prop} [Decidable c] {e : AnalysisError} {k : Unit → Action σ α} (hk : (k ()).CallsOnly ok) :
    (if c then MonadExcept.throw e >>= k else k ()).CallsOnly ok := by
  split
  · exact of_kept fun _ ↦ rfl
  · exact hk

end CallsOnly

end Action

namespace Session

variable {σ : Type} [Digest] {engine : RuleEngine σ} {w w' : Workspace σ}
  {ok : Registry.Call → Prop} {input : FileInput}

def toLoad (s : Session σ) (linter : Linter) : List Path :=
  (s.options.ruleBundles ++ linter.bundles).filter fun b ↦ !s.isLoaded b

omit [Digest] in
theorem loadBundles_run (engine : RuleEngine σ) (bundles : List Path) (w : Workspace σ) :
    (loadBundles engine bundles).run.run w = ((engine.loadAll w.disk bundles w.session.engine).1,
      { w with session := { w.session with
          engine := (engine.loadAll w.disk bundles w.session.engine).2.2
          loadedBundles := w.session.loadedBundles ++ (engine.loadAll w.disk bundles w.session.engine).2.1 } }) := by
  induction bundles generalizing w with
  | nil => simp only [RuleEngine.loadAll, List.append_nil]; rfl
  | cons bundle rest ih =>
    have hstep : (loadBundles engine (bundle :: rest)).run.run w =
        match engine.loadBundle w.disk bundle w.session.engine with
        | (.error e, state) => (.error e, { w with session := { w.session with engine := state } })
        | (.ok _, state) => (loadBundles engine rest).run.run { w with session := { w.session with
            engine := state
            loadedBundles := w.session.loadedBundles ++ [bundle] } } := by
      change (Action.ofExcept (engine.loadBundle w.disk bundle w.session.engine).1 >>= _).run.run
        { w with session := { w.session with engine := (engine.loadBundle w.disk bundle w.session.engine).2 } } = _
      rcases engine.loadBundle w.disk bundle w.session.engine with ⟨_ | _, state⟩ <;> rfl
    rw [hstep, RuleEngine.loadAll]
    split
    · simp
    · rw [ih]
      simp

omit [Digest] in
theorem initLinter_run (engine : RuleEngine σ) (linter : Linter) (w : Workspace σ) :
    (initLinter engine linter).run.run w =
      match linter.validate with
      | .error e => (.error e, w)
      | .ok _ =>
        match engine.loadAll w.disk (w.session.toLoad linter) w.session.engine with
        | (r, loaded, state) => (r, { w with session := { w.session with
            engine := state
            loadedBundles := w.session.loadedBundles ++ loaded
            linter := match r with | .ok _ => some linter | .error _ => w.session.linter } }) := by
  unfold initLinter
  cases linter.validate with
  | error e => rfl
  | ok _ =>
    change (loadBundles engine (w.session.toLoad linter) >>= _).run.run w = _
    rw [Action.run_bind, loadBundles_run]
    rcases engine.loadAll w.disk (w.session.toLoad linter) w.session.engine with ⟨_ | _, loaded, state⟩ <;> rfl

omit [Digest] in
theorem initLinter_rules (engine : RuleEngine σ) (linter : Linter) (w : Workspace σ) :
    w.SameButRules ((initLinter engine linter).run.run w).2 ∧
      ((initLinter engine linter).run.run w).2.session.linter =
        match ((initLinter engine linter).run.run w).1 with
        | .ok _ => some linter
        | .error _ => w.session.linter := by
  rw [initLinter_run]
  split
  · exact ⟨.refl w, rfl⟩
  · exact ⟨⟨_, _, _, rfl⟩, rfl⟩

theorem programAmong_callsOnly (file : Path) {tsconfigs : List Path} (h : ∀ t ∈ tsconfigs, ok (.getOrCreate t)) :
    (programAmong file tsconfigs : Action σ _).CallsOnly ok := by
  induction tsconfigs with
  | nil => exact .of_kept fun _ ↦ rfl
  | cons tsconfig rest ih =>
    obtain ⟨hfirst, hrest⟩ := List.forall_mem_cons.mp h
    refine .bind (.of_kept fun _ ↦ rfl) fun s ↦ .bind (.of_kept fun _ ↦ rfl) fun disk ↦ ?_
    refine .bind (.programs disk s.classifier (.getOrCreate tsconfig) (fun _ ↦ rfl) hfirst) fun r ↦
      .bind (.ofExcept r) fun handle ↦ ?_
    split
    · exact .of_kept fun _ ↦ rfl
    · exact ih hrest

theorem programFor_callsOnly (h : ∀ call, input.Asks call → ok call) :
    (programFor input : Action σ _).CallsOnly ok := by
  unfold programFor
  split
  · rename_i id _
    refine .bind (.programs {} .standard (.getById id) (fun _ ↦ rfl) (h _ trivial)) fun r ↦ ?_
    cases r <;> exact .of_kept fun _ ↦ rfl
  · refine .bind (.of_kept fun _ ↦ rfl) fun disk ↦ .bind (programAmong_callsOnly _ fun t ht ↦ h _ ht) fun r ↦ ?_
    cases r with
    | some p => exact .of_kept fun _ ↦ rfl
    | none => exact .programs {} .standard (.findForFile _) (fun _ ↦ rfl) (h _ trivial)

theorem prepareFile_callsOnly {kind : FileKind}
    (h : kind = .script → ∀ call, input.Asks call → ok call) : (prepareFile input kind : Action σ _).CallsOnly ok := by
  have hunit (unit : Option Program → SourceUnit) : (if kind = .script then programFor input >>= fun p ↦ pure (unit p)
        else pure none >>= fun p ↦ pure (unit p) : Action σ _).CallsOnly ok := by
    split
    · exact .bind (programFor_callsOnly (h ‹_›)) fun _ ↦ .of_kept fun _ ↦ rfl
    · exact .of_kept fun _ ↦ rfl
  refine .bind (.of_kept fun _ ↦ rfl) fun s ↦ .guard ?_
  cases hc : input.content with
  | some content => exact .bind (.of_kept fun _ ↦ rfl) fun content ↦ hunit _
  | none => exact .bind (.of_kept fun _ ↦ rfl) fun _ ↦ .bind (.ofExcept _) fun content ↦ hunit _

theorem createProgram_callsOnly {tsconfig : Path} (h : ok (.getOrCreate tsconfig)) :
    (createProgram tsconfig : Action σ _).CallsOnly ok := by
  refine .bind (.of_kept fun _ ↦ rfl) fun s ↦ .bind (.of_kept fun _ ↦ rfl) fun disk ↦ ?_
  refine .bind (.programs disk s.classifier (.getOrCreate tsconfig) (fun _ ↦ rfl) h) fun r ↦ ?_
  exact .bind (.ofExcept r) fun _ ↦ .of_kept fun _ ↦ rfl

section Projects

variable {input : ProjectInput} {streaming : Bool} {tsconfigs : List Path}

def findIn (input : ProjectInput) (baseDir : Path) : Action σ (List Path) := do
  if (← Action.session).linter.isNone then throw linterMissing
  Action.setSession fun s ↦ { s with classifier := input.configuration.classifier }
  let _ ← discoverProject (input.context baseDir)
  Action.ofExcept (← Action.session).stores.projects

def findProjects (engine : RuleEngine σ) (input : ProjectInput) : Action σ (List Path) := do
  let baseDir ← Action.ofExcept input.configuration.requireBaseDir
  if !input.rules.isEmpty then initLinter engine (projectLinter input baseDir)
  findIn input baseDir

def openProjects (input : ProjectInput) (streaming : Bool) (tsconfigs : List Path) : Action σ ProjectRun := do
  dropStale input.configuration.fsEvents tsconfigs
  let summary ← createPrograms tsconfigs {}
  let s ← Action.session
  let records ← Action.ofExcept s.stores.records
  return {
    configuration := input.configuration
    streaming
    tsParserForJs := s.options.tsParserForJs || input.configuration.allowTsParserJsFiles
    todo := records
    output := { summary } }

theorem prepareProject_eq (engine : RuleEngine σ) (input : ProjectInput) (streaming : Bool) :
    prepareProject engine input streaming = findProjects engine input >>= openProjects input streaming := by
  unfold findProjects findIn
  simp only [bind_assoc, apply_ite (· >>= openProjects input streaming)]
  rfl

theorem discoverProject_run (ctx : DiscoveryContext) (w : Workspace σ) : (discoverProject ctx).run.run w =
      ((discover ctx w.session.stores w.disk).1,
        ⟨{ w.session with stores := (discover ctx w.session.stores w.disk).2.1 },
          (discover ctx w.session.stores w.disk).2.2⟩) := by
  show (Action.ofExcept (discover ctx w.session.stores w.disk).1).run.run _ = _
  cases (discover ctx w.session.stores w.disk).1 <;> rfl

theorem findIn_run (input : ProjectInput) (dir : Path) (w : Workspace σ) : (findIn input dir).run.run w =
      if w.session.linter.isNone = true then (.error linterMissing, w)
      else ((discover (input.context dir) w.session.stores w.disk).1 >>= fun _ ↦
          (w.discovered (input.context dir)).session.stores.projects,
        w.discovered (input.context dir)) := by
  have hsession (w : Workspace σ) : (Action.session : Action σ _).run.run w = (.ok w.session, w) := rfl
  have hset (f : Session σ → Session σ) :
      (Action.setSession f : Action σ _).run.run w = (.ok (), { w with session := f w.session }) := rfl
  unfold findIn
  rw [Action.run_bind, hsession]
  dsimp only
  split
  · rfl
  · simp only [Action.run_bind, hset, discoverProject_run]
    cases hd : (discover (input.context dir) w.session.stores w.disk).1 with
    | error e => rfl
    | ok outcome =>
      change (Action.ofExcept (w.discovered _).session.stores.projects).run.run _ = (_, _)
      cases (w.discovered (input.context dir)).session.stores.projects <;> rfl

/-- A discovery that is not begun changes the rules at most; one that is leaves its traces even if it fails. -/
inductive Finds (input : ProjectInput) (w : Workspace σ) : Except AnalysisError (List Path) → Workspace σ → Prop
  | unready {w' : Workspace σ} (e : AnalysisError) (h : w.SameButRules w') : Finds input w (.error e) w'
  | discovery {dir : Path} {w₁ : Workspace σ} (hdir : input.configuration.baseDir = some dir)
      (hrules : w.SameButRules w₁) (hlinter : w₁.session.linter.isSome = true)
      (hafter : w₁.session.linter = Request.linterAfter w.session.linter (.analyzeProject input)) :
      Finds input w ((discover (input.context dir) w₁.session.stores w₁.disk).1 >>= fun _ ↦
          (w₁.discovered (input.context dir)).session.stores.projects)
        (w₁.discovered (input.context dir))

theorem finds {r : Except AnalysisError (List Path)} (h : (findProjects engine input).run.run w = (r, w')) :
    Finds input w r w' := by
  -- the second half, in a workspace that has its rules
  have hfind (dir : Path) (hdir : input.configuration.baseDir = some dir) (w₁ : Workspace σ)
      (hw : w.SameButRules w₁)
      (hafter : w₁.session.linter = Request.linterAfter w.session.linter (.analyzeProject input))
      (h : (findIn input dir).run.run w₁ = (r, w')) : Finds input w r w' := by
    rw [findIn_run] at h
    split at h
    · cases h
      exact .unready _ hw
    · rename_i hl
      cases h
      exact .discovery hdir hw (Option.isSome_iff_ne_none.mpr (mt Option.isNone_iff_eq_none.mpr hl)) hafter
  unfold findProjects at h
  cases hd : input.configuration.baseDir with
  | none =>
    simp only [Configuration.requireBaseDir, hd] at h
    cases h
    exact .unready _ (.refl w)
  | some dir =>
    have hrun (k : Path → Action σ (List Path)) :
        (Action.ofExcept input.configuration.requireBaseDir >>= k).run.run w = (k dir).run.run w := by
      simp only [Configuration.requireBaseDir, hd]
      rfl
    rw [hrun] at h
    split at h
    · rename_i hrules
      obtain ⟨hinit, hlinter⟩ := initLinter_rules engine (projectLinter input dir) w
      rw [Action.run_bind] at h
      rcases hw : (initLinter engine (projectLinter input dir)).run.run w with ⟨installed, w₁⟩
      rw [hw] at h hinit hlinter
      cases installed with
      | error e =>
        cases h
        exact .unready e hinit
      | ok _ =>
        refine hfind dir hd w₁ hinit ?_ h
        simp_all [Request.linterAfter]
    · refine hfind dir hd w (.refl w) ?_ h
      simp_all [Request.linterAfter]

theorem createPrograms_cons (tsconfig : Path) (rest : List Path) (summary : ProjectMeta) (w : Workspace σ) :
    (createPrograms (tsconfig :: rest) summary).run.run w =
      (match (w.session.programs.getOrCreate w.disk w.session.classifier tsconfig).1 with
      | .ok _ =>
        createPrograms rest { summary with programsCreated := summary.programsCreated ++ [tsconfig] }
      | .error e =>
        createPrograms rest { summary with
          warnings := summary.warnings ++
            ["Failed to create program for " ++ tsconfig.text ++ ": " ++ e.message] }).run.run
      (w.withPrograms (w.session.programs.getOrCreate w.disk w.session.classifier tsconfig).2) :=
  rfl

theorem createPrograms_run (tsconfigs : List Path) (summary : ProjectMeta) (w : Workspace σ) :
    ∃ summary', (createPrograms tsconfigs summary).run.run w =
        (.ok summary', w.withPrograms (w.session.programs.createAll w.disk w.session.classifier tsconfigs)) ∧
      summary'.filesAnalyzed = summary.filesAnalyzed := by
  induction tsconfigs generalizing summary w with
  | nil => exact ⟨summary, rfl, rfl⟩
  | cons tsconfig rest ih =>
    have hstep : ∃ summary', (createPrograms (tsconfig :: rest) summary).run.run w =
        (createPrograms rest summary').run.run (w.withPrograms
          (w.session.programs.getOrCreate w.disk w.session.classifier tsconfig).2) ∧
          summary'.filesAnalyzed = summary.filesAnalyzed := by
      rw [createPrograms_cons]
      split <;> exact ⟨_, rfl, rfl⟩
    obtain ⟨_, hstep, hfiles⟩ := hstep
    obtain ⟨summary', hrest, hfiles'⟩ := ih _ _
    exact ⟨summary', hstep.trans hrest, hfiles'.trans hfiles⟩

theorem openProjects_run (input : ProjectInput) (streaming : Bool) (tsconfigs : List Path) (w : Workspace σ) :
    ∃ summary : ProjectMeta, summary.filesAnalyzed = [] ∧ (openProjects input streaming tsconfigs).run.run w =
        (w.session.stores.records.map fun records ↦ {
            configuration := input.configuration
            streaming
            tsParserForJs := w.session.options.tsParserForJs || input.configuration.allowTsParserJsFiles
            todo := records
            output := { summary } },
          w.refreshed input.configuration.fsEvents tsconfigs) := by
  have hdrop : (dropStale input.configuration.fsEvents tsconfigs : Action σ _).run.run w =
      (.ok (), { w with session := { w.session with
        programs := w.session.programs.withoutStale w.disk input.configuration.fsEvents
          w.session.projectTsConfigs tsconfigs
        projectTsConfigs := tsconfigs } }) := rfl
  unfold openProjects
  rw [Action.run_bind, hdrop]
  dsimp only
  obtain ⟨summary, hcreate, hfiles⟩ := createPrograms_run tsconfigs {} { w with session := { w.session with
    programs := w.session.programs.withoutStale w.disk input.configuration.fsEvents
      w.session.projectTsConfigs tsconfigs
    projectTsConfigs := tsconfigs } }
  rw [Action.run_bind, hcreate]
  refine ⟨summary, hfiles, ?_⟩
  change (Action.ofExcept w.session.stores.records >>= _).run.run (w.refreshed _ tsconfigs) = (_, _)
  cases w.session.stores.records <;> rfl

end Projects

/-- How far a request has come when it has begun to be served, and the workspace then. -/
inductive Began (engine : RuleEngine σ) (request : Request) (w : Workspace σ) : Progress → Workspace σ → Prop
  | rules {linter : Linter} {w' : Workspace σ} (hr : request = .initLinter linter) (h : w.SameButRules w')
      {outcome : Except AnalysisError Response} (hl : outcome.isOk = true → w'.session.linter = some linter) :
    Began engine request w (.done outcome) w'
  | calls {r : Registry} {progress : Progress} (hr : request.project? = none)
      (h : w.session.programs.Reaches request.Asks r) (hp : ∀ run, progress ≠ .more (.project run))
      (hl : request.linter? = none) : Began engine request w progress (w.withPrograms r)
  | wrote {content : Json} {bytes : ByteArray} {path : Path} {disk : Disk}
      (hr : request = .createTsConfigFile content) (hw : w.disk.writeTemp bytes = .ok (path, disk)) :
      Began engine request w (.done (.ok (.tsConfigFile path)))
        ⟨{ w.session with temporary := w.session.temporary ++ [path] }, disk⟩
  | lost {input : ProjectInput} {e : AnalysisError} {w' : Workspace σ} (hr : request = .analyzeProject input)
      (hf : (findProjects engine input).run.run w = (.error e, w')) : Began engine request w (.done (.error e)) w'
  | opened {input : ProjectInput} {tsconfigs : List Path} {w' : Workspace σ} {progress : Progress}
      (hr : request = .analyzeProject input) (hf : (findProjects engine input).run.run w = (.ok tsconfigs, w'))
      (hp : ∀ records, w'.session.stores.records = .ok records → ∃ run, progress = .more (.project run) ∧
        run.configuration = input.configuration ∧ run.current = none) :
      Began engine request w progress (w'.refreshed input.configuration.fsEvents tsconfigs)

theorem Began.failed {request : Request} (hr : request.project? = none) (hl : request.linter? = none)
    (e : AnalysisError) : Began engine request w (.done (.error e)) w :=
  .calls (r := w.session.programs) hr .refl (fun _ h ↦ (nomatch h)) hl

theorem start_project (engine : RuleEngine σ) (input : ProjectInput) (streaming : Bool) :
    start engine (.analyzeProject input) streaming =
      findProjects engine input >>= openProjects input streaming >>= fun run ↦ pure (.more (.project run)) := by
  rw [← prepareProject_eq]
  rfl

theorem began_project (engine : RuleEngine σ) (input : ProjectInput) (streaming : Bool) (w : Workspace σ) :
    Began engine (.analyzeProject input) w (begin engine (.analyzeProject input) streaming w).1
      (begin engine (.analyzeProject input) streaming w).2 := by
  unfold begin
  rw [start_project, Action.run_bind, Action.run_bind]
  rcases hf : (findProjects engine input).run.run w with ⟨r, w'⟩
  cases r with
  | error e => exact .lost rfl hf
  | ok tsconfigs =>
    obtain ⟨summary, -, hopen⟩ := openProjects_run input streaming tsconfigs w'
    dsimp only
    rw [hopen]
    cases hrecords : w'.session.stores.records with
    | error e =>
      refine .opened rfl hf fun records hr ↦ ?_
      cases hrecords.symm.trans hr
    | ok records => exact .opened rfl hf fun _ _ ↦ ⟨_, rfl, rfl, rfl⟩

theorem began_linter (engine : RuleEngine σ) (linter : Linter) (streaming : Bool) (w : Workspace σ) :
    Began engine (.initLinter linter) w (begin engine (.initLinter linter) streaming w).1
      (begin engine (.initLinter linter) streaming w).2 := by
  have hs : start engine (.initLinter linter) streaming =
      initLinter engine linter >>= fun _ ↦ pure (.done (.ok .ack)) := rfl
  obtain ⟨h, hl⟩ := initLinter_rules engine linter w
  unfold begin
  rw [hs, Action.run_bind]
  rcases hrun : (initLinter engine linter).run.run w with ⟨_ | _, w'⟩ <;> rw [hrun] at h hl
  · exact .rules rfl h fun hok ↦ (nomatch hok)
  · exact .rules rfl h fun _ ↦ hl

theorem began_of_calls {α : Type} {request : Request} {streaming : Bool} {a : Action σ α} {f : α → Progress}
    (hr : request.project? = none) (hl : request.linter? = none)
    (hs : start engine request streaming = a >>= fun x ↦ pure (f x)) (ha : a.CallsOnly request.Asks)
    (hf : ∀ x run, f x ≠ .more (.project run)) :
    Began engine request w (begin engine request streaming w).1 (begin engine request streaming w).2 := by
  obtain ⟨r, hreach, hw⟩ := ha w
  unfold begin
  rw [hs, Action.run_bind]
  rcases hrun : a.run.run w with ⟨x, w'⟩
  rw [hrun] at hw
  obtain rfl : w' = w.withPrograms r := hw
  cases x with
  | error e =>
    have hdone (run : ProjectRun) : Progress.done (.error e) ≠ .more (.project run) := by simp
    exact .calls hr hreach hdone hl
  | ok x => exact .calls hr hreach (hf x) hl

omit [Digest] in
theorem createTsConfigFile_run (content : Json) (w : Workspace σ) : (createTsConfigFile content).run.run w =
    match (if content.obj?.isNone then .error (.validation "tsconfig must be a JSON object")
      else writeTsConfig w.disk content) with
    | .error e => (.error e, w)
    | .ok (path, disk) => (.ok path, ⟨{ w.session with temporary := w.session.temporary ++ [path] }, disk⟩) := by
  have hget : (get : Action σ (Workspace σ)).run.run w = (.ok w, w) := rfl
  unfold createTsConfigFile
  split
  · rfl
  · rw [Action.run_bind, hget]
    dsimp only
    rcases writeTsConfig w.disk content with e | ⟨path, disk⟩ <;> rfl

theorem start_createTsConfigFile (engine : RuleEngine σ) (content : Json) (streaming : Bool) :
    start engine (.createTsConfigFile content) streaming =
      createTsConfigFile content >>= fun path ↦ pure (.done (.ok (.tsConfigFile path))) :=
  rfl

theorem began_temporary (engine : RuleEngine σ) (content : Json) (streaming : Bool) (w : Workspace σ) :
    Began engine (.createTsConfigFile content) w (begin engine (.createTsConfigFile content) streaming w).1
      (begin engine (.createTsConfigFile content) streaming w).2 := by
  unfold begin
  rw [start_createTsConfigFile, Action.run_bind, createTsConfigFile_run]
  by_cases hobj : content.obj?.isNone
  · rw [if_pos hobj]
    exact .failed rfl rfl _
  · rw [if_neg hobj]
    rcases hw : writeTsConfig w.disk content with e | ⟨path, disk⟩
    · exact .failed rfl rfl _
    · exact .wrote rfl (TsConfigStore.writeTemp_of_writeTsConfig hw)

theorem began (engine : RuleEngine σ) (request : Request) (streaming : Bool) (w : Workspace σ) :
    Began engine request w (begin engine request streaming w).1 (begin engine request streaming w).2 := by
  cases request with
  | initLinter linter => exact began_linter engine linter streaming w
  | analyzeJsTs input =>
    have hfile : (prepareFile input .script : Action σ _).CallsOnly (Request.analyzeJsTs input).Asks :=
      prepareFile_callsOnly fun _ _ h ↦ h
    exact began_of_calls (f := fun unit ↦ .more (.file unit)) rfl rfl rfl hfile fun _ _ ↦ nofun
  | analyzeCss input | analyzeHtml input | analyzeYaml input =>
    exact began_of_calls (f := fun unit ↦ .more (.file unit)) rfl rfl rfl (prepareFile_callsOnly nofun) fun _ _ ↦ nofun
  | analyzeProject input => exact began_project engine input streaming w
  | createProgram tsconfig =>
    exact began_of_calls (f := fun info ↦ .done (.ok (.program info))) rfl rfl rfl
      (createProgram_callsOnly rfl) fun _ _ ↦ nofun
  | deleteProgram id =>
    have hdelete : (Action.programs fun r ↦ r.delete id : Action σ _).CallsOnly (Request.deleteProgram id).Asks :=
      .programs {} .standard (.delete id) (fun _ ↦ rfl) rfl
    exact began_of_calls (f := fun _ ↦ .done (.ok .ack)) rfl rfl rfl hdelete fun _ _ ↦ nofun
  | tsConfigFiles tsconfig =>
    have hread : (Action.session >>= fun s ↦ Action.disk >>= fun disk ↦
        Action.ofExcept (Manifest.resolve disk s.classifier tsconfig) : Action σ _).CallsOnly
          (Request.tsConfigFiles tsconfig).Asks :=
      .bind (.of_kept fun _ ↦ rfl) fun _ ↦ .bind (.of_kept fun _ ↦ rfl) fun _ ↦ .ofExcept _
    refine began_of_calls (f := fun m ↦ .done (.ok (.tsConfigFiles m.rootFiles m.references))) rfl rfl ?_ hread
      fun _ _ ↦ nofun
    rfl
  | newTsConfig =>
    have hclear : (Action.setSession fun s ↦ { s with programs := s.programs.clear } : Action σ _).CallsOnly
        Request.newTsConfig.Asks := by
      intro w
      have hcall : Request.newTsConfig.Asks .clear := rfl
      exact ⟨_, .one {} .standard hcall, rfl⟩
    exact began_of_calls (f := fun _ ↦ .done (.ok .ack)) rfl rfl rfl hclear fun _ _ ↦ nofun
  | createTsConfigFile content => exact began_temporary engine content streaming w

end Session

end AnalysisServer
