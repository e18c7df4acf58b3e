import AnalysisServer.Proofs.Disk.Temporaries
import AnalysisServer.Proofs.Session.Completions

namespace AnalysisServer

open List

section Ledgers

variable {start d d' : Disk} {held : List Path} {ctx : DiscoveryContext} {r : Except AnalysisError Unit}
  {t t' : TsConfigStore}

def TsConfigStore.Owned (t : TsConfigStore) : Prop :=
  t.fallback.isSome = true → t.origin.isSome = true

namespace TsConfigStore.Refreshes

theorem owned (h : Refreshes ctx t d r t' d') (ht : t.Owned) : t'.Owned := by
  cases h with
  | ready | baseless => exact ht
  | scanned hs =>
    intro hfallback
    cases hs with
    | found horigin | wrote _ horigin => exact horigin
    | failed _ _ hnone =>
      rw [hnone] at hfallback
      cases hfallback

theorem origin_of_ok (h : Refreshes ctx t d (.ok ()) t' d') : t'.origin.isSome = true := by
  cases h with
  | ready h => exact h
  | scanned hs =>
    cases hs with
    | found horigin | wrote _ horigin => exact horigin

theorem origin_of_error {e : AnalysisError} (h : Refreshes ctx t d (.error e) t' d')
    (ht : t'.origin.isSome = true) : t.origin.isSome = true := by
  cases h with
  | baseless => exact ht
  | scanned hs =>
    cases hs with
    | failed _ hnone =>
      rw [hnone] at ht
      cases ht

end TsConfigStore.Refreshes

namespace Disk.Ledger

variable (htemp : start.temp.isAbsolute = true)

include htemp

theorem setup (h : start.Ledger d (held ++ t.fallback.toList)) : start.Ledger (t.setup d).2 held := by
  unfold TsConfigStore.setup
  cases hf : t.fallback with
  | none =>
    rwa [hf, Option.toList_none, append_nil] at h
  | some p =>
    rw [hf] at h
    apply h.removeFile htemp (mem_append_right _ (mem_singleton_self p))
    · intro q hq
      exact mem_append_left _ hq
    · intro q hq hne
      obtain hq | hq := mem_append.mp hq
      · exact hq
      · exact absurd (mem_singleton.mp hq) hne

theorem refreshes (h : start.Ledger d (held ++ t.fallback.toList)) (hr : t.Refreshes ctx d r t' d') :
    start.Ledger d' (held ++ t'.fallback.toList) := by
  cases hr with
  | ready | baseless => exact h
  | scanned hs =>
    have hsetup := h.setup htemp
    cases hs with
    | found _ hnone | failed _ _ hnone =>
      rwa [hnone, Option.toList_none, append_nil]
    | wrote hw _ hsome =>
      rw [hsome]
      exact hsetup.writeTemp htemp hw

theorem removeAll {ps : List Path} (h : start.Ledger d (ps ++ held)) :
    start.Ledger (Session.removeAll d ps) held := by
  induction ps generalizing d with
  | nil => exact h
  | cons p ps ih =>
    apply ih
    apply h.removeFile htemp (.head _)
    · intro q hq
      exact .tail _ hq
    · intro q hq hne
      exact (mem_cons.mp hq).resolve_left hne

theorem gone (h : start.Ledger d []) {n : Nat} (hn : start.made ≤ n) :
    d.exists? (start.temp.joinName (tempName n)) = false := by
  have hnone : d.temporary? n = none := by
    rw [Option.eq_none_iff_forall_not_mem]
    intro m hm
    cases (h.listed n m hn hm).2
  rw [← h.temp] at htemp ⊢
  exact exists?_temporary htemp hnone

end Disk.Ledger

end Ledgers

section Readable

variable {set : StoreSet StandardStore} {x : Stores} (hx : set.stores = x.toList)

include hx

theorem StoreSet.exists_projects (h : x.tsconfigs.origin.isSome = true) :
    ∃ tsconfigs, set.projects = .ok tsconfigs := by
  obtain ⟨origin, horigin⟩ := Option.isSome_iff_exists.mp h
  refine ⟨x.tsconfigs.paths, ?_⟩
  rw [StoreSet.projects, (StoreSet.stores?_toList hx).2.2, Option.map_some, TsConfigStore.tsconfigs, horigin]
  rfl

theorem StoreSet.exists_records (h : x.sources.files.isInitialized = true) :
    ∃ records, set.records = .ok records := by
  obtain ⟨files, hfiles⟩ := Option.isSome_iff_exists.mp h
  refine ⟨files.records, ?_⟩
  rw [StoreSet.records, (StoreSet.stores?_toList hx).1, Option.map_some, FilesCache.read, hfiles]
  rfl

end Readable

namespace Session

variable {σ : Type} [Digest] {start : Disk} {w w' : Workspace σ} {x x' : Stores}

structure KeepsLedger (start : Disk) (w : Workspace σ) (x : Stores) : Prop where
  stores : w.session.stores.stores = x.toList
  ledger : start.Ledger w.disk (w.session.temporary ++ x.tsconfigs.fallback.toList)
  owned : x.tsconfigs.Owned

structure Accounts (start : Disk) (w : Workspace σ) (x : Stores) : Prop extends KeepsLedger start w x where
  finished : x.tsconfigs.origin.isSome = true → w.session.lastConfiguration.isSome = true
  based : ∀ c, w.session.lastConfiguration = some c → c.baseDir.isSome = true

omit [Digest] in
theorem KeepsLedger.of_sameButRules (h : KeepsLedger start w x) (hw : w.SameButRules w') : KeepsLedger start w' x := by
  obtain ⟨_, _, _, rfl⟩ := hw
  exact ⟨h.stores, h.ledger, h.owned⟩

omit [Digest] in
theorem Accounts.spares (h : Accounts start w x) (hs : w'.session = w.session) (hd : w.disk.Spares w'.disk) :
    Accounts start w' x := by
  obtain ⟨s, d⟩ := w'
  obtain rfl : s = w.session := hs
  exact ⟨⟨h.stores, h.ledger.spares hd, h.owned⟩, h.finished, h.based⟩

section Requests

variable (htemp : start.temp.isAbsolute = true)

include htemp

theorem KeepsLedger.discovered (h : KeepsLedger start w x) (ctx : DiscoveryContext) :
    KeepsLedger start (w.discovered ctx) (x.discover ctx w.disk).2.1 := by
  obtain ⟨-, hstores, hdisk⟩ := StoreSet.discover_stores h.stores ctx w.disk
  have hrefreshes := x.refreshes ctx w.disk
  have hledger := h.ledger.refreshes htemp hrefreshes
  rw [← hdisk] at hledger
  exact ⟨hstores, hledger, hrefreshes.owned h.owned⟩

theorem KeepsLedger.finds {input : ProjectInput} {r : Except AnalysisError (List Path)}
    (h : KeepsLedger start w x) (hf : Finds input w r w') : ∃ x', KeepsLedger start w' x' ∧
      w'.session.lastConfiguration = w.session.lastConfiguration ∧
      (∀ e, r = .error e → x'.tsconfigs.origin.isSome = true → x.tsconfigs.origin.isSome = true) ∧
      (∀ tsconfigs, r = .ok tsconfigs → (∃ records, w'.session.stores.records = .ok records) ∧
        input.configuration.baseDir.isSome = true ∧ w'.session.linter.isSome = true) := by
  cases hf with
  | unready e hw =>
    have hkeeps := h.of_sameButRules hw
    obtain ⟨_, _, _, rfl⟩ := hw
    exact ⟨x, hkeeps, rfl, fun _ _ ho ↦ ho, nofun⟩
  | @discovery dir w₁ hdir hw hlinter =>
    have hkeeps := (h.of_sameButRules hw).discovered htemp (input.context dir)
    obtain ⟨_, _, _, rfl⟩ := hw
    obtain ⟨hresult, hstores, -⟩ := StoreSet.discover_stores h.stores (input.context dir) w.disk
    have hrefreshes := x.refreshes (input.context dir) w.disk
    cases hd : (StoreSet.discover (input.context dir) w.session.stores w.disk).1 with
    | error e =>
      rw [hd] at hresult
      rw [← hresult] at hrefreshes
      exact ⟨_, hkeeps, rfl, fun _ _ ho ↦ hrefreshes.origin_of_error ho, nofun⟩
    | ok outcome =>
      -- what a discovery has found can be read
      rw [hd] at hresult
      have hfiles := Stores.isInitialized_discover hresult.symm
      rw [← hresult] at hrefreshes
      obtain ⟨tsconfigs, ht⟩ := StoreSet.exists_projects hstores hrefreshes.origin_of_ok
      refine ⟨_, hkeeps, rfl, ?_, ?_⟩
      · intro e he
        cases ht.symm.trans he
      · intro _ _
        exact ⟨StoreSet.exists_records hstores hfiles, by rw [hdir]; rfl, hlinter⟩

theorem KeepsLedger.began {engine : RuleEngine σ} {request : Request} {progress : Progress}
    (h : KeepsLedger start w x) (hb : Began engine request w progress w') : ∃ x', KeepsLedger start w' x' ∧
      w'.session.lastConfiguration = w.session.lastConfiguration ∧
      ((∃ run, progress = .more (.project run) ∧ request.project?.isSome = true ∧
          run.configuration.baseDir.isSome = true ∧ w'.session.linter.isSome = true) ∨
        (∀ run, progress ≠ .more (.project run)) ∧
          (x'.tsconfigs.origin.isSome = true → x.tsconfigs.origin.isSome = true) ∧
          (request.project?.isSome = true → ∃ e, progress = .done (.error e))) := by
  have hother (hr : request.project? = none) (hsome : request.project?.isSome = true) :
      ∃ e, progress = .done (.error e) := by
    rw [hr] at hsome
    cases hsome
  cases hb with
  | rules hr hw outcome =>
    have hkeeps := h.of_sameButRules hw
    obtain ⟨_, _, _, rfl⟩ := hw
    exact ⟨x, hkeeps, rfl, .inr ⟨by simp, id, hother (hr ▸ rfl)⟩⟩
  | calls hr _ hp => exact ⟨x, ⟨h.stores, h.ledger, h.owned⟩, rfl, .inr ⟨hp, id, hother hr⟩⟩
  | wrote hr hw =>
    subst hr
    refine ⟨x, ⟨h.stores, (h.ledger.writeTemp htemp hw).of_mem_iff ?_, h.owned⟩, rfl, .inr ⟨by simp, id, hother rfl⟩⟩
    intro p
    simp only [mem_append]
    exact or_right_comm
  | lost hr hf =>
    obtain ⟨x', hkeeps, hlast, horigin, -⟩ := h.finds htemp (Session.finds hf)
    exact ⟨x', hkeeps, hlast, .inr ⟨by simp, horigin _ rfl, fun _ ↦ ⟨_, rfl⟩⟩⟩
  | opened hr hf hp =>
    subst hr
    obtain ⟨x', hkeeps, hlast, -, hfound⟩ := h.finds htemp (Session.finds hf)
    obtain ⟨⟨records, hrecords⟩, hbase, hlinter⟩ := hfound _ rfl
    obtain ⟨run, hrun, hconfiguration, -⟩ := hp records hrecords
    refine ⟨x', ⟨hkeeps.stores, hkeeps.ledger, hkeeps.owned⟩, hlast, .inl ⟨run, hrun, rfl, ?_, hlinter⟩⟩
    rwa [hconfiguration]

end Requests

end Session

def Visit.Completes {σ : Type} [Digest] (engine : RuleEngine σ) (v : Visit σ) : Prop :=
  v.request.project?.isSome = true ∧ ∃ response, v.outcome engine = .ok (.ok response)

namespace Session

section Handling

variable {σ : Type} [Digest] {engine : RuleEngine σ} {request : Request} {streaming : Bool} {w w' : Workspace σ}

theorem handle_done {outcome : Except AnalysisError Response}
    (h : begin engine request streaming w = (.done outcome, w')) :
    handle engine request streaming w = (.ok outcome, w', []) := by
  unfold handle
  rw [h]

theorem handle_more {task : Task} (h : begin engine request streaming w = (.more task, w')) :
    handle engine request streaming w = finish engine (stepsLeft task) task w' [] := by
  unfold handle
  rw [h]

end Handling

section Visits

variable [Digest] {start : Disk} {x : Stores} (htemp : start.temp.isAbsolute = true)

include htemp

theorem Accounts.after {v : Visit (List Path)} (h : Accounts start v.before x) :
    (∃ x', Accounts start (v.after .silent) x') ∧ ((v.after .silent).session.lastConfiguration.isSome = true ↔
        v.before.session.lastConfiguration.isSome = true ∨ v.Completes .silent) := by
  rcases hb : begin .silent v.request v.streaming v.before with ⟨progress, w'⟩
  have hbegan : Began .silent v.request v.before progress w' := by
    have hbegan := Session.began .silent v.request v.streaming v.before
    rwa [hb] at hbegan
  unfold Visit.Completes Visit.after Visit.outcome
  obtain ⟨x', hkeeps, hlast, ⟨run, rfl, hproject, hbase, hlinter⟩ | ⟨hno, horigin, herror⟩⟩ :=
    h.toKeepsLedger.began htemp hbegan
  · obtain ⟨output, programs, sent, hf⟩ := finish_silent hlinter (Nat.lt_succ_self run.left) []
    rw [handle_more hb, stepsLeft, hf]
    refine ⟨⟨x', ⟨hkeeps.stores, hkeeps.ledger, hkeeps.owned⟩, fun _ ↦ rfl, ?_⟩, ?_⟩
    · rintro c hc
      cases hc
      exact hbase
    · exact ⟨fun _ ↦ .inr ⟨hproject, _, rfl⟩, fun _ ↦ rfl⟩
  · have hafter : (handle .silent v.request v.streaming v.before).2.1 = w' := by
      cases progress with
      | done outcome => rw [handle_done hb]
      | more task =>
        rw [handle_more hb]
        cases task with
        | file unit => exact finish_file _ unit w' []
        | project run => exact absurd rfl (hno run)
    rw [hafter, hlast]
    refine ⟨⟨x', hkeeps, fun ho ↦ by rw [hlast]; exact h.finished (horigin ho), by rw [hlast]; exact h.based⟩, ?_⟩
    refine ⟨.inl, fun hor ↦ hor.resolve_right ?_⟩
    rintro ⟨hproject, response, hresponse⟩
    obtain ⟨e, rfl⟩ := herror hproject
    rw [handle_done hb] at hresponse
    cases hresponse

theorem Accounts.visited {w : Workspace (List Path)} {visits : List (Visit (List Path))} {options : SessionOptions}
    (hunused : ∀ n, start.made ≤ n → start.temporary? n = none)
    (h : Workspace.Visited .silent (fun d v ↦ d.Spares v.before.disk) ⟨fresh .silent options, start⟩ visits w) :
    (∃ x, Accounts start w x) ∧ (w.session.lastConfiguration.isSome = true ↔ ∃ v ∈ visits, v.Completes .silent) := by
  induction h with
  | none =>
    have hledger : start.Ledger start [] := by
      refine ⟨rfl, Nat.le_refl _, nofun, ?_⟩
      intro n m hn hm
      cases (hunused n hn).symm.trans hm
    exact ⟨⟨{}, ⟨rfl, hledger, nofun⟩, nofun, nofun⟩, by simp [fresh]⟩
  | visit _ v hs hv ih =>
    obtain ⟨⟨x, hx⟩, hfinished⟩ := ih
    rw [← hs] at hfinished
    obtain ⟨haccounts, hlast⟩ := (hx.spares hs hv).after htemp
    refine ⟨haccounts, hlast.trans ?_⟩
    rw [hfinished]
    simp only [mem_append, mem_singleton, or_and_right, exists_or, exists_eq_left]

end Visits

section Closing

variable {σ : Type} [Digest] {start : Disk} {w : Workspace σ} {x : Stores}

theorem Accounts.close (htemp : start.temp.isAbsolute = true) (h : Accounts start w x) :
    ∃ x' : Stores, (close w).session.stores.stores = x'.toList ∧ x'.tsconfigs.origin = none ∧
      start.Ledger (close w).disk [] ∧
      x'.sources = if w.session.lastConfiguration.isSome = true then {} else x.sources := by
  have hledger {d} (hd : start.Ledger d w.session.temporary) : start.Ledger (removeAll d w.session.temporary) [] := by
    apply Disk.Ledger.removeAll htemp
    rwa [append_nil]
  unfold Session.close
  cases hlast : w.session.lastConfiguration with
  | some c =>
    obtain ⟨dir, hdir⟩ := Option.isSome_iff_exists.mp (h.based c hlast)
    obtain ⟨hstores, hdisk⟩ := StoreSet.clear_stores h.stores ⟨dir, c, none⟩ w.disk
    simp only [hlast, hdir]
    refine ⟨_, hstores, rfl, hledger ?_, rfl⟩
    rw [hdisk]
    exact h.ledger.setup htemp
  | none =>
    have horigin : x.tsconfigs.origin = none := by
      rw [← Option.not_isSome_iff_eq_none]
      intro ho
      have hsome := h.finished ho
      rw [hlast] at hsome
      cases hsome
    have hfallback : x.tsconfigs.fallback = none := by
      rw [← Option.not_isSome_iff_eq_none]
      intro hf
      have hsome := h.owned hf
      rw [horigin] at hsome
      cases hsome
    simp only [hlast]
    refine ⟨x, h.stores, horigin, hledger ?_, rfl⟩
    have hheld := h.ledger
    rwa [hfallback, Option.toList_none, append_nil] at hheld

end Closing

def files {σ : Type} (s : Session σ) : Option (Except AnalysisError FileSet) :=
  s.stores.sources?.map fun store ↦ store.files.read

/-- However requests have gone, a session that is closed has no programs, no project files and no temporary
files left. It has no files to analyze left just if the analysis of some project has come to its end, or there
were none before. -/
theorem close_releases [Digest] {options : SessionOptions} {start d : Disk} {visits : List (Visit (List Path))}
    {w : Workspace (List Path)} (htemp : start.temp.isAbsolute = true)
    (hunused : ∀ n, start.made ≤ n → start.temporary? n = none)
    (h : Workspace.Visited .silent (fun d v ↦ d.Spares v.before.disk) ⟨fresh .silent options, start⟩ visits w)
    (hd : w.disk.Spares d) :
    let closed := close ⟨w.session, d⟩
    closed.session.programs.cache.keys = [] ∧ closed.session.programs.ids = [] ∧
      closed.session.stores.projects = .error (.validation
        "TsConfig store has not been initialized. Run file discovery before reading it.") ∧
      (∀ n, start.made ≤ n → closed.disk.exists? (start.temp.joinName (Disk.tempName n)) = false) ∧
      (closed.session.files = some (.error FilesCache.uninitialized) ↔
        (∃ v ∈ visits, v.Completes .silent) ∨ w.session.files = some (.error FilesCache.uninitialized)) := by
  obtain ⟨⟨x, hx⟩, hlast⟩ := Accounts.visited htemp hunused h
  have haccounts : Accounts start ⟨w.session, d⟩ x := hx.spares rfl hd
  obtain ⟨x', hstores, horigin, hledger, hsources⟩ := haccounts.close htemp
  refine ⟨rfl, rfl, ?_, fun n hn ↦ hledger.gone htemp hn, ?_⟩
  · rw [StoreSet.projects, (StoreSet.stores?_toList hstores).2.2, Option.map_some, Option.getD_some,
      TsConfigStore.tsconfigs, horigin]
    rfl
  · rw [← hlast, files, files, (StoreSet.stores?_toList hstores).1, (StoreSet.stores?_toList hx.stores).1,
      Option.map_some, Option.map_some, hsources]
    split
    · rename_i hsome
      exact ⟨fun _ ↦ .inl hsome, fun _ ↦ rfl⟩
    · rename_i hnone
      exact ⟨.inr, fun hor ↦ hor.resolve_left hnone⟩

def emptyProject : Disk :=
  projectDisk [] [("tmp", .dir [])]

def askingVisit : Visit (List Path) :=
  { before := ⟨fresh .silent {}, emptyProject⟩, request := .createTsConfigFile (.obj []) }

def writingVisit [Digest] : Visit (List Path) :=
  { before := askingVisit.after .silent, request := projectRequest [] }

theorem visited_emptyProject [Digest] : Workspace.Visited .silent (fun d v ↦ d.Spares v.before.disk)
    ⟨fresh .silent {}, emptyProject⟩ [askingVisit, writingVisit] (writingVisit.after .silent) := by
  have hspares (d : Disk) : d.Spares d := ⟨rfl, rfl, fun _ ↦ rfl⟩
  exact .visit (.visit .none askingVisit rfl (hspares _)) writingVisit rfl (hspares _)

theorem unused_emptyProject (n : Nat) (_ : emptyProject.made ≤ n) : emptyProject.temporary? n = none := by
  have htemp : emptyProject.temp.isAbsolute = true := by decide
  have hdir : emptyProject.locate emptyProject.temp = .ok ["tmp"] := by decide +kernel
  exact Disk.temporary?_of_locate htemp (Disk.locate_trimmed htemp hdir) n

theorem exists?_emptyProject : let _ : Digest := sizeDigest
    (writingVisit.after .silent).disk.exists? ⟨"/tmp/tsconfig-000001.json"⟩ = true := by
  decide +kernel

theorem close_releases_emptyProject : let _ : Digest := sizeDigest
    (writingVisit.after .silent).disk.exists? ⟨"/tmp/tsconfig-000001.json"⟩ = true ∧
      let closed := close ⟨(writingVisit.after .silent).session, (writingVisit.after .silent).disk⟩
      closed.session.programs.cache.keys = [] ∧ closed.session.programs.ids = [] ∧
        closed.session.stores.projects = .error (.validation
          "TsConfig store has not been initialized. Run file discovery before reading it.") ∧
        (∀ n, emptyProject.made ≤ n → closed.disk.exists? (emptyProject.temp.joinName (Disk.tempName n)) = false) ∧
        (closed.session.files = some (.error FilesCache.uninitialized) ↔
          (∃ v ∈ [askingVisit, writingVisit], v.Completes .silent) ∨
            (writingVisit.after .silent).session.files = some (.error FilesCache.uninitialized)) := by
  intro _
  refine ⟨exists?_emptyProject, ?_⟩
  have hspares : (writingVisit.after .silent).disk.Spares (writingVisit.after .silent).disk := ⟨rfl, rfl, fun _ ↦ rfl⟩
  exact close_releases (by decide) unused_emptyProject visited_emptyProject hspares

def bareVisit : Visit (List Path) :=
  { before := ⟨fresh .silent {}, projectDisk [("a.js", .file "a".toUTF8)] []⟩, request := projectRequest [] }

def keepsFiles (paths : List Path) :
    Except Halt (Except AnalysisError Response) → Option (Except AnalysisError FileSet) → Bool
  | .ok (.error _), some (.ok found) => found.records.map FileRecord.path == paths
  | _, _ => false

/-- A project without project file is not analyzed if it cannot get one; but the files that were found stay
when the session is closed. -/
theorem files_stay_found : let _ : Digest := sizeDigest
    ∃ e found, bareVisit.outcome .silent = .ok (.error e) ∧
      (close (bareVisit.after .silent)).session.files = some (.ok found) ∧
      found.records.map FileRecord.path = [⟨"/p/a.js"⟩] := by
  intro _
  have hrun : keepsFiles [⟨"/p/a.js"⟩] (bareVisit.outcome .silent)
      (close (bareVisit.after .silent)).session.files = true := by decide +kernel
  unfold keepsFiles at hrun
  split at hrun
  · rename_i e found houtcome hfiles
    exact ⟨e, found, houtcome, hfiles, beq_iff_eq.mp hrun⟩
  · cases hrun

end Session

end AnalysisServer
