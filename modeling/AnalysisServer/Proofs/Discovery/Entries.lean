import AnalysisServer.Proofs.Discovery.Tours
import AnalysisServer.Proofs.Disk.Below
import AnalysisServer.Proofs.Disk.Trees
import AnalysisServer.Proofs.Lists

namespace AnalysisServer

open List

open AnalysisServer.Path (IsName)

namespace Node

mutual

/-- The entries of every directory have proper names, in ascending order. -/
def Tidy : Node → Prop
  | dir es => TidyEntries es
  | _ => True

def TidyEntries : List (String × Node) → Prop
  | [] => True
  | (s, n) :: es => IsName s ∧ n.Tidy ∧ (∀ e ∈ es, s < e.1) ∧ TidyEntries es

end

def kindAt? (n : Node) (names : Location) : Option Bool :=
  match n.get? names with
  | some (.file _) => some false
  | some (.dir _) => some true
  | _ => none

variable {es : List (String × Node)}

variable {m : Node} {rest : Location} {s : String}

theorem get?_dir_cons (s' : String) :
    (dir ((s', m) :: es)).get? (s :: rest) = if s = s' then m.get? rest else (dir es).get? (s :: rest) := by
  simp only [get?, lookup_cons]
  by_cases h : s = s'
  · simp [h]
  · simp [h, beq_false_of_ne h]

theorem exists_mem_of_get? (h : (dir es).get? (s :: rest) = some m) : ∃ e ∈ es, e.1 = s := by
  obtain ⟨_, n, he, hs, -⟩ := get?_cons h
  cases he
  obtain ⟨front, back, hes, -⟩ := lookup_eq_some_iff.mp hs
  exact ⟨(s, n), by simp [hes], rfl⟩

variable {n : Node} {names : Location}

theorem tidy_of_lookup (htidy : TidyEntries es) (h : es.lookup s = some n) : IsName s ∧ n.Tidy := by
  induction es with
  | nil => cases h
  | cons e es ih =>
    obtain ⟨hs', hm, -, hes⟩ := htidy
    rw [lookup_cons] at h
    split at h
    · rename_i he
      cases h
      rw [eq_of_beq he]
      exact ⟨hs', hm⟩
    · exact ih hes h

theorem isName_of_tidy (htidy : n.Tidy) (h : n.get? names = some m) : ∀ s ∈ names, IsName s := by
  induction names generalizing n with
  | nil => simp
  | cons s rest ih =>
    obtain ⟨es, n', rfl, hes, hrest⟩ := get?_cons h
    obtain ⟨hs, hn'⟩ := tidy_of_lookup htidy hes
    intro s' hs'
    obtain rfl | hs' := mem_cons.mp hs'
    · exact hs
    · exact ih hn' hrest s' hs'

theorem nodup_of_tidy (htidy : TidyEntries es) : (es.map Prod.fst).Nodup := by
  induction es with
  | nil => exact .nil
  | cons e es ih =>
    obtain ⟨-, -, hlt, hes⟩ := htidy
    refine nodup_cons.mpr ⟨fun hmem ↦ ?_, ih hes⟩
    obtain ⟨e', he', heq⟩ := mem_map.mp hmem
    exact String.lt_irrefl _ (heq ▸ hlt e' he')

theorem tidy_of_get? (htidy : n.Tidy) (h : n.get? names = some m) : m.Tidy := by
  induction names generalizing n with
  | nil =>
    cases h
    exact htidy
  | cons s rest ih =>
    obtain ⟨es, n', rfl, hes, hrest⟩ := get?_cons h
    exact ih (tidy_of_lookup htidy hes).2 hrest

theorem get?_entry (htidy : n.Tidy) (h : n.get? names = some (.dir es)) {e : String × Node} (he : e ∈ es) :
    n.get? (names ++ [e.1]) = some e.2 := by
  rw [get?_concat_dir h]
  exact lookup_of_mem (nodup_of_tidy (tidy_of_get? htidy h)) he

end Node

namespace Walk

def Visit.names : Visit → Location
  | .directory names _ | .file names | .excluded names => names

section Visits

variable (skip : Location → Bool → Bool) (opens : Location → Bool)

mutual

/-- The visits to a node and below it, where `opens` tells which directories can be read. -/
def visits (front : Location) : Node → List Visit
  | .file _ => [if skip front false then .excluded front else .file front]
  | .link _ => if skip front false then [.excluded front] else []
  | .dir es =>
    if skip front true then [.excluded front]
    else .directory front (opens front) :: if opens front then inside front es else []

def inside (front : Location) : List (String × Node) → List Visit
  | [] => []
  | (s, n) :: es => visits (front ++ [s]) n ++ inside front es

end

def visit? (names : Location) : Node → Option Visit
  | .file _ => some (if skip names false then .excluded names else .file names)
  | .link _ => if skip names false then some (.excluded names) else none
  | .dir _ => some (if skip names true then .excluded names else .directory names (opens names))

/-- Whether the walk comes to what is below a node, told by the names of the node and those below it. -/
def isOpen : Location → Location → Bool
  | _, [] => true
  | front, s :: rest => (!skip front true && opens front) && isOpen (front ++ [s]) rest

variable {skip opens}

theorem isOpen_iff {front names : Location} : isOpen skip opens front names = true ↔
    ∀ mid back, names = mid ++ back → back ≠ [] → skip (front ++ mid) true = false ∧ opens (front ++ mid) = true := by
  induction names generalizing front with
  | nil => simp [isOpen]
  | cons s rest ih =>
    rw [isOpen, Bool.and_eq_true, Bool.and_eq_true, Bool.not_eq_true', ih]
    constructor
    · rintro ⟨hfront, hrest⟩ (_ | ⟨s', mid⟩) back he hback
      · rwa [append_nil]
      · cases he
        simpa using hrest mid back rfl hback
    · intro h
      refine ⟨by simpa using h [] (s :: rest) rfl (cons_ne_nil s rest), fun mid back he hback ↦ ?_⟩
      simpa using h (s :: mid) back (by rw [he]; rfl) hback

theorem names_of_visit? {names : Location} {n : Node} {v : Visit} (h : visit? skip opens names n = some v) :
    v.names = names := by
  cases n <;> rw [visit?] at h <;> split at h <;> cases h <;> rfl

variable {front : Location} {n : Node} {v : Visit}

theorem mem_visits_cases : v ∈ visits skip opens front n ↔ visit? skip opens front n = some v ∨
    ∃ es, n = .dir es ∧ skip front true = false ∧ opens front = true ∧ v ∈ inside skip opens front es := by
  cases n <;> grind [visits, visit?]

mutual

theorem mem_visits (front : Location) : (n : Node) → n.Tidy → (v : Visit) →
    (v ∈ visits skip opens front n ↔ ∃ names m, n.get? names = some m ∧ isOpen skip opens front names = true ∧
      visit? skip opens (front ++ names) m = some v)
  | .file _, _, v | .link _, _, v => by
    rw [mem_visits_cases]
    refine ⟨fun h ↦ ⟨[], _, rfl, rfl, by simpa using h⟩, ?_⟩
    rintro ⟨_ | ⟨s, rest⟩, m, hm, -, hv⟩ <;> cases hm
    exact .inl (by simpa using hv)
  | .dir es, htidy, v => by
    have hinside := mem_inside front es htidy v
    rw [mem_visits_cases]
    constructor
    · rintro (h | ⟨_, he, hskip, hopens, h⟩)
      · exact ⟨[], _, rfl, rfl, by rwa [append_nil]⟩
      · cases he
        obtain ⟨s, rest, m, hm, hopen, hv⟩ := hinside.mp h
        exact ⟨s :: rest, m, hm, by rw [isOpen, hskip, hopens, hopen]; rfl, hv⟩
    · rintro ⟨_ | ⟨s, rest⟩, m, hm, hopen, hv⟩
      · cases hm
        exact .inl (by rwa [append_nil] at hv)
      · rw [isOpen, Bool.and_eq_true, Bool.and_eq_true, Bool.not_eq_true'] at hopen
        exact .inr ⟨es, rfl, hopen.1.1, hopen.1.2, hinside.mpr ⟨s, rest, m, hm, hopen.2, hv⟩⟩

theorem mem_inside (front : Location) : (es : List (String × Node)) → Node.TidyEntries es → (v : Visit) →
    (v ∈ inside skip opens front es ↔ ∃ s rest m, (Node.dir es).get? (s :: rest) = some m ∧
      isOpen skip opens (front ++ [s]) rest = true ∧ visit? skip opens (front ++ s :: rest) m = some v)
  | [], _, v => by simp [inside, Node.get?]
  | (s', n) :: es, ⟨_, hn, hlt, hes⟩, v => by
    have hhere := mem_visits (front ++ [s']) n hn v
    rw [inside, mem_append, hhere, mem_inside front es hes v]
    simp only [Node.get?_dir_cons, append_assoc, singleton_append]
    constructor
    · rintro (⟨rest, m, hm, h⟩ | ⟨s, rest, m, hm, h⟩)
      · exact ⟨s', rest, m, by rwa [if_pos rfl], h⟩
      · -- names ascend strictly, so no later entry has the same name
        have hne : s ≠ s' := by
          rintro rfl
          obtain ⟨e, he, rfl⟩ := Node.exists_mem_of_get? hm
          exact String.lt_irrefl _ (hlt e he)
        exact ⟨s, rest, m, by rwa [if_neg hne], h⟩
    · rintro ⟨s, rest, m, hm, h⟩
      split at hm
      · rename_i heq
        subst heq
        exact .inl ⟨rest, m, hm, h⟩
      · exact .inr ⟨s, rest, m, hm, h⟩

end

mutual

theorem pairwise_visits (front : Location) : (n : Node) → n.Tidy →
    (visits skip opens front n).Pairwise (·.names < ·.names)
  | .file _, _ => by
    rw [visits]
    split <;> simp
  | .link _, _ => by
    rw [visits]
    split <;> simp
  | .dir es, htidy => by
    rw [visits]
    split
    · simp
    · refine pairwise_cons.mpr ⟨fun v hv ↦ ?_, ?_⟩
      · split at hv
        · obtain ⟨s, rest, m, -, -, hv⟩ := (mem_inside front es htidy v).mp hv
          rw [names_of_visit? hv]
          have hlt : front ++ [] < front ++ s :: rest := append_left_lt (nil_lt_cons s rest)
          rwa [append_nil] at hlt
        · cases hv
      · split
        · exact pairwise_inside front es htidy
        · exact .nil

theorem pairwise_inside (front : Location) : (es : List (String × Node)) → Node.TidyEntries es →
    (inside skip opens front es).Pairwise (·.names < ·.names)
  | [], _ => by simp [inside]
  | (s, n) :: es, ⟨_, hn, hlt, hes⟩ => by
    rw [inside]
    refine pairwise_append.mpr ⟨pairwise_visits (front ++ [s]) n hn, pairwise_inside front es hes, ?_⟩
    intro v hv v' hv'
    obtain ⟨names, m, -, -, hv⟩ := (mem_visits (front ++ [s]) n hn v).mp hv
    obtain ⟨s', rest', m', hm', -, hv'⟩ := (mem_inside front es hes v').mp hv'
    obtain ⟨e, he, rfl⟩ := Node.exists_mem_of_get? hm'
    rw [names_of_visit? hv, names_of_visit? hv', append_assoc]
    exact append_left_lt (cons_lt_cons_iff.mpr (.inl (hlt e he)))

end

end Visits

abbrev Entry := Location × Bool

def Visit.entry? : Visit → Option Entry
  | .directory names _ => some (names, true)
  | .file names => some (names, false)
  | .excluded _ => none

def Entry.event (root : Path) (entry : Entry) : Event :=
  if entry.2 then .directory (pathBelow root entry.1) else .file (pathBelow root entry.1)

variable (skip : Location → Bool → Bool) (opens : Location → Bool)

/-- Whether an entry is neither hidden by an exclusion nor in a directory that cannot be read, told by the names of
a node above it and its names below that. -/
def isListed (isDir : Bool) : Location → Location → Bool
  | front, [] => !skip front isDir
  | front, s :: rest => (!skip front true && opens front) && isListed isDir (front ++ [s]) rest

theorem isListed_eq (isDir : Bool) (front names : Location) :
    isListed skip opens isDir front names = (isOpen skip opens front names && !skip (front ++ names) isDir) := by
  induction names generalizing front with
  | nil => simp [isListed, isOpen]
  | cons s rest ih => simp only [isListed, isOpen, ih, append_assoc, singleton_append, Bool.and_assoc]

variable {skip opens} {front names : Location} {isDir : Bool}

theorem entry_visit?_iff {n : Node} {names' : Location} :
    (∃ v, visit? skip opens names n = some v ∧ v.entry? = some (names', isDir)) ↔
      names = names' ∧ skip names isDir = false ∧ n.kindAt? [] = some isDir := by
  cases hfile : skip names false <;> cases hdir : skip names true <;> cases n <;> cases isDir <;>
    simp [visit?, Visit.entry?, Node.kindAt?, Node.get?, hfile, hdir]

theorem mem_entries_iff (front : Location) (htidy : Node.TidyEntries es) :
    (names, isDir) ∈ (inside skip opens front es).filterMap Visit.entry? ↔ ∃ s rest, names = front ++ s :: rest ∧
      isListed skip opens isDir (front ++ [s]) rest = true ∧ (Node.dir es).kindAt? (s :: rest) = some isDir := by
  have hkind {names : Location} {n : Node} (hn : (Node.dir es).get? names = some n) :
      (Node.dir es).kindAt? names = n.kindAt? [] := by
    rw [Node.kindAt?, hn, Node.kindAt?, Node.get?]
  simp only [mem_filterMap, mem_inside front es htidy, isListed_eq, Bool.and_eq_true, Bool.not_eq_true',
    append_assoc, singleton_append]
  constructor
  · rintro ⟨v, ⟨s, rest, n, hn, hopen, hv⟩, he⟩
    obtain ⟨rfl, hskip, hn'⟩ := entry_visit?_iff.mp ⟨v, hv, he⟩
    exact ⟨s, rest, rfl, ⟨hopen, hskip⟩, (hkind hn).trans hn'⟩
  · rintro ⟨s, rest, rfl, ⟨hopen, hskip⟩, hk⟩
    cases hn : (Node.dir es).get? (s :: rest) with
    | none => simp [Node.kindAt?, hn] at hk
    | some n =>
      obtain ⟨v, hv, he⟩ := entry_visit?_iff.mpr ⟨rfl, hskip, (hkind hn).symm.trans hk⟩
      exact ⟨v, ⟨s, rest, n, hn, hopen, hv⟩, he⟩

theorem pairwise_entries (front : Location) (htidy : Node.TidyEntries es) :
    ((inside skip opens front es).filterMap Visit.entry?).Pairwise (·.1 < ·.1) := by
  have hentry {v : Visit} {entry : Entry} (h : v.entry? = some entry) : v.names = entry.1 := by
    cases v <;> cases h <;> rfl
  refine (pairwise_inside front es htidy).filterMap _ fun v v' hlt entry he entry' he' ↦ ?_
  rwa [hentry he, hentry he'] at hlt

section Still

/-- Whether the path of a directory below the root can be followed. -/
def canRead (root : Path) (names : Location) : Bool :=
  (Disk.fault? root names).isNone

theorem length_lt_pathBelow {root : Path} (hroot : root.text.isEmpty = false) (hnames : ∀ s ∈ names, IsName s) :
    names.length < Text.byteLength (pathBelow root names).text.toList := by
  have hlonger : Text.byteLength root.text.toList + names.length ≤
      Text.byteLength (pathBelow root names).text.toList := by
    induction names generalizing root with
    | nil => exact Nat.le_refl _
    | cons s rest ih =>
      have hs := hnames s (.head _)
      have hrest := ih (isEmpty_joinName hroot hs) fun s' hs' ↦ hnames s' (.tail _ hs')
      have hpos := Text.byteLength_pos hs.notEmpty
      rw [toList_joinName hroot hs, Text.byteLength_append, Text.byteLength_append] at hrest
      exact Nat.le_trans (by rw [length_cons]; omega) hrest
  have hpos : 0 < Text.byteLength root.text.toList :=
    Text.byteLength_pos (by simpa [String.isEmpty_iff] using hroot)
  omega

variable {d : Disk} {root : Path} {top es : List (String × Node)} {vs : List Visit}

theorem read_of_get? (hbase : d.node root = .ok (.dir top)) (htidy : Node.TidyEntries top)
    {found : List (String × Node)} (hne : names ≠ []) (hget : (Node.dir top).get? names = some (.dir found)) :
    canRead root names = true ∧ read d root names = .ok found ∨
      canRead root names = false ∧ ∃ err, read d root names = .error err := by
  obtain ⟨here, hlocate, -⟩ := Disk.exists_locate hbase
  have hnames := Node.isName_of_tidy (n := .dir top) htidy hget
  have hlength := length_lt_pathBelow (Disk.follow_of_locate hlocate).1 hnames
  rw [read, Disk.entries, Disk.node_pathBelow hbase hnames hne hget (fun _ h ↦ by cases h), canRead]
  cases hfault : Disk.fault? root names with
  | none =>
    have hshort : Text.byteLength (pathBelow root names).text.toList ≤ Disk.pathLimit := by
      rw [Disk.fault?] at hfault
      grind
    exact .inl ⟨rfl, if_pos (Nat.lt_of_lt_of_le hlength hshort)⟩
  | some err =>
    refine .inr ⟨rfl, ?_⟩
    split
    · exact ⟨err, rfl⟩
    · exact ⟨_, rfl⟩

theorem Tour.eq_inside {X : Type} {v : Visitor X} {x x' : X} {P : X → Prop} (hbase : d.node root = .ok (.dir top))
    (htidy : Node.TidyEntries top)
    (hnode : ∀ x, P x → ∀ names, (v.disk x).node (pathBelow root names) = d.node (pathBelow root names))
    (hvisit : ∀ event x, P x → P (v.visit event x)) (h : Tour v skip root front es x vs x') (hx : P x)
    (hes : ∀ e ∈ es, (Node.dir top).get? (front ++ [e.1]) = some e.2) :
    vs = inside skip (canRead root) front es := by
  induction h with
  | done => rfl
  | @hidden _ _ n _ _ _ _ hskip _ ih =>
    rw [inside, ← ih hx fun e he ↦ hes e (.tail _ he)]
    cases n <;> simp only [Node.isDir] at hskip <;> rw [visits, hskip] <;> rfl
  | link hskip _ ih =>
    rw [inside, ← ih hx fun e he ↦ hes e (.tail _ he), visits, hskip]
    rfl
  | file hskip _ ih =>
    rw [inside, ← ih (hvisit _ _ hx) fun e he ↦ hes e (.tail _ he), visits, hskip]
    rfl
  | unread hskip hread _ ih =>
    rw [read_congr (hnode _ hx)] at hread
    obtain ⟨-, hok⟩ | ⟨hclosed, -⟩ := read_of_get? hbase htidy (by simp) (hes _ mem_cons_self)
    · exact nomatch hok.symm.trans hread
    · rw [inside, ← ih (hvisit _ _ hx) fun e he ↦ hes e (.tail _ he), visits, hskip, hclosed]
      rfl
  | directory hskip hread henter _ ih ihs =>
    rw [read_congr (hnode _ hx)] at hread
    have hhere := hes _ mem_cons_self
    have hinner := henter.keeps hvisit (hvisit _ _ hx)
    obtain ⟨hopen, hok⟩ | ⟨-, _, herr⟩ := read_of_get? hbase htidy (by simp) hhere
    · -- what is read is what the tree has there
      obtain rfl := Except.ok.inj (hok.symm.trans hread)
      rw [inside, ← ihs hinner fun e he ↦ hes e (.tail _ he), visits, hskip, hopen,
        ← ih (hvisit _ _ hx) fun e he ↦ Node.get?_entry (n := .dir top) htidy hhere he]
      rfl
    · exact nomatch herr.symm.trans hread

/-- A tour of a whole directory, while nothing below it changes. -/
theorem Tour.eq_inside_top {X : Type} {v : Visitor X} {x x' : X} (P : X → Prop) (hbase : d.node root = .ok (.dir top))
    (htidy : Node.TidyEntries top)
    (hnode : ∀ x, P x → ∀ names, (v.disk x).node (pathBelow root names) = d.node (pathBelow root names))
    (hvisit : ∀ event x, P x → P (v.visit event x)) (h : Tour v skip root [] top x vs x') (hx : P x) :
    vs = inside skip (canRead root) [] top :=
  h.eq_inside hbase htidy hnode hvisit hx fun _ he ↦ Node.get?_entry (n := .dir top) htidy rfl he

end Still

/-- The events tell the entries of a directory but those that an exclusion hides or that cannot be read, each once
and in order. -/
def Lists (patterns : List String) (root : Path) (es : List (String × Node)) (events : List Event) : Prop :=
  ∃ entries : List Entry, events = entries.map (Entry.event root) ∧ entries.Pairwise (·.1 < ·.1) ∧
    ∀ names isDir, (names, isDir) ∈ entries ↔ ∃ s rest, names = s :: rest ∧
      isListed (Exclusions.ofPatterns patterns).skip (canRead root) isDir [s] rest = true ∧
      (Node.dir es).kindAt? names = some isDir

variable {disk : Disk} {root : Path} {patterns : List String} {es : List (String × Node)}

theorem walk_eq (hroot : root.same standardInput = false) (hes : disk.node root = .ok (.dir es))
    (htidy : Node.TidyEntries es) : walk disk root patterns =
      ⟨(inside (Exclusions.ofPatterns patterns).skip (canRead root) [] es).filterMap (Visit.event? root),
        (inside (Exclusions.ofPatterns patterns).skip (canRead root) [] es).foldl Summary.count {}⟩ := by
  obtain ⟨vs, events, htour, hrun⟩ := Visitor.walk_tour (v := recorder disk) (x := []) patterns hroot hes
  have hvs := htour.eq_inside_top (fun _ ↦ True) hes htidy (fun _ _ _ ↦ rfl) (fun _ _ _ ↦ trivial) trivial
  rw [walk, hrun, htour.recorded, hvs, nil_append]

theorem filterMap_event? (root : Path) (vs : List Visit) :
    vs.filterMap (Visit.event? root) = (vs.filterMap Visit.entry?).map (Entry.event root) := by
  have hevent : Visit.event? root = fun v ↦ v.entry?.map (Entry.event root) := by
    funext v
    cases v <;> rfl
  rw [map_filterMap, hevent]

theorem lists_inside (patterns : List String) (root : Path) (htidy : Node.TidyEntries es) : Lists patterns root es
    ((inside (Exclusions.ofPatterns patterns).skip (canRead root) [] es).filterMap (Visit.event? root)) := by
  refine ⟨_, filterMap_event? root _, pairwise_entries [] htidy, fun names isDir ↦ ?_⟩
  rw [mem_entries_iff [] htidy]
  constructor <;> rintro ⟨s, rest, rfl, h⟩ <;> exact ⟨s, rest, rfl, h⟩

end Walk

end AnalysisServer
