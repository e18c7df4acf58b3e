import AnalysisServer.Proofs.Project.RootFiles

namespace AnalysisServer

open List

/-- Some of the patterns match, and none that is well formed has too many levels. -/
def Glob.Covers (patterns : String → Prop) (text : String) : Prop :=
  (∀ p, patterns p → isShallow p = true) ∧ ∃ p, patterns p ∧ matchesText text p = true

theorem Glob.anyMatch_set_iff {l : List String} {patterns : String → Prop} (h : ∀ p, p ∈ l ↔ patterns p)
    (text : String) : anyMatch (set l) text = true ↔ Covers patterns text := by
  simp only [anyMatch_set, Bool.and_eq_true, all_eq_true, any_eq_true, h, Covers]

namespace Walk

/-- An entry is excluded by a pattern for it, and a directory also by a pattern for all that is below it. -/
def IsExcluded (patterns : List String) (names : Location) (isDir : Bool) : Prop :=
  Glob.Covers (· ∈ patterns) ("/".intercalate names) ∨
    isDir = true ∧ Glob.Covers (fun q ↦ q ≠ "" ∧ q ++ "/**" ∈ patterns) ("/".intercalate names)

/-- No directory between the root and an entry is excluded or cannot be read. -/
def IsReached (patterns : List String) (root : Path) (names : Location) : Prop :=
  ∀ front back, names = front ++ back → front ≠ [] → back ≠ [] →
    ¬ IsExcluded patterns front true ∧ canRead root front = true

section Exclusions

variable {patterns : List String} {root : Path} {names : Location}

theorem directoryPattern?_eq_some_iff {p q : String} : directoryPattern? p = some q ↔ q ≠ "" ∧ q ++ "/**" = p := by
  rw [directoryPattern?]
  constructor
  · intro h
    split at h
    · rename_i hmark
      obtain ⟨⟨front, hfront⟩, hlong⟩ := hmark.imp_left isSuffixOf_iff_suffix.mp
      rw [← hfront] at h hlong
      simp only [length_append, Nat.add_sub_cancel, take_left', Option.some.injEq] at h hlong
      subst h
      refine ⟨?_, String.toList_inj.mp (by rw [String.toList_append, String.toList_ofList, ← hfront]; rfl)⟩
      intro hempty
      have hnil : front = [] := by simpa using congrArg String.toList hempty
      simp [hnil] at hlong
    · cases h
  · rintro ⟨hq, rfl⟩
    have htext : (q ++ "/**").toList = q.toList ++ belowMark := String.toList_append
    have hlong : belowMark.length < (q.toList ++ belowMark).length := by
      have hpos := length_pos_iff.mpr (mt String.toList_eq_nil_iff.mp hq)
      rw [length_append]
      omega
    simp only [htext]
    rw [if_pos ⟨isSuffixOf_iff_suffix.mpr ⟨_, rfl⟩, hlong⟩, length_append, Nat.add_sub_cancel, take_left,
      String.ofList_toList]

theorem skip_iff {isDir : Bool} :
    (Exclusions.ofPatterns patterns).skip names isDir = true ↔ IsExcluded patterns names isDir := by
  have hentries := @Glob.anyMatch_set_iff patterns (· ∈ patterns) (fun _ ↦ Iff.rfl)
  have hdirectories := @Glob.anyMatch_set_iff (patterns.filterMap directoryPattern?)
    fun q ↦ q ≠ "" ∧ q ++ "/**" ∈ patterns
  simp only [mem_filterMap, directoryPattern?_eq_some_iff] at hdirectories
  rw [Exclusions.skip, Exclusions.ofPatterns, Bool.or_eq_true, Bool.and_eq_true, hentries, hdirectories]
  · rfl
  · exact fun q ↦ ⟨fun ⟨_, hp, hq, he⟩ ↦ ⟨hq, he ▸ hp⟩, fun ⟨hq, hp⟩ ↦ ⟨_, hp, hq, rfl⟩⟩

theorem isExcluded_iff {isDir : Bool} (hentries : ∀ p ∈ patterns, Glob.isShallow p = true)
    (hdirectories : ∀ q, q ≠ "" → q ++ "/**" ∈ patterns → Glob.isShallow q = true) :
    IsExcluded patterns names isDir ↔ (∃ p ∈ patterns, Glob.matchesText ("/".intercalate names) p = true) ∨
        isDir = true ∧ ∃ q, q ≠ "" ∧ q ++ "/**" ∈ patterns ∧ Glob.matchesText ("/".intercalate names) q = true := by
  simp only [IsExcluded, Glob.Covers, and_assoc]
  exact ⟨.imp And.right (.imp_right And.right),
    .imp (⟨hentries, ·⟩) (.imp_right (⟨fun q h ↦ hdirectories q h.1 h.2, ·⟩))⟩

theorem isReached_iff {s : String} {rest : Location} :
    isOpen (Exclusions.ofPatterns patterns).skip (canRead root) [s] rest = true ↔
      IsReached patterns root (s :: rest) := by
  simp only [isOpen_iff, ← Bool.not_eq_true, skip_iff, IsReached]
  constructor
  · rintro h (_ | ⟨s', mid⟩) back he hfront hback
    · exact absurd rfl hfront
    · cases he
      exact h mid back rfl hback
  · intro h mid back he hback
    exact h (s :: mid) back (by rw [he]; rfl) (cons_ne_nil s mid) hback

theorem isListed_iff {s : String} {rest : Location} {isDir : Bool} :
    isListed (Exclusions.ofPatterns patterns).skip (canRead root) isDir [s] rest = true ↔
      IsReached patterns root (s :: rest) ∧ ¬ IsExcluded patterns (s :: rest) isDir := by
  rw [isListed_eq, Bool.and_eq_true, Bool.not_eq_true', isReached_iff, ← Bool.not_eq_true, skip_iff]
  rfl

end Exclusions

section Order

theorem compare_names (front : List Component) {a b : Location} (h : a < b) :
    compare (front ++ a.map .name) (front ++ b.map .name) = .lt := by
  rw [List.compare_eq_compareLex]
  induction front with
  | cons c front ih => rwa [cons_append, cons_append, List.compareLex_cons_cons, Std.ReflOrd.compare_self]
  | nil =>
    induction a generalizing b with
    | nil =>
      cases b with
      | nil => exact absurd h (List.lt_irrefl _)
      | cons s b => rfl
    | cons s a ih =>
      cases b with
      | nil => exact absurd h (not_lt_nil _)
      | cons s' b =>
        simp only [nil_append, map_cons, List.compareLex_cons_cons, Component.compare_name]
        obtain hs | ⟨rfl, hrest⟩ := cons_lt_cons_iff.mp h
        · have hlt : compare s s' = .lt := if_pos hs
          rw [hlt]
          rfl
        · rw [Std.ReflOrd.compare_self]
          exact ih hrest

theorem order_pathBelow {root : Path} (hroot : root.text.isEmpty = false) {a b : Location}
    (ha : ∀ s ∈ a, Path.IsName s) (hb : ∀ s ∈ b, Path.IsName s) (h : a < b) :
    (pathBelow root a).order (pathBelow root b) = .lt := by
  obtain ⟨-, -, -, hca, -⟩ := below_pathBelow hroot ha
  obtain ⟨-, -, -, hcb, -⟩ := below_pathBelow hroot hb
  rw [Path.order, hca, hcb]
  exact compare_names root.components h

end Order

def Event.isFile : Event → Bool
  | file _ => true
  | directory _ => false

def Visit.hidden? : Visit → Option Location
  | excluded names => some names
  | _ => none

def Visit.isUnread : Visit → Bool
  | directory _ isRead => !isRead
  | _ => false

/-- A walk has told the entries that are not excluded, and counted those that are and the directories it could not
read. -/
structure Reports (patterns : List String) (root : Path) (es : List (String × Node)) (entries : List Entry)
    (hidden : List Location) (r : Result) : Prop where
  events : r.events = entries.map (Entry.event root)
  mem_entries (names : Location) (isDir : Bool) : (names, isDir) ∈ entries ↔
    names ≠ [] ∧ (Node.dir es).kindAt? names = some isDir ∧ IsReached patterns root names ∧
      ¬ IsExcluded patterns names isDir
  ascending : entries.Pairwise fun a b ↦ (pathBelow root a.1).order (pathBelow root b.1) = .lt
  inOrder : entries.Pairwise fun a b ↦ ¬ b.1 <+: a.1
  mem_hidden (names : Location) : names ∈ hidden ↔ names ≠ [] ∧ ∃ n, (Node.dir es).get? names = some n ∧
    IsReached patterns root names ∧ IsExcluded patterns names n.isDir
  nodup : hidden.Nodup
  summary : r.summary = {
    files := r.events.countP Event.isFile
    directories := r.events.countP fun e ↦ !e.isFile
    excluded := hidden.length
    errors := entries.countP fun entry ↦ entry.2 && !canRead root entry.1 }

section Hidden

variable {skip : Location → Bool → Bool} {opens : Location → Bool} {names : Location} {es : List (String × Node)}

theorem visit?_eq_excluded {names' : Location} {n : Node} :
    visit? skip opens names n = some (.excluded names') ↔ names = names' ∧ skip names n.isDir = true := by
  cases n <;> simp only [visit?, Node.isDir] <;> split <;> simp_all

theorem mem_hidden_iff (htidy : Node.TidyEntries es) :
    names ∈ (inside skip opens [] es).filterMap Visit.hidden? ↔ ∃ s rest n, names = s :: rest ∧
      (Node.dir es).get? names = some n ∧ isOpen skip opens [s] rest = true ∧ skip names n.isDir = true := by
  have hvisit : names ∈ (inside skip opens [] es).filterMap Visit.hidden? ↔
      .excluded names ∈ inside skip opens [] es := by
    rw [mem_filterMap]
    refine ⟨?_, fun h ↦ ⟨_, h, rfl⟩⟩
    rintro ⟨_ | _ | names', hv, he⟩ <;> cases he
    exact hv
  rw [hvisit, mem_inside [] es htidy]
  simp only [nil_append, visit?_eq_excluded]
  constructor
  · rintro ⟨s, rest, n, hn, hopen, rfl, hskip⟩
    exact ⟨s, rest, n, rfl, hn, hopen, hskip⟩
  · rintro ⟨s, rest, n, rfl, hn, hopen, hskip⟩
    exact ⟨s, rest, n, hn, hopen, rfl, hskip⟩

theorem nodup_hidden (htidy : Node.TidyEntries es) : ((inside skip opens [] es).filterMap Visit.hidden?).Nodup := by
  refine (pairwise_inside [] es htidy).filterMap _ fun v v' hlt names hv names' hv' ↦ ?_
  cases v <;> cases hv
  cases v' <;> cases hv'
  exact fun h ↦ List.lt_irrefl _ (h ▸ hlt)

theorem countP_isUnread (htidy : Node.TidyEntries es) : (inside skip opens [] es).countP Visit.isUnread =
      ((inside skip opens [] es).filterMap Visit.entry?).countP fun entry ↦ entry.2 && !opens entry.1 := by
  rw [countP_filterMap]
  refine countP_congr fun v hv ↦ ?_
  obtain ⟨s, rest, n, -, -, hv⟩ := (mem_inside [] es htidy v).mp hv
  cases v with
  | directory names isRead =>
    obtain rfl : isRead = opens names := by
      cases n <;> rw [visit?] at hv <;> split at hv <;> cases hv
      rfl
    simp [Visit.isUnread, Visit.entry?]
  | file _ | excluded _ => simp [Visit.isUnread, Visit.entry?]

end Hidden

theorem foldl_count (root : Path) (vs : List Visit) (sum : Summary) : vs.foldl Summary.count sum = {
    files := sum.files + (vs.filterMap (Visit.event? root)).countP Event.isFile
    directories := sum.directories + (vs.filterMap (Visit.event? root)).countP fun e ↦ !e.isFile
    excluded := sum.excluded + (vs.filterMap Visit.hidden?).length
    errors := sum.errors + vs.countP Visit.isUnread } := by
  induction vs generalizing sum with
  | nil => rfl
  | cons v vs ih =>
    rw [foldl_cons, ih]
    rcases v with ⟨names, _ | _⟩ | names | names <;>
      simp [Summary.count, filterMap_cons, countP_cons, Visit.event?, Visit.hidden?, Visit.isUnread,
        Event.isFile] <;> omega

/-- Of a directory that is not named by a lone dash a walk reports what is neither excluded nor out of reach. Where no
pattern has too many levels, each of them excludes what it matches. -/
theorem walk_reports {disk : Disk} {root : Path} {es : List (String × Node)} (hes : disk.node root = .ok (.dir es))
    (htidy : Node.TidyEntries es) (patterns : List String) :
    (root.same standardInput = true → walk disk root patterns = ⟨[], {}⟩) ∧
    (root.same standardInput = false →
      ∃ entries hidden, Reports patterns root es entries hidden (walk disk root patterns)) ∧
    ((∀ p ∈ patterns, Glob.isShallow p = true) →
      (∀ q, q ≠ "" → q ++ "/**" ∈ patterns → Glob.isShallow q = true) → ∀ names isDir,
      (IsExcluded patterns names isDir ↔ (∃ p ∈ patterns, Glob.matchesText ("/".intercalate names) p = true) ∨
          isDir = true ∧ ∃ q, q ≠ "" ∧ q ++ "/**" ∈ patterns ∧
            Glob.matchesText ("/".intercalate names) q = true)) := by
  refine ⟨fun hroot ↦ by rw [walk, Visitor.walk, if_pos hroot], fun hroot ↦ ?_,
    fun hentries hdirectories names isDir ↦ isExcluded_iff hentries hdirectories⟩
  have hmem (names : Location) (isDir : Bool) :
      (names, isDir) ∈ (inside (Exclusions.ofPatterns patterns).skip (canRead root) [] es).filterMap Visit.entry? ↔
      names ≠ [] ∧ (Node.dir es).kindAt? names = some isDir ∧ IsReached patterns root names ∧
        ¬ IsExcluded patterns names isDir := by
    rw [mem_entries_iff [] htidy]
    constructor
    · rintro ⟨s, rest, rfl, hlisted, hkind⟩
      exact ⟨cons_ne_nil s rest, hkind, isListed_iff.mp hlisted⟩
    · rintro ⟨hne, hkind, hlisted⟩
      obtain ⟨s, rest, rfl⟩ := exists_cons_of_ne_nil hne
      exact ⟨s, rest, rfl, isListed_iff.mpr hlisted, hkind⟩
  have hpairs : ((inside (Exclusions.ofPatterns patterns).skip (canRead root) [] es).filterMap
      Visit.entry?).Pairwise _ := pairwise_entries [] htidy
  refine ⟨_, (inside (Exclusions.ofPatterns patterns).skip (canRead root) [] es).filterMap Visit.hidden?,
    by rw [walk_eq hroot hes htidy, filterMap_event?], hmem, ?_, ?_, fun names ↦ ?_, nodup_hidden htidy, ?_⟩
  · obtain ⟨here, hlocate, -⟩ := Disk.exists_locate hes
    obtain ⟨hempty, -⟩ := Disk.follow_of_locate hlocate
    have hnames {entry : Entry}
        (h : entry ∈ (inside (Exclusions.ofPatterns patterns).skip (canRead root) [] es).filterMap Visit.entry?) :
        ∀ s ∈ entry.1, Path.IsName s := by
      obtain ⟨-, hkind, -⟩ := (hmem entry.1 entry.2).mp h
      cases hn : (Node.dir es).get? entry.1 with
      | some n => exact Node.isName_of_tidy (n := .dir es) htidy hn
      | none => simp [Node.kindAt?, hn] at hkind
    exact hpairs.imp_of_mem fun ha hb hlt ↦ order_pathBelow hempty (hnames ha) (hnames hb) hlt
  · exact hpairs.imp fun hlt h ↦ h.le hlt
  · rw [mem_hidden_iff htidy]
    constructor
    · rintro ⟨s, rest, n, rfl, hn, hopen, hskip⟩
      exact ⟨cons_ne_nil s rest, n, hn, isReached_iff.mp hopen, skip_iff.mp hskip⟩
    · rintro ⟨hne, n, hn, hreached, hexcluded⟩
      obtain ⟨s, rest, rfl⟩ := exists_cons_of_ne_nil hne
      exact ⟨s, rest, n, rfl, hn, isReached_iff.mpr hreached, skip_iff.mpr hexcluded⟩
  · rw [walk_eq hroot hes htidy, foldl_count root, countP_isUnread htidy]
    simp only [Nat.zero_add]

def library : List (String × Node) :=
  [("a.js", .file .empty), ("lib", .dir [("b.js", .file .empty), ("link", .link ⟨"../a.js"⟩)]),
    ("out", .dir [("c.js", .file .empty)])]

def libraryDisk : Disk :=
  { root := .dir [("-", .dir library), ("p", .dir library)] }

theorem walk_reports_library : libraryDisk.node ⟨"/p"⟩ = .ok (.dir library) ∧ Node.TidyEntries library ∧
    (walk libraryDisk ⟨"/p"⟩ ["**/link", "out/**"]).events =
      [.file ⟨"/p/a.js"⟩, .directory ⟨"/p/lib"⟩, .file ⟨"/p/lib/b.js"⟩] ∧
    ∃ entries hidden, Reports ["**/link", "out/**"] ⟨"/p"⟩ library entries hidden
      (walk libraryDisk ⟨"/p"⟩ ["**/link", "out/**"]) := by
  have hnode : libraryDisk.node ⟨"/p"⟩ = .ok (.dir library) := by with_unfolding_all rfl
  have htidy : Node.TidyEntries library := by
    simp only [library, Node.Tidy, Node.TidyEntries]
    decide
  exact ⟨hnode, htidy, by decide +kernel, (walk_reports hnode htidy _).2.1 (by decide +kernel)⟩

end Walk

namespace Glob

def nested : Nat → Token
  | 0 => .literal 'x'
  | n + 1 => .choice [[nested n]]

def nestedPattern (n : Nat) : String :=
  String.ofList (List.replicate n '{' ++ 'x' :: List.replicate n '}')

theorem parse_opening (n : Nat) (before : Option Char) (groups : List (List (List Token) × List Token)) :
    ∃ before', ∀ fuel cs, parse (fuel + n) ⟨before, [], groups⟩ (List.replicate n '{' ++ cs) =
      parse fuel ⟨before', [], List.replicate n ([], []) ++ groups⟩ cs := by
  induction n generalizing before groups with
  | zero => exact ⟨before, fun _ _ ↦ rfl⟩
  | succ n ih =>
    obtain ⟨before', hrest⟩ := ih (some '{') (([], []) :: groups)
    refine ⟨before', fun fuel cs ↦ (hrest fuel cs).trans ?_⟩
    rw [replicate_succ', append_assoc, singleton_append]

theorem parse_closing (n k fuel : Nat) (before : Option Char) : ∃ before',
    parse (fuel + n) ⟨before, [nested k], List.replicate n ([], [])⟩ (List.replicate n '}') =
      some ⟨before', [nested (n + k)], []⟩ := by
  induction n generalizing k before with
  | zero => exact ⟨before, by rw [Nat.zero_add]; cases fuel <;> rfl⟩
  | succ n ih =>
    obtain ⟨before', hrest⟩ := ih (k + 1) (some '}')
    refine ⟨before', ?_⟩
    rw [Nat.add_right_comm n 1 k]
    exact hrest

theorem tokens?_nestedPattern (n : Nat) : tokens? (nestedPattern n) = some [nested n] := by
  obtain ⟨b, hopen⟩ := parse_opening n none []
  obtain ⟨b', hclose⟩ := parse_closing n 0 0 (some 'x')
  have hparse : parse (List.replicate n '{' ++ 'x' :: List.replicate n '}').length {}
      (List.replicate n '{' ++ 'x' :: List.replicate n '}') = some ⟨b', [nested n], []⟩ := by
    have hlength : (List.replicate n '{' ++ 'x' :: List.replicate n '}').length = 0 + n + 1 + n := by
      simp
      omega
    rw [hlength]
    refine (hopen _ _).trans ?_
    rw [append_nil]
    exact hclose
  rw [tokens?, nestedPattern, String.toList_ofList]
  simp only [hparse]
  rfl

theorem depth_nested (n : Nat) : (nested n).isVoidToken = false ∧ (nested n).depth = n := by
  induction n with
  | zero => decide
  | succ n ih =>
    obtain ⟨hvoid, hdepth⟩ := ih
    have hwidth : (nested n).width ≤ 1 := by
      cases n with
      | zero => decide +kernel
      | succ n =>
        rw [nested, Token.width]
        split <;> decide
    simp [nested, Token.isVoidToken, Token.depth, areVoid, isVoid, branchDepth, depthOf, choiceLevel, sequenceLevel,
      hvoid, hdepth, hwidth, Nat.add_comm]

theorem isShallow_nestedPattern {n : Nat} (h : deepest ≤ n) : isShallow (nestedPattern n) = false := by
  have hdepth : (ofTokens [nested n]).depth = 1 + n := by
    have hglob : ofTokens [nested n] = ⟨piecesOf [nested n], 1 + depthOf [nested n]⟩ := by cases n <;> rfl
    simp [hglob, depthOf, depth_nested]
  rw [isShallow, ofPattern?, tokens?_nestedPattern, Option.map_some, Option.all_some, hdepth]
  exact decide_eq_false (by omega)

theorem set_eq_nil {patterns : List String} {p : String} (hp : p ∈ patterns) (h : isShallow p = false) :
    set patterns = [] := by
  refine if_neg fun hall ↦ ?_
  rw [all_filterMap, all_eq_true] at hall
  exact Bool.false_ne_true (h.symm.trans (hall p hp))

end Glob

namespace Walk

theorem directoryPattern?_nestedPattern (n : Nat) : directoryPattern? (Glob.nestedPattern n) = none := by
  refine Option.eq_none_iff_forall_ne_some.mpr fun q hq ↦ ?_
  obtain ⟨-, htext⟩ := directoryPattern?_eq_some_iff.mp hq
  have hlast := congrArg (fun s : String ↦ s.toList.getLast?) htext
  cases n <;> simp [Glob.nestedPattern, List.getLast?_cons, List.getLast?_replicate] at hlast

/-- A pattern for a file does not exclude it beside one with too many levels. A lone dash can be the name of a
directory, of which a walk reports nothing. -/
theorem walk_overlooks : (Glob.matchesText "lib/b.js" "**/b.js" = true ∧
      .file ⟨"/p/lib/b.js"⟩ ∈ (walk libraryDisk ⟨"/p"⟩ ["**/b.js", Glob.nestedPattern Glob.deepest]).events) ∧
    libraryDisk.node ⟨"-"⟩ = .ok (.dir library) ∧ (walk libraryDisk ⟨"-"⟩ []).events = [] := by
  have hset : Glob.set ["**/b.js", Glob.nestedPattern Glob.deepest] = [] :=
    Glob.set_eq_nil (mem_cons_of_mem _ mem_cons_self) (Glob.isShallow_nestedPattern (Nat.le_refl _))
  have hdirectories : ["**/b.js", Glob.nestedPattern Glob.deepest].filterMap directoryPattern? = [] := by
    rw [filterMap_cons, filterMap_cons, directoryPattern?_nestedPattern]
    decide +kernel
  have hexclusions : Exclusions.ofPatterns ["**/b.js", Glob.nestedPattern Glob.deepest] = ⟨[], []⟩ := by
    rw [Exclusions.ofPatterns, hset, hdirectories]
    rfl
  refine ⟨⟨by decide +kernel, ?_⟩, by with_unfolding_all rfl, rfl⟩
  rw [walk, Visitor.walk, hexclusions]
  decide +kernel

end Walk

end AnalysisServer
