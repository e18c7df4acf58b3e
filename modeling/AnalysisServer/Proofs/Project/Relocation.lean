import AnalysisServer.Proofs.Disk.Nesting
import AnalysisServer.Proofs.Project.Globs
import AnalysisServer.Proofs.Project.RootFiles

namespace AnalysisServer

open List

open Glob (anyMatch isPlain isShallow matchesText set)

open Disk (Closed look way)
open AnalysisServer.Path (IsName ofNames)
open Walk (pathBelow)

def within (top names : Location) : Path :=
  ofNames true (top ++ names)

/-- An entry of a project file that stays below the directory of the project. -/
structure IsInside (entry : String) : Prop where
  relative : (Path.mk entry).isAbsolute = false
  noParent : .parent ∉ (Path.mk entry).components

instance (entry : String) : Decidable (IsInside entry) :=
  decidable_of_iff ((Path.mk entry).isAbsolute = false ∧ .parent ∉ (Path.mk entry).components)
    ⟨fun h ↦ ⟨h.1, h.2⟩, fun h ↦ ⟨h.1, h.2⟩⟩

def named (entry : String) : Location :=
  Path.resolveDots [] (Path.mk entry).components

namespace Path

theorem resolveDots_front (front names : List String) (rest : List Component) :
    resolveDots front (names.map .name ++ rest) = resolveDots (names.reverse ++ front) rest := by
  induction names generalizing front with
  | nil => rfl
  | cons s names ih => simp [resolveDots, ih]

theorem resolveDots_inside {components : List Component} (h : .parent ∉ components) (front : List String) :
    resolveDots front components = front.reverse ++ resolveDots [] components := by
  induction components generalizing front with
  | nil => simp [resolveDots]
  | cons c components ih =>
    have hrest : .parent ∉ components := fun hmem ↦ h (.tail _ hmem)
    cases c with
    | name s =>
      rw [resolveDots, ih hrest, resolveDots, ih hrest [s]]
      simp
    | parent => exact absurd (.head _) h
    | root | current => exact ih hrest front

variable {entry : String}

theorem isName_named : ∀ s ∈ named entry, IsName s := by
  intro s hs
  obtain h | h := isName_of_mem_resolveDots hs
  · cases h
  · exact isName_of_mem_components h

variable {names : Location}

theorem normalize_join (hnames : ∀ s ∈ names, IsName s) (h : IsInside entry) :
    ((ofNames true names).join ⟨entry⟩).normalize = ofNames true (names ++ named entry) := by
  have hsplit : Text.split '/' (ofNames true (names ++ [entry])).text.toList =
      [] :: (names.map String.toList ++ Text.split '/' entry.toList) := by
    rw [toList_ofNames, if_pos rfl, singleton_append, Text.split, if_pos rfl, map_append, map_singleton]
    by_cases hnil : names = []
    · simp [hnil]
    · rw [intercalate_concat _ (by simpa), append_assoc, singleton_append, Text.split_append,
        split_names hnames, if_neg hnil]
  have hnamed : named entry = resolveDots [] ((Text.split '/' entry.toList).filterMap ofPiece?) := by
    rw [named, components, h.relative, if_neg Bool.false_ne_true]
    split <;> rfl
  have hinside : .parent ∉ (Text.split '/' entry.toList).filterMap ofPiece? :=
    fun hmem ↦ h.noParent (mem_append_right _ hmem)
  have habsolute : (ofNames true (names ++ [entry])).isAbsolute = true := by simp [isAbsolute, toList_ofNames]
  rw [join_ofNames hnames h.relative, normalize, components, habsolute, hsplit, filterMap_cons_none rfl,
    filterMap_append, filterMap_ofPiece? hnames, hnamed]
  show ofNames true (resolveDots [] (names.map .name ++ _)) = _
  rw [resolveDots_front, append_nil, resolveDots_inside hinside, reverse_reverse]

end Path

def spelled (names : Location) : List Char :=
  names.flatMap fun s ↦ '/' :: s.toList

section Patterns

variable {top dir names : Location} {entry : String}

theorem text_within (h : names ≠ []) : (within top names).text = String.ofList (spelled top ++ spelled names) := by
  apply String.toList_inj.mp
  rw [within, Path.toList_ofNames_ne_nil (by simp [h]), String.toList_ofList, flatMap_append]
  rfl

theorem trimmed_ofNames (hnames : ∀ s ∈ names, IsName s) :
    ((ofNames true names).text.toList.reverse.dropWhile (· = '/')).reverse = spelled names := by
  rcases eq_nil_or_concat names with rfl | ⟨front, s, rfl⟩
  · rfl
  · have hs := hnames s (by simp)
    obtain ⟨c, cs, hc⟩ := exists_cons_of_ne_nil (mt reverse_eq_nil_iff.mp hs.notEmpty)
    have hslash : c ≠ '/' := fun he ↦ hs.noSlash (mem_reverse.mp (hc ▸ he ▸ mem_cons_self))
    rw [Path.toList_ofNames_ne_nil (by simp), spelled, concat_eq_append, flatMap_append,
      flatMap_singleton, reverse_append, reverse_cons, hc, cons_append, cons_append,
      dropWhile_cons_of_neg (by simpa using hslash), ← cons_append, ← cons_append, ← hc]
    simp

def Alike (pattern pattern' text text' : String) : Prop :=
  isShallow pattern = isShallow pattern' ∧ matchesText text pattern = matchesText text' pattern'

theorem exists_spelled (h : names ≠ []) : ∃ cs, spelled names = '/' :: cs := by
  obtain ⟨s, rest, rfl⟩ := exists_cons_of_ne_nil h
  exact ⟨_, rfl⟩

theorem alike_spelled (hplain : ∀ c ∈ spelled top, isPlain c = true) (cs : List Char) (hne : names ≠ []) :
    Alike (String.ofList (spelled top ++ '/' :: cs)) (String.ofList ('/' :: cs)) (within top names).text
      (within [] names).text := by
  obtain ⟨hdepth, hmatch⟩ := Glob.ofPattern?_append hplain cs
  have hshallow (p : String) : isShallow p = ((Glob.ofPattern? p).map Glob.depth).all (· ≤ Glob.deepest) := by
    rw [Option.all_map]
    rfl
  rw [Alike, hshallow, hshallow, hdepth, text_within hne, text_within hne]
  exact ⟨rfl, hmatch (spelled names)⟩

theorem within_nil (hplain : ∀ c ∈ spelled top, isPlain c = true) (hnames : ∀ s ∈ names, IsName s)
    (hne : names ≠ []) : isShallow (within top []).text = true ∧
      matchesText (within top names).text (within top []).text = false := by
  -- the path of a directory is only the beginning of what is below it
  obtain ⟨base, c, cs, hbase, htext, hbelow⟩ : ∃ base c cs, (∀ c ∈ base, isPlain c = true) ∧
      (within top []).text = String.ofList base ∧ (within top names).text = String.ofList (base ++ c :: cs) := by
    rw [text_within hne, within, append_nil]
    by_cases htop : top = []
    · obtain ⟨s, rest, rfl⟩ := exists_cons_of_ne_nil hne
      obtain ⟨c, cs, hc⟩ := exists_cons_of_ne_nil (hnames s (.head _)).notEmpty
      exact ⟨['/'], c, cs ++ spelled rest, forall_mem_singleton.mpr rfl, by rw [htop]; rfl,
        by simp [htop, spelled, hc]⟩
    · obtain ⟨cs, hcs⟩ := exists_spelled hne
      refine ⟨spelled top, '/', cs, hplain, ?_, by rw [hcs]⟩
      rw [← String.toList_inj, Path.toList_ofNames_ne_nil htop, String.toList_ofList, spelled]
  obtain ⟨g, hg, hdepth, hmatch⟩ := Glob.ofPattern?_plain hbase
  rw [htext, hbelow, isShallow, matchesText, hg, Option.all_some, hdepth, Option.any_some, hmatch]
  exact ⟨by decide, rfl⟩

theorem alike_within {names' : Location} (hplain : ∀ c ∈ spelled top, isPlain c = true)
    (hnames : ∀ s ∈ names, IsName s) (hne : names ≠ []) :
    Alike (within top names').text (within [] names').text (within top names).text (within [] names).text := by
  by_cases hnil : names' = []
  · obtain ⟨hshallow, hmatch⟩ := within_nil hplain hnames hne
    obtain ⟨hshallow', hmatch'⟩ := @within_nil [] _ nofun hnames hne
    rw [Alike, hnil, hshallow, hmatch, hmatch']
    exact ⟨rfl, rfl⟩
  · obtain ⟨cs, hcs⟩ := exists_spelled hnil
    rw [text_within hnil, text_within hnil, hcs]
    exact alike_spelled hplain cs hne

end Patterns

namespace Manifest

variable {top dir names : Location} {entry : String} {entries : List String}

def patternsOf (top dir : Location) (entry : String) : List String :=
  let absolute := (within top (dir ++ named entry)).text
  let below := String.ofList (spelled top ++ (spelled (dir ++ named entry) ++ ['/', '*', '*']))
  if hasGlob entry then [absolute] else [absolute, below]

theorem absolutePatterns_within (hdir : ∀ s ∈ top ++ dir, IsName s) (h : ∀ entry ∈ entries, IsInside entry) :
    absolutePatterns (within top dir) entries = entries.flatMap (patternsOf top dir) := by
  refine congrArg List.flatten (map_congr_left fun entry hentry ↦ ?_)
  have hnormal : ((within top dir).join ⟨entry⟩).normalize = within top (dir ++ named entry) := by
    rw [within, Path.normalize_join hdir (h entry hentry), append_assoc, within]
  have hbelow : String.ofList ((within top (dir ++ named entry)).text.toList.reverse.dropWhile (· = '/')).reverse ++
      "/**" = String.ofList (spelled top ++ (spelled (dir ++ named entry) ++ ['/', '*', '*'])) := by
    have hnames : ∀ s ∈ top ++ (dir ++ named entry), IsName s := by
      rw [← append_assoc]
      exact forall_mem_append.mpr ⟨hdir, Path.isName_named⟩
    rw [within, trimmed_ofNames hnames, ← String.toList_inj]
    simp [spelled]
  simp only [patternsOf, hnormal, hbelow]

theorem anyMatch_within (hplain : ∀ c ∈ spelled top, isPlain c = true) (htop : ∀ s ∈ top, IsName s)
    (hdir : ∀ s ∈ dir, IsName s) (h : ∀ entry ∈ entries, IsInside entry) (hnames : ∀ s ∈ names, IsName s)
    (hne : names ≠ []) :
    anyMatch (set (absolutePatterns (within top dir) entries)) (within top names).text =
      anyMatch (set (absolutePatterns (within [] dir) entries)) (within [] names).text := by
  have halike (entry : String) : (patternsOf top dir entry).all isShallow = (patternsOf [] dir entry).all isShallow ∧
      (patternsOf top dir entry).any (matchesText (within top names).text) =
        (patternsOf [] dir entry).any (matchesText (within [] names).text) := by
    obtain ⟨hshallow, hmatch⟩ := @alike_within _ _ (dir ++ named entry) hplain hnames hne
    obtain ⟨cs, hcs⟩ : ∃ cs, spelled (dir ++ named entry) ++ ['/', '*', '*'] = '/' :: cs := by
      by_cases hnil : dir ++ named entry = []
      · exact ⟨['*', '*'], by rw [hnil]; rfl⟩
      · obtain ⟨cs, hcs⟩ := exists_spelled hnil
        exact ⟨cs ++ ['/', '*', '*'], by rw [hcs, cons_append]⟩
    obtain ⟨hshallow', hmatch'⟩ := @alike_spelled _ _ hplain cs hne
    simp only [patternsOf, hcs]
    split
    · simp [hshallow, hmatch]
    · have hnil : spelled [] = [] := rfl
      simp only [all_cons, any_cons, all_nil, any_nil, hshallow, hmatch, hshallow', hmatch',
        hnil, nil_append, and_self]
  have hbelow : ∀ s ∈ top ++ dir, IsName s := forall_mem_append.mpr ⟨htop, hdir⟩
  rw [Glob.anyMatch_set, Glob.anyMatch_set, absolutePatterns_within hbelow h, @absolutePatterns_within [] _ _ hdir h,
    all_flatMap, all_flatMap, any_flatMap, any_flatMap]
  simp only [halike]

end Manifest

theorem Node.Tidy.under {tree : Node} (h : tree.Tidy) {top : Location} (htop : ∀ s ∈ top, IsName s) :
    (tree.under top).Tidy := by
  induction top with
  | nil => exact h
  | cons s rest ih =>
    obtain ⟨hs, hrest⟩ := forall_mem_cons.mp htop
    exact ⟨hs, ih hrest, nofun, trivial⟩

/-- A directory that a project can be put in: there is nothing else, and its names are no patterns. -/
structure Houses (disk : Disk) (top : Location) (tree : Node) : Prop extends disk.Holds top tree where
  plain : ∀ s ∈ top, ∀ c ∈ s.toList, isPlain c = true

namespace Manifest

variable {disk : Disk} {top dir names : Location} {entry : String}
  {entries inclusions exclusions : List String} {es : List (String × Node)}
  {classifier : Classifier} {p : Path} {tree : Node} {root : Location}

theorem isPlain_spelled (h : Houses disk top tree) : ∀ c ∈ spelled top, isPlain c = true := by
  intro c hc
  obtain ⟨s, hs, hc⟩ := mem_flatMap.mp hc
  obtain rfl | hc := mem_cons.mp hc
  · rfl
  · exact h.plain s hs c hc

def rootOf (tree : Node) (dir : Location) (entry : String) : Option Location :=
  let front := (dir ++ named entry).takeWhile fun s ↦ !hasGlob s
  let root := if (look tree front).any Node.isFile then front.dropLast else front
  if (look tree root).any Node.isDir then some root else none

theorem parent_within (h : ∀ s ∈ top ++ names, IsName s) (hne : names ≠ []) :
    (within top names).parent?.getD ⟨""⟩ = within top names.dropLast := by
  rw [within, Path.parent?_ofNames h, if_neg (by simp [hne]), Option.getD_some, dropLast_append_of_ne_nil hne, within]

theorem walkRoot?_within (h : Houses disk top (.dir es)) (hclosed : Closed (.dir es)) (hdir : ∀ s ∈ dir, IsName s)
    (hentry : IsInside entry) :
    walkRoot? disk (within top dir) entry = (rootOf (.dir es) dir entry).map (within top) := by
  have hnames : ∀ s ∈ dir ++ named entry, IsName s := forall_mem_append.mpr ⟨hdir, Path.isName_named⟩
  have hfront : literalFront (within top dir) entry =
      within top ((dir ++ named entry).takeWhile fun s ↦ !hasGlob s) := by
    have hplain : ∀ s ∈ top, (!hasGlob s) = true := by
      intro s hs
      rw [Bool.not_eq_true', hasGlob, any_eq_false]
      intro c hc
      have hc := h.plain s hs c hc
      simp only [isPlain, Bool.and_eq_true, bne_iff_ne] at hc
      simp [hc]
    have hall := h.isName_append hnames
    rw [literalFront, within, Path.normalize_join (h.isName_append hdir) hentry, append_assoc,
      Path.isAbsolute_ofNames true hall, Path.components_ofNames hall]
    show ofNames true ((Path.resolveDots [] ((top ++ (dir ++ named entry)).map .name)).takeWhile _) = _
    rw [Path.resolveDots_names, reverse_nil, nil_append, takeWhile_append_of_pos hplain, within]
  have hsub : ∀ s ∈ (dir ++ named entry).takeWhile fun s ↦ !hasGlob s, IsName s :=
    fun s hs ↦ hnames s ((takeWhile_sublist _).subset hs)
  rw [walkRoot?, hfront, rootOf]
  generalize (dir ++ named entry).takeWhile (fun s ↦ !hasGlob s) = front at hsub
  have hroot : (if disk.isFile (within top front) = true then (within top front).parent?.getD ⟨""⟩
      else within top front) =
        within top (if (look (.dir es) front).any Node.isFile then front.dropLast else front) := by
    rw [within, h.isFile hclosed hsub]
    split
    · rename_i hfile
      have hne : front ≠ [] := by
        rintro rfl
        simp [Disk.look_nil, Node.isFile] at hfile
      exact parent_within (h.isName_append hsub) hne
    · rfl
  have hrootNames : ∀ s ∈ if (look (.dir es) front).any Node.isFile then front.dropLast else front, IsName s := by
    split
    · exact fun s hs ↦ hsub s (dropLast_subset _ hs)
    · exact hsub
  simp only [hroot]
  rw [within, h.isDir hclosed hrootNames, Option.map_if]
  rfl

theorem isName_rootOf (hdir : ∀ s ∈ dir, IsName s)
    (h : rootOf tree dir entry = some root) : ∀ s ∈ root, IsName s := by
  have hnames : ∀ s ∈ (dir ++ named entry).takeWhile (fun s ↦ !hasGlob s), IsName s := fun s hs ↦
    (mem_append.mp ((takeWhile_sublist _).subset hs)).elim (hdir s) (Path.isName_named s)
  simp only [rootOf, Option.ite_none_right_eq_some, Option.some.injEq] at h
  obtain ⟨-, rfl⟩ := h
  split
  · exact fun s hs ↦ hnames s (dropLast_subset _ hs)
  · exact hnames

theorem prefix_within {other : Location} (hroot : ∀ s ∈ top ++ root, IsName s)
    (hother : ∀ s ∈ top ++ other, IsName s) :
    (within top other).components <+: (within top root).components ↔ other <+: root := by
  rw [within, within, Path.components_ofNames hroot, Path.components_ofNames hother, prefix_append_right_inj]
  refine ⟨fun ⟨rest, hrest⟩ ↦ ?_, fun h ↦ ((prefix_append_right_inj top).mpr h).map _⟩
  obtain ⟨front, back, hsplit, hfront, -⟩ := append_eq_map_iff.mp hrest
  rw [map_inj_right fun _ _ h ↦ Component.name.inj h] at hfront
  exact (prefix_append_right_inj top).mp ⟨back, by rw [hsplit, hfront]⟩

theorem within_inj {a b : Location} (ha : ∀ s ∈ top ++ a, IsName s) (hb : ∀ s ∈ top ++ b, IsName s)
    (h : within top a = within top b) : a = b := by
  have hab := (prefix_within hb ha).mp (h ▸ prefix_rfl)
  have hba := (prefix_within ha hb).mp (h ▸ prefix_rfl)
  exact hab.eq_of_length (Nat.le_antisymm hab.length_le hba.length_le)

section

variable (h : Houses disk top (.dir es)) (hclosed : Closed (.dir es)) (htidy : (Node.dir es).Tidy)
  (hdir : ∀ s ∈ dir, IsName s) (hinclusions : ∀ entry ∈ inclusions, IsInside entry)
  (hexclusions : ∀ entry ∈ exclusions, IsInside entry)

include h hclosed hdir hinclusions in
theorem patternRoots_within : patternRoots disk (within top dir) inclusions =
    (inclusions.filterMap (rootOf (.dir es) dir)).map (within top) := by
  rw [patternRoots, map_filterMap]
  induction inclusions with
  | nil => rw [filterMap_nil, filterMap_nil]
  | cons entry rest ih =>
    obtain ⟨hentry, hrest⟩ := forall_mem_cons.mp hinclusions
    rw [filterMap_cons, filterMap_cons, walkRoot?_within h hclosed hdir hentry, ih hrest]

include h hclosed hdir hinclusions in
theorem mem_walkRoots_within : p ∈ walkRoots disk (within top dir) inclusions ↔
    ∃ root ∈ inclusions.filterMap (rootOf (.dir es) dir),
      (∀ other ∈ inclusions.filterMap (rootOf (.dir es) dir), other <+: root → other = root) ∧
      p = within top root := by
  have hroots {root} (hroot : root ∈ inclusions.filterMap (rootOf (.dir es) dir)) : ∀ s ∈ top ++ root, IsName s := by
    obtain ⟨entry, -, hentry⟩ := mem_filterMap.mp hroot
    exact h.isName_append (isName_rootOf hdir hentry)
  rw [mem_walkRoots, patternRoots_within h hclosed hdir hinclusions]
  simp only [mem_map, forall_exists_index, and_imp, forall_apply_eq_imp_iff₂]
  constructor
  · rintro ⟨⟨root, hroot, rfl⟩, houter⟩
    refine ⟨root, hroot, fun other hother hprefix ↦ ?_, rfl⟩
    exact within_inj (hroots hother) (hroots hroot)
      (houter other hother ((prefix_within (hroots hroot) (hroots hother)).mpr hprefix))
  · rintro ⟨root, hroot, houter, rfl⟩
    refine ⟨⟨root, hroot, rfl⟩, fun other hother hprefix ↦ ?_⟩
    rw [houter other hother ((prefix_within (hroots hroot) (hroots hother)).mp hprefix)]

/-- A walk from a location comes by a file that is below it. -/
def Walked (tree : Node) (dir root : Location) (exclusions : List String) (below : Location) : Prop :=
  ∃ es bytes, look tree root = some (.dir es) ∧ below ≠ [] ∧ (Node.dir es).get? below = some (.file bytes) ∧
    ∀ front, front ≠ [] → front <+: below → isExcluded (within [] dir) exclusions (within [] (root ++ front)) = false

theorem Walked.ne_nil {below : Location} (h : Walked tree dir root exclusions below) : below ≠ [] := by
  obtain ⟨-, -, -, hne, -⟩ := h
  exact hne

include h hclosed htidy hdir hexclusions in
theorem mem_filesBelow_within {root : Location} (hroot : ∀ s ∈ root, IsName s) :
    p ∈ filesBelow disk (isExcluded (within top dir) exclusions) (within top root) ↔
      ∃ below, (∀ s ∈ below, IsName s) ∧ Walked (.dir es) dir root exclusions below ∧
        p = within top (root ++ below) := by
  have hdisk : disk.root.Tidy := h.root ▸ htidy.under h.isName
  have hnode (es' : List (String × Node)) : disk.node (within top root) = .ok (.dir es') ↔
      look (.dir es) root = some (.dir es') := by
    rw [← h.node hclosed hroot, within]
    cases disk.node (ofNames true (top ++ root)) <;> simp [Except.toOption]
  have hpath (below : Location) (hbelow : ∀ s ∈ below, IsName s) :
      pathBelow (within top root) below = within top (root ++ below) := by
    rw [within, Walk.pathBelow_ofNames (h.isName_append hroot) hbelow, append_assoc, within]
  have hopen (below : Location) (hbelow : ∀ s ∈ below, IsName s) :
      IsOpen (isExcluded (within top dir) exclusions) (within top root) below ↔
        ∀ front, front ≠ [] → front <+: below →
          isExcluded (within [] dir) exclusions (within [] (root ++ front)) = false := by
    refine forall_congr' fun front ↦ forall_congr' fun hne ↦ forall_congr' fun hfront ↦ ?_
    have hfrontNames : ∀ s ∈ front, IsName s := fun s hs ↦ hbelow s (hfront.subset hs)
    rw [hpath front hfrontNames, isExcluded, isExcluded, anyMatch_within (isPlain_spelled h) h.isName hdir hexclusions
      (forall_mem_append.mpr ⟨hroot, hfrontNames⟩) (by simp [hne])]
  rw [mem_filesBelow hdisk]
  constructor
  · rintro ⟨es', below, bytes, hes, hne, hfile, hshown, rfl⟩
    have hbelow := Node.isName_of_tidy (n := .dir es') (Disk.tidy_of_node hdisk hes) hfile
    exact ⟨below, hbelow, ⟨es', bytes, (hnode es').mp hes, hne, hfile, (hopen below hbelow).mp hshown⟩,
      hpath below hbelow⟩
  · rintro ⟨below, hbelow, ⟨es', bytes, hes, hne, hfile, hshown⟩, rfl⟩
    exact ⟨es', below, bytes, (hnode es').mpr hes, hne, hfile, (hopen below hbelow).mpr hshown,
      (hpath below hbelow).symm⟩

def Selects (tree : Node) (classifier : Classifier) (dir : Location) (inclusions exclusions : List String)
    (names : Location) : Prop :=
  (∃ root ∈ inclusions.filterMap (rootOf tree dir),
    (∀ other ∈ inclusions.filterMap (rootOf tree dir), other <+: root → other = root) ∧
    ∃ below, (∀ s ∈ below, IsName s) ∧ Walked tree dir root exclusions below ∧ names = root ++ below) ∧
  isSelected classifier (within [] dir) inclusions (within [] names) = true

include h hdir hinclusions in
theorem isSelected_within (hnames : ∀ s ∈ names, IsName s) (hne : names ≠ []) :
    isSelected classifier (within top dir) inclusions (within top names) =
      isSelected classifier (within [] dir) inclusions (within [] names) := by
  have hlast : (top ++ names).getLast? = ([] ++ names).getLast? := by
    obtain ⟨c, hc⟩ := Option.isSome_iff_exists.mp (List.getLast?_isSome.mpr hne)
    rw [List.getLast?_append, nil_append, hc, Option.some_or]
  have hscript : classifier.isScript (within top names) = classifier.isScript (within [] names) := by
    have hnil : ∀ s ∈ [] ++ names, IsName s := hnames
    simp only [Classifier.isScript, Classifier.classify, within, Path.fileName?_ofNames (h.isName_append hnames),
      Path.fileName?_ofNames hnil, hlast]
  rw [isSelected, isSelected, hscript, anyMatch_within (isPlain_spelled h) h.isName hdir hinclusions hnames hne]

include h hclosed htidy hdir hinclusions hexclusions in
theorem mem_includedFiles_within : p ∈ includedFiles disk classifier (within top dir) inclusions exclusions ↔
    ∃ names, Selects (.dir es) classifier dir inclusions exclusions names ∧ p = within top names := by
  have hroots {root} (hroot : root ∈ inclusions.filterMap (rootOf (.dir es) dir)) : ∀ s ∈ root, IsName s := by
    obtain ⟨entry, -, hentry⟩ := mem_filterMap.mp hroot
    exact isName_rootOf hdir hentry
  have hselected {root below} (hroot : ∀ s ∈ root, IsName s) (hbelow : ∀ s ∈ below, IsName s)
      (hne : below ≠ []) := @isSelected_within _ _ _ (root ++ below) _ _ classifier h hdir hinclusions
        (forall_mem_append.mpr ⟨hroot, hbelow⟩) (by simp [hne])
  rw [mem_includedFiles]
  constructor
  · rintro ⟨⟨_, hwalk, hp⟩, hselect⟩
    obtain ⟨root, hroot, houter, rfl⟩ := (mem_walkRoots_within h hclosed hdir hinclusions).mp hwalk
    obtain ⟨below, hbelow, hwalked, rfl⟩ :=
      (mem_filesBelow_within h hclosed htidy hdir hexclusions (hroots hroot)).mp hp
    rw [hselected (hroots hroot) hbelow hwalked.ne_nil] at hselect
    exact ⟨_, ⟨⟨root, hroot, houter, below, hbelow, hwalked, rfl⟩, hselect⟩, rfl⟩
  · rintro ⟨_, ⟨⟨root, hroot, houter, below, hbelow, hwalked, rfl⟩, hselect⟩, rfl⟩
    refine ⟨⟨_, (mem_walkRoots_within h hclosed hdir hinclusions).mpr ⟨root, hroot, houter, rfl⟩,
      (mem_filesBelow_within h hclosed htidy hdir hexclusions (hroots hroot)).mpr ⟨below, hbelow, hwalked, rfl⟩⟩, ?_⟩
    rwa [hselected (hroots hroot) hbelow hwalked.ne_nil]

end

end Manifest

section Sorting

variable {top top₁ top₂ : Location} {ps ps₁ ps₂ : List Path}

theorem Path.pairwise_sorted (ps : List Path) : (sorted ps).Pairwise (·.order · = .lt) :=
  pairwise_map.mpr (PathMap.ascending_ofList _)

theorem Path.sorted_eq {l : List Path} (hl : l.Pairwise (·.order · = .lt)) (hnormal : ∀ p ∈ l, p.normalize = p)
    (hmem : ∀ p, p ∈ ps ↔ p ∈ l) : sorted ps = l := by
  have hnodup {l : List Path} (h : l.Pairwise (·.order · = .lt)) : l.Nodup :=
    h.imp fun hlt he ↦ by cases hlt.symm.trans (order_eq_iff.mpr (congrArg _ he))
  refine List.Perm.eq_of_pairwise (fun p q _ _ hlt hgt ↦ ?_) (pairwise_sorted ps) hl
    ((perm_ext_iff_of_nodup (hnodup (pairwise_sorted ps)) (hnodup hl)).mpr fun p ↦ ?_)
  · cases hgt.symm.trans (Std.OrientedCmp.gt_of_lt hlt)
  · refine ⟨fun hp ↦ (hmem p).mp (mem_of_mem_sorted hp), fun hp ↦ ?_⟩
    obtain ⟨q, hq, hcomponents⟩ := exists_mem_sorted ((hmem p).mpr hp)
    rwa [← eq_of_components (hnormal q ((hmem q).mp (mem_of_mem_sorted hq))) (hnormal p hp) hcomponents]

theorem order_within {a b : Location} (ha : ∀ s ∈ top ++ a, IsName s) (hb : ∀ s ∈ top ++ b, IsName s) :
    (within top a).order (within top b) = compare (a.map Component.name) (b.map Component.name) := by
  have hfront (front l l' : List Component) : compare (front ++ l) (front ++ l') = compare l l' := by
    induction front with
    | nil => rfl
    | cons c front ih =>
      rwa [cons_append, cons_append, List.compare_eq_compareLex, List.compareLex_cons_cons, Std.compare_self]
  rw [Path.order, within, within, Path.components_ofNames ha, Path.components_ofNames hb, hfront, map_append,
    map_append, hfront]

theorem sorted_within {q : Location → Prop} (hq : ∀ a, q a → ∀ s ∈ a, IsName s) (htop₁ : ∀ s ∈ top₁, IsName s)
    (htop₂ : ∀ s ∈ top₂, IsName s) (h₁ : ∀ p, p ∈ ps₁ ↔ ∃ a, q a ∧ p = within top₁ a)
    (h₂ : ∀ p, p ∈ ps₂ ↔ ∃ a, q a ∧ p = within top₂ a) :
    ∃ found : List Location,
      Path.sorted ps₁ = found.map (within top₁) ∧ Path.sorted ps₂ = found.map (within top₂) := by
  have hlist (l : List Path) (hl : ∀ p ∈ l, ∃ a, q a ∧ p = within top₁ a) :
      ∃ found : List Location, l = found.map (within top₁) ∧ ∀ a ∈ found, q a := by
    induction l with
    | nil => exact ⟨[], rfl, nofun⟩
    | cons p l ih =>
      obtain ⟨⟨a, ha, rfl⟩, hrest⟩ := forall_mem_cons.mp hl
      obtain ⟨found, rfl, hfound⟩ := ih hrest
      exact ⟨a :: found, rfl, forall_mem_cons.mpr ⟨ha, hfound⟩⟩
  obtain ⟨found, hfound, hall⟩ := hlist (Path.sorted ps₁) fun p hp ↦ (h₁ p).mp (Path.mem_of_mem_sorted hp)
  have hname {top a} (htop : ∀ s ∈ top, IsName s) (ha : q a) : ∀ s ∈ top ++ a, IsName s :=
    forall_mem_append.mpr ⟨htop, hq a ha⟩
  refine ⟨found, hfound, Path.sorted_eq (pairwise_map.mpr ?_) (fun p hp ↦ ?_) fun p ↦ ?_⟩
  · have hascending := Path.pairwise_sorted ps₁
    rw [hfound, pairwise_map] at hascending
    refine hascending.imp_of_mem fun {a b} ha hb hlt ↦ ?_
    rwa [order_within (hname htop₂ (hall a ha)) (hname htop₂ (hall b hb)),
      ← order_within (hname htop₁ (hall a ha)) (hname htop₁ (hall b hb))]
  · obtain ⟨a, ha, rfl⟩ := mem_map.mp hp
    exact Path.normalize_ofNames (hname htop₂ (hall a ha))
  · rw [h₂, mem_map]
    constructor
    · rintro ⟨a, ha, rfl⟩
      obtain ⟨p, hp, hcomponents⟩ := Path.exists_mem_sorted ((h₁ _).mpr ⟨a, ha, rfl⟩)
      rw [hfound] at hp
      obtain ⟨b, hb, rfl⟩ := mem_map.mp hp
      have hab := Path.eq_of_components (Path.normalize_ofNames (hname htop₁ (hall b hb)))
        (Path.normalize_ofNames (hname htop₁ ha)) hcomponents
      exact ⟨b, hb, by rw [Manifest.within_inj (hname htop₁ (hall b hb)) (hname htop₁ ha) hab]⟩
    · rintro ⟨a, ha, rfl⟩
      exact ⟨a, hall a ha, rfl⟩

end Sorting

namespace Manifest

variable {disk disk₁ disk₂ : Disk} {top top₁ top₂ dir project : Location}
  {es : List (String × Node)} {classifier : Classifier} {fields : Json.Fields} {here : Location}

/-- Two lists of paths are those of the same locations, or neither is there. -/
def Agree (top₁ top₂ : Location) (ps₁ ps₂ : Option (List Path)) : Prop :=
  ∃ found : Option (List Location), ps₁ = found.map (·.map (within top₁)) ∧ ps₂ = found.map (·.map (within top₂))

def entriesOf (fields : Json.Fields) : List String :=
  ["files", "include", "exclude"].flatMap fun key ↦
    match stringList fields key with
    | .ok (some entries) => entries
    | _ => []

theorem isInside_default : ∀ entry ∈ defaultInclude ++ defaultExclude, IsInside entry := by
  intro entry hentry
  simp only [defaultInclude, defaultExclude, cons_append, nil_append, mem_cons, not_mem_nil, or_false] at hentry
  obtain rfl | rfl | rfl | rfl := hentry <;> exact ⟨by decide, by decide⟩

theorem isName_inside (hdir : ∀ s ∈ dir, IsName s) (entry : String) : ∀ s ∈ dir ++ named entry, IsName s :=
  forall_mem_append.mpr ⟨hdir, Path.isName_named⟩

theorem listed_within (h : Houses disk top (.dir es)) (hclosed : Closed (.dir es)) (hdir : ∀ s ∈ dir, IsName s)
    {files : List String} (hfiles : ∀ file ∈ files, IsInside file) :
    (files.mapM (listedFile disk (within top dir))).toOption =
      if files.all fun file ↦ (look (.dir es) (dir ++ named file)).any Node.isFile then
        some (files.map fun file ↦ within top (dir ++ named file)) else none := by
  induction files with
  | nil => rfl
  | cons file files ih =>
    obtain ⟨hfile, hrest⟩ := forall_mem_cons.mp hfiles
    have hone : (listedFile disk (within top dir) file).toOption =
        if (look (.dir es) (dir ++ named file)).any Node.isFile then some (within top (dir ++ named file))
        else none := by
      have hpath : ((within top dir).join ⟨file⟩).normalize = within top (dir ++ named file) := by
        rw [within, Path.normalize_join (h.isName_append hdir) hfile, append_assoc, within]
      rw [listedFile, hpath, within, h.isFile hclosed (isName_inside hdir file)]
      split <;> rfl
    rw [mapM_cons, toOption_bind, hone, all_cons]
    cases (look (.dir es) (dir ++ named file)).any Node.isFile with
    | false => rfl
    | true =>
      rw [if_pos rfl, Option.bind_some, toOption_bind, ih hrest, Bool.true_and]
      split <;> rfl

theorem Selects.isName {inclusions exclusions : List String} (hdir : ∀ s ∈ dir, IsName s)
    (h : Selects (.dir es) classifier dir inclusions exclusions names) : ∀ s ∈ names, IsName s := by
  obtain ⟨⟨root, hroot, -, below, hbelow, -, rfl⟩, -⟩ := h
  obtain ⟨entry, -, hentry⟩ := mem_filterMap.mp hroot
  exact forall_mem_append.mpr ⟨isName_rootOf hdir hentry, hbelow⟩

section

variable (h₁ : Houses disk₁ top₁ (.dir es)) (h₂ : Houses disk₂ top₂ (.dir es)) (hclosed : Closed (.dir es))
  (htidy : (Node.dir es).Tidy)

include h₁ h₂ hclosed htidy

theorem sorted_agree (hdir : ∀ s ∈ dir, IsName s) {files inclusions exclusions : List String}
    (hfiles : ∀ file ∈ files, IsInside file) (hinclusions : ∀ entry ∈ inclusions, IsInside entry)
    (hexclusions : ∀ entry ∈ exclusions, IsInside entry) :
    Agree top₁ top₂ (files.mapM (listedFile disk₁ (within top₁ dir)) >>= fun listed ↦ Except.ok (Path.sorted
        (listed ++ includedFiles disk₁ classifier (within top₁ dir) inclusions exclusions))).toOption
      (files.mapM (listedFile disk₂ (within top₂ dir)) >>= fun listed ↦ Except.ok (Path.sorted
        (listed ++ includedFiles disk₂ classifier (within top₂ dir) inclusions exclusions))).toOption := by
  have hmem {disk top} (h : Houses disk top (.dir es)) (p : Path) :
      p ∈ files.map (fun file ↦ within top (dir ++ named file)) ++
          includedFiles disk classifier (within top dir) inclusions exclusions ↔
        ∃ a, ((∃ file ∈ files, a = dir ++ named file) ∨ Selects (.dir es) classifier dir inclusions exclusions a) ∧
          p = within top a := by
    rw [mem_append, mem_map, mem_includedFiles_within h hclosed htidy hdir hinclusions hexclusions]
    constructor
    · rintro (⟨file, hfile, rfl⟩ | ⟨a, ha, rfl⟩)
      · exact ⟨_, .inl ⟨file, hfile, rfl⟩, rfl⟩
      · exact ⟨a, .inr ha, rfl⟩
    · rintro ⟨_, ⟨file, hfile, rfl⟩ | ha, rfl⟩
      · exact .inl ⟨file, hfile, rfl⟩
      · exact .inr ⟨_, ha, rfl⟩
  rw [toOption_bind, toOption_bind, listed_within h₁ hclosed hdir hfiles, listed_within h₂ hclosed hdir hfiles]
  split
  · obtain ⟨found, hfound₁, hfound₂⟩ := sorted_within
      (fun a ha ↦ ha.elim (fun ⟨file, _, he⟩ ↦ he ▸ isName_inside hdir file) (·.isName hdir)) h₁.isName h₂.isName
      (hmem h₁) (hmem h₂)
    exact ⟨some found, congrArg some hfound₁, congrArg some hfound₂⟩
  · exact ⟨none, rfl, rfl⟩

theorem resolveRootFiles_agree (hdir : ∀ s ∈ dir, IsName s) (hfields : ∀ entry ∈ entriesOf fields, IsInside entry) :
    Agree top₁ top₂ (resolveRootFiles disk₁ classifier (within top₁ dir) fields).toOption
      (resolveRootFiles disk₂ classifier (within top₂ dir) fields).toOption := by
  have hlist {key entries} (default : List String)
      (hkey : key ∈ ["files", "include", "exclude"]) (hentries : stringList fields key = .ok entries)
      (hdefault : ∀ entry ∈ default, IsInside entry) : ∀ entry ∈ entries.getD default, IsInside entry := by
    cases entries with
    | none => exact hdefault
    | some entries =>
      exact fun entry hentry ↦ hfields entry (mem_flatMap.mpr ⟨key, hkey, by rw [hentries]; exact hentry⟩)
  have hdefaults := forall_mem_append.mp isInside_default
  unfold resolveRootFiles
  cases hfiles : stringList fields "files" with
  | error e => exact ⟨none, rfl, rfl⟩
  | ok files =>
  cases hgiven : stringList fields "include" with
  | error e => exact ⟨none, rfl, rfl⟩
  | ok given =>
  cases hexcluded : stringList fields "exclude" with
  | error e => exact ⟨none, rfl, rfl⟩
  | ok excluded =>
    refine sorted_agree h₁ h₂ hclosed htidy hdir (hlist [] (by simp) hfiles nofun) ?_
      (hlist _ (by simp) hexcluded hdefaults.2)
    split
    · exact hlist [] (by simp) hgiven nofun
    · nofun
    · exact hdefaults.1

end

def textAt (tree : Node) (here : Location) : Option String :=
  match look tree here with
  | some (.file bytes) => String.fromUTF8? bytes
  | _ => none

def entriesAt (tree : Node) (project : Location) : List String :=
  match ((way tree project).bind (textAt tree)).bind Json.Lenient.ofText? with
  | some (.obj fields) => entriesOf fields
  | _ => []

theorem readText_within (h : disk.Holds top (.dir es)) (hclosed : Closed (.dir es))
    (hhere : ∀ s ∈ here, IsName s) : (disk.readText (within top here)).toOption = textAt (.dir es) here := by
  rw [textAt, ← h.node hclosed hhere, Disk.readText, Disk.read, within]
  cases disk.node (ofNames true (top ++ here)) with
  | error e => rfl
  | ok n =>
    cases n with
    | file bytes => cases hs : String.fromUTF8? bytes <;> simp [hs, Except.toOption]
    | _ => rfl

theorem isName_way (hproject : ∀ s ∈ project, IsName s) (h : way (.dir es) project = some here) :
    ∀ s ∈ here, IsName s := by
  rw [way] at h
  split at h
  · cases h
  · cases hfollow : Disk.follow (.dir es) Disk.linkLimit [] project with
    | error e => simp [hfollow, Except.toOption] at h
    | ok loc =>
      obtain rfl : loc = here := by simpa [hfollow, Except.toOption] using h
      have hsteps (s : String) (hs : s ∈ project) : Disk.IsStep s := ⟨(hproject s hs).1, (hproject s hs).2⟩
      exact (Disk.follow_isPlace hfollow hsteps (by simp) fun _ ↦ .of_dir (by simp) rfl).names

theorem source_within (h : disk.Holds top (.dir es)) (hclosed : Closed (.dir es)) (hproject : ∀ s ∈ project, IsName s) :
    (source disk (within top project)).toOption =
      match way (.dir es) project with
      | none => some (.absent (within top project))
      | some here => (textAt (.dir es) here).map fun text ↦ ⟨within top here, text, false⟩ := by
  have hlocate := h.locate hclosed hproject
  rw [source, Disk.canonical, within]
  cases hloc : disk.locate (ofNames true (top ++ project)) with
  | error e =>
    rw [hloc] at hlocate
    rw [Option.map_eq_none_iff.mp hlocate.symm]
    rfl
  | ok loc =>
    rw [hloc] at hlocate
    obtain ⟨here, hway, rfl⟩ := Option.map_eq_some_iff.mp hlocate.symm
    simp only [hway, ← readText_within h hclosed (isName_way hproject hway), Except.map, Source.read]
    rw [within]
    cases disk.readText (ofNames true (top ++ here)) <;> rfl

theorem rootFiles_ofSource [Digest] (src : Source) : (ofSource disk classifier src).toOption.map Manifest.rootFiles =
      match Json.Lenient.ofText? src.text with
      | some (.obj fields) => (rootFilesOf disk classifier src fields).toOption
      | _ => none := by
  rw [ofSource]
  cases Json.Lenient.ofText? src.text with
  | none => rfl
  | some j =>
    cases j with
    | obj fields =>
      dsimp only
      cases rootFilesOf disk classifier src fields <;> rfl
    | _ => rfl

theorem dir_within (htop : ∀ s ∈ top, IsName s) (hhere : ∀ s ∈ here, IsName s) {text : String}
    (htext : textAt (.dir es) here = some text) (missing : Bool) :
    Source.dir ⟨within top here, text, missing⟩ = within top here.dropLast := by
  have hne : here ≠ [] := by
    rintro rfl
    simp [textAt, Disk.look_nil] at htext
  exact parent_within (forall_mem_append.mpr ⟨htop, hhere⟩) hne

/-- A project that is closed in itself has the same root files wherever it is, if no name above it has a character
that means something in a pattern. -/
theorem rootFiles_relocated [Digest] (hclosed : Closed (.dir es)) (htidy : (Node.dir es).Tidy)
    (hproject : ∀ s ∈ project, IsName s) (hentries : ∀ entry ∈ entriesAt (.dir es) project, IsInside entry)
    (h₁ : Houses disk₁ top₁ (.dir es)) (h₂ : Houses disk₂ top₂ (.dir es)) :
    Agree top₁ top₂ ((resolve disk₁ classifier (within top₁ project)).toOption.map Manifest.rootFiles)
      ((resolve disk₂ classifier (within top₂ project)).toOption.map Manifest.rootFiles) := by
  rw [resolve, resolve, toOption_bind, toOption_bind, source_within h₁.toHolds hclosed hproject,
    source_within h₂.toHolds hclosed hproject]
  cases hway : way (.dir es) project with
  | none =>
    simp only [Option.bind_some, rootFiles_ofSource, Source.absent]
    split
    · exact ⟨some [], rfl, rfl⟩
    · exact ⟨none, rfl, rfl⟩
  | some here =>
    have hhere := isName_way hproject hway
    dsimp only
    cases htext : textAt (.dir es) here with
    | none => exact ⟨none, rfl, rfl⟩
    | some text =>
      simp only [Option.map_some, Option.bind_some, rootFiles_ofSource]
      split
      · rename_i fields hfields
        simp only [rootFilesOf, Bool.false_eq_true, if_false, dir_within h₁.isName hhere htext,
          dir_within h₂.isName hhere htext]
        refine resolveRootFiles_agree h₁ h₂ hclosed htidy (fun s hs ↦ hhere s (dropLast_subset _ hs)) ?_
        rwa [entriesAt, hway, Option.bind_some, htext, Option.bind_some, hfields] at hentries
      · exact ⟨none, rfl, rfl⟩

end Manifest

namespace Disk

variable {tree : Node} {names loc : Location} {links : Nat}

theorem closed_of_linkless (h : tree.isLinkless = true) : Closed tree := by
  intro names hnames hclimbs
  have hlookup {here step es target}
      (hdir : tree.get? here = some (.dir es)) : es.lookup step ≠ some (.link target) := fun hes ↦
    Bool.false_ne_true (Node.isLinkless_of_lookup (Node.isLinkless_of_get? h hdir) hes)
  generalize ([] : Location) = here at hclimbs
  induction hclimbs with
  | above | dots => exact (hnames _ (.head _)).notDots rfl
  | dot => exact (hnames _ (.head _)).notDot rfl
  | entry _ _ _ _ ih => exact ih fun s hs ↦ hnames s (.tail _ hs)
  | away hdir hes | link hdir hes => exact hlookup hdir hes

theorem get?_of_follow_linkless (h : tree.isLinkless = true) (hnames : ∀ s ∈ names, IsName s) (hne : names ≠ [])
    (hfollow : follow tree links [] names = .ok loc) : ∃ n, tree.get? names = some n := by
  have hsteps (s : String) (hs : s ∈ names) : IsStep s := ⟨(hnames s hs).1, (hnames s hs).2⟩
  have hloc := follow_linkless h hsteps hfollow
  have hpieces := Path.filterMap_ofPiece? hnames
  rw [filterMap_map] at hpieces
  obtain ⟨n, hn, -⟩ := (follow_isPlace hfollow hsteps nofun fun hnil ↦ absurd hnil hne).node
  refine ⟨n, ?_⟩
  rwa [hloc, show (fun s : String ↦ Path.ofPiece? s.toList) = Path.ofPiece? ∘ String.toList from rfl, hpieces,
    Path.resolveDots_names] at hn

end Disk

namespace Manifest

def scripts (text : String) : List (String × Node) :=
  [("a.ts", .file .empty), ("tsconfig.json", .file text.toUTF8)]

def scriptsIn (text : String) (top : Location) : Disk :=
  { root := (Node.dir (scripts text)).under top }

theorem houses_scripts (text : String) {top : Location} (hname : ∀ s ∈ top, IsName s)
    (hvalid : ∀ s ∈ top, '\x00' ∉ s.toList ∧ Text.byteLength s.toList ≤ Disk.nameLimit)
    (hplain : ∀ s ∈ top, s.toList.all isPlain = true)
    (hroom : ∀ names ∈ [[], ["tsconfig.json"], ["a.ts"]],
      Text.byteLength (within top names).text.toList ≤ Disk.pathLimit) :
    Houses (scriptsIn text top) top (.dir (scripts text)) := by
  refine ⟨⟨rfl, hname, hvalid, fun names loc hnames hfollow ↦ hroom names ?_⟩,
    fun s hs ↦ all_eq_true.mp (hplain s hs)⟩
  cases names with
  | nil => simp
  | cons s rest =>
    obtain ⟨n, hn⟩ := Disk.get?_of_follow_linkless rfl hnames (cons_ne_nil _ _) hfollow
    obtain ⟨_, child, hdir, hes, hchild⟩ := Node.get?_cons hn
    cases hdir
    have hmem : s = "a.ts" ∧ child = .file .empty ∨ s = "tsconfig.json" ∧ child = .file text.toUTF8 := by
      simpa [scripts] using mem_of_lookup hes
    have hrest : rest = [] := by
      cases rest with
      | nil => rfl
      | cons s' rest =>
        obtain ⟨_, _, rfl, -⟩ := Node.get?_cons hchild
        simp at hmem
    obtain ⟨rfl, -⟩ | ⟨rfl, -⟩ := hmem <;> simp [hrest]

theorem rootFiles_relocated_scripts :
    let _ : Digest := sizeDigest
    Closed (.dir (scripts "\x7b\x7d")) ∧ Houses (scriptsIn "\x7b\x7d" ["p"]) ["p"] (.dir (scripts "\x7b\x7d")) ∧
    Houses (scriptsIn "\x7b\x7d" ["q", "p1"]) ["q", "p1"] (.dir (scripts "\x7b\x7d")) ∧
    Agree ["p"] ["q", "p1"]
      ((resolve (scriptsIn "\x7b\x7d" ["p"]) .standard (within ["p"] ["tsconfig.json"])).toOption.map
        Manifest.rootFiles)
      ((resolve (scriptsIn "\x7b\x7d" ["q", "p1"]) .standard (within ["q", "p1"] ["tsconfig.json"])).toOption.map
        Manifest.rootFiles) := by
  have hclosed : Closed (.dir (scripts "\x7b\x7d")) := Disk.closed_of_linkless rfl
  have h₁ := @houses_scripts "\x7b\x7d" ["p"] (by decide) (by decide) (by decide) (by decide)
  have h₂ := @houses_scripts "\x7b\x7d" ["q", "p1"] (by decide) (by decide) (by decide) (by decide)
  refine ⟨hclosed, h₁, h₂, @rootFiles_relocated _ _ _ _ _ _ _ sizeDigest hclosed ?_ (by decide) (by decide +kernel)
    h₁ h₂⟩
  simp only [scripts, Node.Tidy, Node.TidyEntries]
  decide

/-- The name of the directory is read as a pattern for another name here. -/
theorem bracketed_directory_hides_files :
    let _ : Digest := sizeDigest
    (resolve (scriptsIn "\x7b\x7d" ["p[1]"]) .standard (within ["p[1]"] ["tsconfig.json"])).toOption.map
      Manifest.rootFiles = some [] ∧
    (resolve (scriptsIn "\x7b\x7d" ["p1"]) .standard (within ["p1"] ["tsconfig.json"])).toOption.map
      Manifest.rootFiles = some [⟨"/p1/a.ts"⟩] := by
  decide +kernel

end Manifest

end AnalysisServer
