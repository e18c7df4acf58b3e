import AnalysisServer.Proofs.Discovery.Walks
import AnalysisServer.Proofs.Disk.Linkless

namespace AnalysisServer

open List

open AnalysisServer.Path (IsName ofNames)
open Walk (pathBelow)

variable {names : Location}

theorem Disk.tidy_of_node {d : Disk} {p : Path} {es : List (String × Node)} (htidy : d.root.Tidy)
    (h : d.node p = .ok (.dir es)) : Node.TidyEntries es := by
  obtain ⟨here, -, hget⟩ := exists_locate h
  exact Node.tidy_of_get? htidy hget

theorem Walk.pathBelow_append (root : Path) (front names : Location) :
    pathBelow root (front ++ names) = pathBelow (pathBelow root front) names :=
  foldl_append

theorem Walk.pathBelow_ofNames {absolute : Bool} {front : Location} (hfront : ∀ s ∈ front, IsName s)
    (hnames : ∀ s ∈ names, IsName s) :
    pathBelow (ofNames absolute front) names = ofNames absolute (front ++ names) := by
  induction names generalizing front with
  | nil => rw [append_nil, pathBelow, foldl_nil]
  | cons s rest ih =>
    have hs := hnames s (.head _)
    have hfront' : ∀ s' ∈ front ++ [s], IsName s' := by
      intro s' hs'
      obtain hs' | hs' := mem_append.mp hs'
      · exact hfront s' hs'
      · rwa [mem_singleton.mp hs']
    rw [pathBelow, foldl_cons, Path.joinName_ofNames hfront hs]
    exact (ih hfront' fun s' hs' ↦ hnames s' (.tail _ hs')).trans (by simp)

namespace Glob

def isShallow (pattern : String) : Bool :=
  (ofPattern? pattern).all (·.depth ≤ deepest)

def matchesText (text pattern : String) : Bool :=
  (ofPattern? pattern).any (·.isMatch text)

theorem anyMatch_set (patterns : List String) (text : String) :
    anyMatch (set patterns) text = (patterns.all isShallow && patterns.any (matchesText text)) := by
  have hall : (patterns.filterMap ofPattern?).all (fun g ↦ g.depth ≤ deepest) = patterns.all isShallow :=
    all_filterMap
  rw [set, ← hall]
  split
  · rename_i h
    rw [h]
    exact any_filterMap
  · rename_i h
    rw [Bool.eq_false_iff.mpr h]
    rfl

variable {patterns : List String} {g : Glob}

theorem mem_of_mem_set (h : g ∈ set patterns) : g ∈ patterns.filterMap ofPattern? := by
  simp only [set] at h
  split at h
  · exact h
  · cases h

theorem mem_set (hlevels : ∀ g ∈ patterns.filterMap ofPattern?, g.depth ≤ deepest)
    (h : g ∈ patterns.filterMap ofPattern?) : g ∈ set patterns := by
  rwa [set, if_pos (all_eq_true.mpr fun g hg ↦ decide_eq_true (hlevels g hg))]

end Glob

namespace Manifest

section Below

variable {disk : Disk} {excluded : Path → Bool} {root top p : Path} {front names : Location}
  {es : List (String × Node)}

/-- Nothing on the way down from a directory is excluded, what it leads to included. -/
def IsOpen (excluded : Path → Bool) (root : Path) (names : Location) : Prop :=
  ∀ front, front ≠ [] → front <+: names → excluded (pathBelow root front) = false

def hides (excluded : Path → Bool) (root : Path) (names : Location) (_ : Bool) : Bool :=
  excluded (pathBelow root names)

mutual

theorem filesAt_eq (excluded : Path → Bool) (root : Path) (front : Location) : (n : Node) →
    filesAt excluded (pathBelow root front) n =
      ((Walk.visits (hides excluded root) (fun _ ↦ true) front n).filterMap Walk.Visit.file?).map (pathBelow root)
  | .file _ | .link _ => by
    rw [filesAt, Walk.visits, hides]
    split <;> rfl
  | .dir es => by
    rw [filesAt, Walk.visits, hides]
    cases excluded (pathBelow root front) with
    | true => rfl
    | false => exact filesIn_eq excluded root front es

theorem filesIn_eq (excluded : Path → Bool) (root : Path) (front : Location) : (es : List (String × Node)) →
    filesIn excluded (pathBelow root front) es =
      ((Walk.inside (hides excluded root) (fun _ ↦ true) front es).filterMap Walk.Visit.file?).map (pathBelow root)
  | [] => rfl
  | (s, n) :: es => by
    have hname : (pathBelow root front).joinName s = pathBelow root (front ++ [s]) :=
      (Walk.pathBelow_append root front [s]).symm
    rw [filesIn, hname, filesAt_eq excluded root _ n, filesIn_eq excluded root front es, Walk.inside, filterMap_append,
      map_append]

end

theorem isListed_hides_iff : Walk.isListed (hides excluded root) (fun _ ↦ true) false front names = true ↔
    ∀ mid, mid <+: names → excluded (pathBelow root (front ++ mid)) = false := by
  rw [Walk.isListed_eq, Bool.and_eq_true, Walk.isOpen_iff, Bool.not_eq_true']
  constructor
  · rintro ⟨hopen, hself⟩ mid ⟨back, rfl⟩
    by_cases hback : back = []
    · rwa [hback, append_nil] at hself
    · exact (hopen mid back rfl hback).1
  · exact fun h ↦ ⟨fun mid back he _ ↦ ⟨h mid ⟨back, he.symm⟩, rfl⟩, h names prefix_rfl⟩

theorem mem_filesBelow (htidy : disk.root.Tidy) : p ∈ filesBelow disk excluded root ↔
    ∃ es names bytes, disk.node root = .ok (.dir es) ∧ names ≠ [] ∧
      (Node.dir es).get? names = some (.file bytes) ∧ IsOpen excluded root names ∧ p = pathBelow root names := by
  rw [filesBelow]
  split
  · rename_i es hnode
    have hes := Disk.tidy_of_node htidy hnode
    have hfiles : filesIn excluded root es = _ := filesIn_eq excluded root [] es
    rw [hfiles, ← Walk.filesIn, mem_map]
    constructor
    · rintro ⟨names, hnames, rfl⟩
      obtain ⟨s, rest, rfl, hlisted, hfile⟩ := (Walk.mem_filesIn _ _ hes).mp hnames
      obtain ⟨bytes, hbytes⟩ := Option.isSome_iff_exists.mp hfile
      refine ⟨es, s :: rest, bytes, hnode, cons_ne_nil _ _, Node.get?_of_fileAt? hbytes, ?_, rfl⟩
      intro front hne hfront
      obtain rfl | ⟨mid, rfl, hmid⟩ := prefix_cons_iff.mp hfront
      · exact absurd rfl hne
      · exact isListed_hides_iff.mp hlisted mid hmid
    · rintro ⟨es', names, bytes, hnode', hne, hget, hopen, rfl⟩
      cases hnode.symm.trans hnode'
      obtain ⟨s, rest, rfl⟩ := exists_cons_of_ne_nil hne
      refine ⟨s :: rest, (Walk.mem_filesIn _ _ hes).mpr ⟨s, rest, rfl, ?_, by simp [Node.fileAt?, hget]⟩, rfl⟩
      refine isListed_hides_iff.mpr fun mid hmid ↦ ?_
      exact hopen (s :: mid) (cons_ne_nil _ _) (cons_prefix_cons.mpr ⟨rfl, hmid⟩)
  · rename_i hnode
    refine ⟨fun h ↦ (not_mem_nil h).elim, ?_⟩
    rintro ⟨es, names, bytes, hnode', -⟩
    exact (hnode es hnode').elim

theorem prefix_of_mem_filesBelow (htidy : disk.root.Tidy) (hne : root.text.isEmpty = false)
    (h : p ∈ filesBelow disk excluded root) : root.components <+: p.components := by
  obtain ⟨es, names, bytes, hnode, -, hfile, -, rfl⟩ := (mem_filesBelow htidy).mp h
  have hnames := Node.isName_of_tidy (n := .dir es) (Disk.tidy_of_node htidy hnode) hfile
  rw [(below_pathBelow hne hnames).2.2.2.1]
  exact prefix_append _ _

/-- A walk from a directory comes by a directory below it: no link is on the way, and nothing excluded. -/
structure Passes (disk : Disk) (excluded : Path → Bool) (top : Path) (names : Location) : Prop where
  dirs : ∃ es es', disk.node top = .ok (.dir es) ∧ (Node.dir es).get? names = some (.dir es')
  isOpen : IsOpen excluded top names

theorem IsOpen.append (h : IsOpen excluded top front) (hnames : IsOpen excluded (pathBelow top front) names) :
    IsOpen excluded top (front ++ names) := by
  intro mid hne hmid
  obtain hmid' | ⟨rest, rfl⟩ := prefix_or_prefix_of_prefix hmid (prefix_append front names)
  · exact h mid hne hmid'
  · by_cases hrest : rest = []
    · rw [hrest, append_nil] at hne ⊢
      exact h front hne prefix_rfl
    · rw [Walk.pathBelow_append]
      exact hnames rest hrest ((prefix_append_right_inj front).mp hmid)

theorem Passes.mem_filesBelow (htidy : disk.root.Tidy) (h : Passes disk excluded top front)
    (hp : p ∈ filesBelow disk excluded (pathBelow top front)) : p ∈ filesBelow disk excluded top := by
  obtain ⟨es, es', htop, hget⟩ := h.dirs
  obtain ⟨es'', names, bytes, hroot, hne, hfile, hopen, rfl⟩ := (Manifest.mem_filesBelow htidy).mp hp
  have hsame : es'' = es' := by
    by_cases hfront : front = []
    · subst hfront
      cases htop.symm.trans hroot
      cases hget
      rfl
    · have hnames := Node.isName_of_tidy (n := .dir es) (Disk.tidy_of_node htidy htop) hget
      have hnode := Disk.node_pathBelow htop hnames hfront hget (fun _ h ↦ by cases h)
      rw [hroot] at hnode
      split at hnode <;> cases hnode
      rfl
  subst hsame
  refine (Manifest.mem_filesBelow htidy).mpr ⟨es, front ++ names, bytes, htop, by simp [hne], ?_,
    h.isOpen.append hopen, (Walk.pathBelow_append top front names).symm⟩
  rwa [Node.get?_append, hget]

theorem passes_of_mem_filesBelow (htidy : disk.root.Tidy) (hne : top.text.isEmpty = false)
    (hfront : ∀ s ∈ front, IsName s) (hroot : p ∈ filesBelow disk excluded (pathBelow top front))
    (htop : p ∈ filesBelow disk excluded top) : Passes disk excluded top front := by
  obtain ⟨es, names, bytes, hnode, -, hfile, hopen, rfl⟩ := (mem_filesBelow htidy).mp htop
  obtain ⟨es', rest, bytes', hnode', hrest, hfile', -, hp⟩ := (mem_filesBelow htidy).mp hroot
  have hnames := Node.isName_of_tidy (n := .dir es) (Disk.tidy_of_node htidy hnode) hfile
  have hnames' := Node.isName_of_tidy (n := .dir es') (Disk.tidy_of_node htidy hnode') hfile'
  have hsplit : names = front ++ rest := by
    have hcomponents := congrArg Path.components hp
    rw [← Walk.pathBelow_append, (below_pathBelow hne hnames).2.2.2.1,
      (below_pathBelow hne fun s hs ↦ (mem_append.mp hs).elim (hfront s) (hnames' s)).2.2.2.1] at hcomponents
    exact (map_inj_right fun _ _ h ↦ Component.name.inj h).mp (append_cancel_left hcomponents)
  subst hsplit
  rw [Node.get?_append] at hfile
  obtain ⟨n, hn, hbelow⟩ := Option.bind_eq_some_iff.mp hfile
  obtain ⟨s, rest, rfl⟩ := exists_cons_of_ne_nil hrest
  obtain ⟨es'', n', rfl, -⟩ := Node.get?_cons hbelow
  exact ⟨⟨es, es'', hnode, hn⟩, fun mid hmid hmid' ↦ hopen mid hmid (hmid'.trans (prefix_append _ _))⟩

end Below

section Roots

variable {disk : Disk} {dir root top : Path} {patterns : List String}

/-- The directories where the files of the patterns are looked for, before any is left out. -/
def patternRoots (disk : Disk) (dir : Path) (patterns : List String) : List Path :=
  patterns.filterMap (walkRoot? disk dir)

theorem literalFront_eq (dir : Path) (pattern : String) :
    ∃ absolute names, (∀ s ∈ names, IsName s) ∧ literalFront dir pattern = ofNames absolute names := by
  refine ⟨_, _, fun s hs ↦ ?_, rfl⟩
  obtain h | h := Path.isName_of_mem_resolveDots ((takeWhile_sublist _).subset hs)
  · exact (not_mem_nil h).elim
  · exact Path.isName_of_mem_components h

section

variable (h : root ∈ patternRoots disk dir patterns)

include h

theorem isDir_of_mem_patternRoots : disk.isDir root = true := by
  obtain ⟨pattern, -, hroot⟩ := mem_filterMap.mp h
  simp only [walkRoot?, Option.ite_none_right_eq_some, Option.some.injEq] at hroot
  exact hroot.2 ▸ hroot.1

theorem exists_node_of_mem_patternRoots : ∃ es, disk.node root = .ok (.dir es) := by
  have hdir := isDir_of_mem_patternRoots h
  rw [Disk.isDir] at hdir
  split at hdir
  · rename_i n hn
    cases n with
    | dir es => exact ⟨es, hn⟩
    | _ => cases hdir
  · cases hdir

theorem clean_of_mem_patternRoots : root.text.isEmpty = false ∧
    ∃ absolute names, (∀ s ∈ names, IsName s) ∧ root = ofNames absolute names := by
  obtain ⟨es, hnode⟩ := exists_node_of_mem_patternRoots h
  obtain ⟨here, hlocate, -⟩ := Disk.exists_locate hnode
  refine ⟨(Disk.follow_of_locate hlocate).1, ?_⟩
  obtain ⟨pattern, -, hroot⟩ := mem_filterMap.mp h
  obtain ⟨absolute, names, hnames, hfront⟩ := literalFront_eq dir pattern
  simp only [walkRoot?, hfront, Option.ite_none_right_eq_some, Option.some.injEq] at hroot
  obtain ⟨-, rfl⟩ := hroot
  split
  · rw [Path.parent?_ofNames hnames]
    split
    · exact ⟨false, [], nofun, rfl⟩
    · exact ⟨absolute, names.dropLast, fun s hs ↦ hnames s ((dropLast_subset _) hs), rfl⟩
  · exact ⟨absolute, names, hnames, rfl⟩

theorem normalize_of_mem_patternRoots : root.normalize = root := by
  obtain ⟨-, absolute, names, hnames, rfl⟩ := clean_of_mem_patternRoots h
  exact Path.normalize_ofNames hnames

end

theorem mem_sorted_patternRoots :
    root ∈ Path.sorted (patternRoots disk dir patterns) ↔ root ∈ patternRoots disk dir patterns := by
  refine ⟨Path.mem_of_mem_sorted, fun h ↦ ?_⟩
  obtain ⟨root', hroot', hsame⟩ := Path.exists_mem_sorted h
  have hclean := normalize_of_mem_patternRoots (Path.mem_of_mem_sorted hroot')
  rwa [← Path.eq_of_components hclean (normalize_of_mem_patternRoots h) hsame]

theorem mem_walkRoots : root ∈ walkRoots disk dir patterns ↔ root ∈ patternRoots disk dir patterns ∧
    ∀ other ∈ patternRoots disk dir patterns, other.components <+: root.components → other = root := by
  rw [walkRoots, mem_filter, ← patternRoots, mem_sorted_patternRoots]
  refine and_congr_right fun hroot ↦ ?_
  rw [Bool.not_eq_true', any_eq_false]
  refine ⟨fun h other hother hbelow ↦ ?_, fun h other hother hinside ↦ ?_⟩
  · have hsame := h other (mem_sorted_patternRoots.mpr hother)
    rw [Path.startsWith, isPrefixOf_iff_prefix.mpr hbelow, Bool.and_true, Bool.not_eq_true',
      Bool.not_eq_false, Path.same_iff] at hsame
    exact Path.eq_of_components (normalize_of_mem_patternRoots hother) (normalize_of_mem_patternRoots hroot) hsame
  · rw [Bool.and_eq_true, Bool.not_eq_true', Path.startsWith, isPrefixOf_iff_prefix] at hinside
    rw [h other (mem_sorted_patternRoots.mp hother) hinside.2, Path.not_same_iff] at hinside
    exact hinside.1 rfl

theorem exists_pathBelow (htop : top ∈ patternRoots disk dir patterns) (hroot : root ∈ patternRoots disk dir patterns)
    (h : top.components <+: root.components) : ∃ names, (∀ s ∈ names, IsName s) ∧ root = pathBelow top names := by
  obtain ⟨hempty, absolute, front, hfront, rfl⟩ := clean_of_mem_patternRoots htop
  obtain ⟨-, absolute', names, hnames, rfl⟩ := clean_of_mem_patternRoots hroot
  obtain ⟨rest, hrest⟩ := h
  rw [Path.components_ofNames hfront, Path.components_ofNames hnames] at hrest
  have hfrontNotEmpty : absolute = false → front ≠ [] := by
    rintro rfl rfl
    exact absurd hempty (by decide)
  -- both paths begin at the root of the tree or neither does
  have hsame : absolute = absolute' ∧ front.map Component.name ++ rest = names.map .name := by
    cases absolute <;> cases absolute' <;> simp only [if_true, if_false, Bool.false_eq_true, nil_append,
      cons_append, List.cons.injEq, true_and] at hrest ⊢
    · exact hrest
    · obtain ⟨s, front, rfl⟩ := exists_cons_of_ne_nil (hfrontNotEmpty rfl)
      cases hrest
    · cases names <;> cases hrest
    · exact hrest
  obtain ⟨rfl, hsplit⟩ := hsame
  obtain ⟨front', names', rfl, hfront', rfl⟩ := append_eq_map_iff.mp hsplit
  rw [map_inj_right fun _ _ h ↦ Component.name.inj h] at hfront'
  subst hfront'
  have hbelow : ∀ s ∈ names', IsName s := fun s hs ↦ hnames s (mem_append_right _ hs)
  exact ⟨names', hbelow, (Walk.pathBelow_ofNames hfront hbelow).symm⟩

end Roots

section Selection

variable {disk : Disk} {dir p : Path} {inclusions more exclusions : List String} {classifier : Classifier}

def isExcluded (dir : Path) (exclusions : List String) (p : Path) : Bool :=
  Glob.anyMatch (Glob.set (absolutePatterns dir exclusions)) p.text

def isSelected (classifier : Classifier) (dir : Path) (inclusions : List String) (p : Path) : Bool :=
  classifier.isScript p && Glob.anyMatch (Glob.set (absolutePatterns dir inclusions)) p.text

/-- The files that are selected when the directory of every pattern is walked on its own. -/
def separatelyIncluded (disk : Disk) (classifier : Classifier) (dir : Path) (inclusions exclusions : List String) :
    List Path :=
  ((patternRoots disk dir inclusions).flatMap (filesBelow disk (isExcluded dir exclusions))).filter
    (isSelected classifier dir inclusions)

theorem mem_includedFiles : p ∈ includedFiles disk classifier dir inclusions exclusions ↔
    (∃ top ∈ walkRoots disk dir inclusions, p ∈ filesBelow disk (isExcluded dir exclusions) top) ∧
      isSelected classifier dir inclusions p = true := by
  rw [includedFiles, mem_filter, mem_flatMap]
  rfl

theorem mem_separatelyIncluded : p ∈ separatelyIncluded disk classifier dir inclusions exclusions ↔
    (∃ root ∈ patternRoots disk dir inclusions, p ∈ filesBelow disk (isExcluded dir exclusions) root) ∧
      isSelected classifier dir inclusions p = true := by
  rw [separatelyIncluded, mem_filter, mem_flatMap]

/-- A walk that is made comes by every directory in which a pattern has files. -/
def RootsPassed (disk : Disk) (classifier : Classifier) (dir : Path) (inclusions exclusions : List String) : Prop :=
  ∀ root ∈ patternRoots disk dir inclusions,
    (∃ p ∈ filesBelow disk (isExcluded dir exclusions) root, isSelected classifier dir inclusions p = true) →
    ∃ top ∈ walkRoots disk dir inclusions, ∃ names, root = pathBelow top names ∧
      Passes disk (isExcluded dir exclusions) top names

theorem mem_separatelyIncluded_of_mem (h : p ∈ includedFiles disk classifier dir inclusions exclusions) :
    p ∈ separatelyIncluded disk classifier dir inclusions exclusions := by
  obtain ⟨⟨top, htop, hp⟩, hselected⟩ := mem_includedFiles.mp h
  exact mem_separatelyIncluded.mpr ⟨⟨top, (mem_walkRoots.mp htop).1, hp⟩, hselected⟩

theorem RootsPassed.mem_includedFiles (htidy : disk.root.Tidy)
    (h : RootsPassed disk classifier dir inclusions exclusions)
    (hp : p ∈ separatelyIncluded disk classifier dir inclusions exclusions) :
    p ∈ includedFiles disk classifier dir inclusions exclusions := by
  obtain ⟨⟨root, hroot, hfile⟩, hselected⟩ := mem_separatelyIncluded.mp hp
  obtain ⟨top, htop, names, rfl, hpasses⟩ := h root hroot ⟨p, hfile, hselected⟩
  exact Manifest.mem_includedFiles.mpr ⟨⟨top, htop, hpasses.mem_filesBelow htidy hfile⟩, hselected⟩

theorem rootsPassed_of_same (htidy : disk.root.Tidy)
    (h : ∀ p ∈ separatelyIncluded disk classifier dir inclusions exclusions,
      p ∈ includedFiles disk classifier dir inclusions exclusions) :
    RootsPassed disk classifier dir inclusions exclusions := by
  rintro root hroot ⟨p, hfile, hselected⟩
  obtain ⟨⟨top, htop, hfound⟩, -⟩ :=
    mem_includedFiles.mp (h p (mem_separatelyIncluded.mpr ⟨⟨root, hroot, hfile⟩, hselected⟩))
  obtain ⟨htop', houter⟩ := mem_walkRoots.mp htop
  have hbelow : top.components <+: root.components := by
    have hwithin (root' : Path) (hroot' : root' ∈ patternRoots disk dir inclusions)
        (hp : p ∈ filesBelow disk (isExcluded dir exclusions) root') : root'.components <+: p.components :=
      prefix_of_mem_filesBelow htidy (clean_of_mem_patternRoots hroot').1 hp
    obtain h | h := prefix_or_prefix_of_prefix (hwithin top htop' hfound) (hwithin root hroot hfile)
    · exact h
    · exact houter root hroot h ▸ prefix_rfl
  obtain ⟨names, hnames, rfl⟩ := exists_pathBelow htop' hroot hbelow
  exact ⟨top, htop, names, rfl,
    passes_of_mem_filesBelow htidy (clean_of_mem_patternRoots htop').1 hnames hfile hfound⟩

theorem exists_walkRoot {root : Path} (h : root ∈ patternRoots disk dir inclusions) :
    ∃ top ∈ walkRoots disk dir inclusions, top.components <+: root.components := by
  induction hn : root.components.length using Nat.strongRecOn generalizing root with
  | ind n ih =>
    by_cases houter : ∃ other ∈ patternRoots disk dir inclusions, other.components <+: root.components ∧ other ≠ root
    · obtain ⟨other, hother, hbelow, hne⟩ := houter
      have hlt : other.components.length < n := by
        refine hn ▸ Nat.lt_of_le_of_ne hbelow.length_le fun hlen ↦ hne ?_
        exact Path.eq_of_components (normalize_of_mem_patternRoots hother) (normalize_of_mem_patternRoots h)
          (hbelow.eq_of_length hlen)
      obtain ⟨top, htop, hbelow'⟩ := ih _ hlt hother rfl
      exact ⟨top, htop, hbelow'.trans hbelow⟩
    · refine ⟨root, mem_walkRoots.mpr ⟨h, fun other hother hbelow ↦ ?_⟩, prefix_rfl⟩
      exact Decidable.byContradiction fun hne ↦ houter ⟨other, hother, hbelow, hne⟩

theorem get?_of_linkless {top : Path} {es es' : List (String × Node)}
    (hdisk : disk.root.isLinkless = true) (hnames : ∀ s ∈ names, IsName s) (htop : disk.node top = .ok (.dir es))
    (hroot : disk.node (pathBelow top names) = .ok (.dir es')) : (Node.dir es).get? names = some (.dir es') := by
  obtain ⟨here, hlocate, hget⟩ := Disk.exists_locate htop
  obtain ⟨here', hlocate', hget'⟩ := Disk.exists_locate hroot
  obtain ⟨hempty, hfollow⟩ := Disk.follow_of_locate hlocate
  obtain ⟨-, hfollow'⟩ := Disk.follow_of_locate hlocate'
  obtain ⟨-, habsolute, hpieces, -, -⟩ := below_pathBelow hempty hnames
  have happend := Disk.follow_append disk.root Disk.linkLimit (if top.isAbsolute then [] else disk.current)
    (Disk.pieces top) names
  rw [Disk.follow_pieces hfollow] at happend
  obtain ⟨left, hleft⟩ := happend
  have hdown := (Disk.follow_pieces hfollow')
  rw [habsolute, hpieces, hleft] at hdown
  have hhere := Disk.follow_linkless hdisk (fun s hs ↦ ⟨(hnames s hs).notEmpty, (hnames s hs).noSlash⟩) hdown
  have hplain : names.filterMap (fun s ↦ Path.ofPiece? s.toList) = names.map .name := by
    rw [← Path.filterMap_ofPiece? hnames, filterMap_map]
    rfl
  rw [hplain, Path.resolveDots_names, reverse_reverse] at hhere
  rw [hhere, Node.get?_append, hget] at hget'
  exact hget'

theorem rootsPassed_of_linkless (htidy : disk.root.Tidy) (hdisk : disk.root.isLinkless = true)
    (hclosed : ∀ p names, isExcluded dir exclusions p = true → isExcluded dir exclusions (pathBelow p names) = true) :
    RootsPassed disk classifier dir inclusions exclusions := by
  rintro root hroot ⟨p, hfile, -⟩
  obtain ⟨top, htop, hbelow⟩ := exists_walkRoot hroot
  obtain ⟨htop', -⟩ := mem_walkRoots.mp htop
  obtain ⟨names, hnames, rfl⟩ := exists_pathBelow htop' hroot hbelow
  obtain ⟨es', below, bytes, hnode, hne, -, hopen, rfl⟩ := (mem_filesBelow htidy).mp hfile
  obtain ⟨es, htopNode⟩ := exists_node_of_mem_patternRoots htop'
  refine ⟨top, htop, names, rfl, ⟨es, es', htopNode, get?_of_linkless hdisk hnames htopNode hnode⟩, ?_⟩
  rintro front - ⟨rest, rfl⟩
  -- the file is below whatever hides the way to its directory
  refine Bool.eq_false_iff.mpr fun hexcluded ↦ ?_
  have hfileExcluded := hclosed _ (rest ++ below) hexcluded
  rw [← Walk.pathBelow_append, ← append_assoc, Walk.pathBelow_append, hopen below hne prefix_rfl]
    at hfileExcluded
  cases hfileExcluded

theorem isSelected_append (hlevels : ∀ g ∈ (absolutePatterns dir (inclusions ++ more)).filterMap Glob.ofPattern?,
      g.depth ≤ Glob.deepest) (h : isSelected classifier dir inclusions p = true) :
    isSelected classifier dir (inclusions ++ more) p = true := by
  rw [isSelected, Bool.and_eq_true] at h ⊢
  refine ⟨h.1, ?_⟩
  obtain ⟨g, hg, hmatch⟩ := any_eq_true.mp h.2
  refine any_eq_true.mpr ⟨g, Glob.mem_set hlevels ?_, hmatch⟩
  rw [absolutePatterns, flatMap_append, filterMap_append]
  exact mem_append_left _ (Glob.mem_of_mem_set hg)

/-- Walking only the outermost directories finds what walking all of them finds exactly if it comes by each that
has something to select. That is so if there are no links and whatever is excluded is excluded with all below
it; and then further patterns take no file away, unless one of them is nested too deeply. -/
theorem includedFiles_complete_iff (htidy : disk.root.Tidy) (classifier : Classifier) (dir : Path)
    (inclusions exclusions : List String) :
    ((∀ p, p ∈ includedFiles disk classifier dir inclusions exclusions ↔
        p ∈ separatelyIncluded disk classifier dir inclusions exclusions) ↔
      RootsPassed disk classifier dir inclusions exclusions) ∧
    (disk.root.isLinkless = true →
      (∀ p names, isExcluded dir exclusions p = true → isExcluded dir exclusions (pathBelow p names) = true) →
      RootsPassed disk classifier dir inclusions exclusions) ∧
    (∀ more, RootsPassed disk classifier dir (inclusions ++ more) exclusions →
      (∀ g ∈ (absolutePatterns dir (inclusions ++ more)).filterMap Glob.ofPattern?, g.depth ≤ Glob.deepest) →
      ∀ p ∈ includedFiles disk classifier dir inclusions exclusions,
        p ∈ includedFiles disk classifier dir (inclusions ++ more) exclusions) := by
  refine ⟨⟨fun h ↦ ?_, fun h p ↦ ?_⟩, rootsPassed_of_linkless htidy, fun more hpassed hlevels p hp ↦ ?_⟩
  · exact rootsPassed_of_same htidy fun p hp ↦ (h p).mpr hp
  · exact ⟨mem_separatelyIncluded_of_mem, h.mem_includedFiles htidy⟩
  · obtain ⟨⟨root, hroot, hfile⟩, hselected⟩ := mem_separatelyIncluded.mp (mem_separatelyIncluded_of_mem hp)
    refine hpassed.mem_includedFiles htidy
      (mem_separatelyIncluded.mpr ⟨⟨root, ?_, hfile⟩, isSelected_append hlevels hselected⟩)
    rw [patternRoots, filterMap_append]
    exact mem_append_left _ hroot

def linkedTree : Disk :=
  { root := .dir [("p", .dir [("lib", .dir [("a.ts", .file .empty)]), ("link", .link ⟨"../q"⟩)]),
      ("q", .dir [("b.ts", .file .empty)])] }

theorem tidy_linkedTree : linkedTree.root.Tidy := by
  simp only [linkedTree, Node.Tidy, Node.TidyEntries]
  decide

/-- One walk passes both directories here, and finds the files of both. -/
theorem includedFiles_complete_iff_nested :
    linkedTree.root.Tidy ∧ RootsPassed linkedTree .standard ⟨"/"⟩ ["p/lib/**/*", "**/*"] [] ∧
    ∀ p, p ∈ includedFiles linkedTree .standard ⟨"/"⟩ ["p/lib/**/*", "**/*"] [] ↔
      p ∈ separatelyIncluded linkedTree .standard ⟨"/"⟩ ["p/lib/**/*", "**/*"] [] := by
  have h := includedFiles_complete_iff tidy_linkedTree .standard ⟨"/"⟩ ["p/lib/**/*", "**/*"] []
  have hsame : ∀ p, p ∈ includedFiles linkedTree .standard ⟨"/"⟩ ["p/lib/**/*", "**/*"] [] ↔
      p ∈ separatelyIncluded linkedTree .standard ⟨"/"⟩ ["p/lib/**/*", "**/*"] [] := by
    have hincluded : includedFiles linkedTree .standard ⟨"/"⟩ ["p/lib/**/*", "**/*"] [] =
        [⟨"/p/lib/a.ts"⟩, ⟨"/q/b.ts"⟩] := by decide +kernel
    have hseparately : separatelyIncluded linkedTree .standard ⟨"/"⟩ ["p/lib/**/*", "**/*"] [] =
        [⟨"/p/lib/a.ts"⟩, ⟨"/p/lib/a.ts"⟩, ⟨"/q/b.ts"⟩] := by decide +kernel
    rw [hincluded, hseparately]
    simp
  exact ⟨tidy_linkedTree, h.1.mp hsame, hsame⟩

/-- Taking in all files loses those that were taken in before: the ones in a directory that is excluded but not
what is in it, and the ones behind a link. -/
theorem further_pattern_loses_files : (includedFiles linkedTree .standard ⟨"/p"⟩ ["lib/**/*", "link/**/*"] ["li?"] =
      [⟨"/p/lib/a.ts"⟩, ⟨"/p/link/b.ts"⟩] ∧
    separatelyIncluded linkedTree .standard ⟨"/p"⟩ ["lib/**/*", "link/**/*", "**/*"] ["li?"] =
      [⟨"/p/lib/a.ts"⟩, ⟨"/p/link/b.ts"⟩]) ∧
    includedFiles linkedTree .standard ⟨"/p"⟩ ["lib/**/*", "link/**/*", "**/*"] ["li?"] = [] ∧
    includedFiles linkedTree .standard ⟨"/p"⟩ ["lib/**/*", "link/**/*", "**/*"] [] = [⟨"/p/lib/a.ts"⟩] := by
  decide +kernel

end Selection

end Manifest

end AnalysisServer
