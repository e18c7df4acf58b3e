import AnalysisServer.Proofs.Disk.Places

namespace AnalysisServer

open List

open AnalysisServer.Path (IsName ofNames)

/-- Nothing but the tree at a location. -/
def Node.under (tree : Node) : Location → Node
  | [] => tree
  | s :: rest => .dir [(s, tree.under rest)]

theorem Node.get?_under_front (tree : Node) (front back : Location) :
    (tree.under (front ++ back)).get? front = some (tree.under back) := by
  induction front with
  | nil => rfl
  | cons s front ih => simpa [Node.under, Node.get?, lookup_cons] using ih

theorem Node.get?_under (tree : Node) (top here : Location) :
    (tree.under top).get? (top ++ here) = tree.get? here := by
  have htop := get?_under_front tree top []
  rw [append_nil] at htop
  rw [Node.get?_append, htop]
  rfl

theorem Path.toList_ofNames_ne_nil {names : List String} (h : names ≠ []) :
    (ofNames true names).text.toList = names.flatMap fun s ↦ '/' :: s.toList := by
  rw [toList_ofNames]
  induction names with
  | nil => exact absurd rfl h
  | cons s rest ih =>
    cases rest with
    | nil => simp
    | cons s' rest =>
      have hrest := ih (cons_ne_nil _ _)
      rw [if_pos rfl, singleton_append] at hrest
      rw [flatMap_cons, ← hrest]
      simp [intercalate_cons_cons]

namespace Disk

variable {tree : Node} {links : Nat} {here top names : Location} {todo : List String}

/-- The way leads above the top of the tree, or to an absolute link. -/
inductive Climbs (tree : Node) : Location → List String → Prop
  | above {rest} : Climbs tree [] (".." :: rest)
  | away {here step rest es target}
      (hdir : tree.get? here = some (.dir es)) (hes : es.lookup step = some (.link target))
      (habsolute : target.isAbsolute = true) : Climbs tree here (step :: rest)
  | dot {here rest es} (hdir : tree.get? here = some (.dir es))
      (h : Climbs tree here rest) : Climbs tree here ("." :: rest)
  | dots {here rest es} (hdir : tree.get? here = some (.dir es))
      (h : Climbs tree here.dropLast rest) : Climbs tree here (".." :: rest)
  | entry {here step rest es n}
      (hdir : tree.get? here = some (.dir es)) (hes : es.lookup step = some n) (hn : ∀ target, n ≠ .link target)
      (h : Climbs tree (here ++ [step]) rest) : Climbs tree here (step :: rest)
  | link {here step rest es target}
      (hdir : tree.get? here = some (.dir es)) (hes : es.lookup step = some (.link target))
      (h : Climbs tree here (steps target ++ rest)) : Climbs tree here (step :: rest)

/-- No path of names leads out of the tree. -/
def Closed (tree : Node) : Prop :=
  ∀ names, (∀ s ∈ names, IsName s) → ¬ Climbs tree [] names

theorem follow_under (top : Location) (h : ¬ Climbs tree here todo) :
    follow (tree.under top) links (top ++ here) todo = (follow tree links here todo).map (top ++ ·) := by
  have hget (here : Location) : (tree.under top).get? (top ++ here) = tree.get? here := tree.get?_under top here
  induction links, here, todo using follow_induction tree with
  | nil => rw [follow_nil, follow_nil, Except.map]
  | dot links here rest es hdir ih =>
    rw [follow_dot ((hget here).trans hdir), follow_dot hdir]
    exact ih fun hclimbs ↦ h (.dot hdir hclimbs)
  | dots links here rest es hdir ih =>
    have hne : here ≠ [] := by
      rintro rfl
      exact h .above
    rw [follow_dots ((hget here).trans hdir), follow_dots hdir, dropLast_append_of_ne_nil hne]
    exact ih fun hclimbs ↦ h (.dots hdir hclimbs)
  | link left here step rest es target hplain hdir hes ih =>
    have hrelative : target.isAbsolute = false := Bool.eq_false_iff.mpr fun ha ↦ h (.away hdir hes ha)
    rw [follow_link hplain ((hget here).trans hdir) hes, follow_link hplain hdir hes]
    simp only [hrelative, Bool.false_eq_true, if_false] at ih ⊢
    exact ih fun hclimbs ↦ h (.link hdir hes hclimbs)
  | entry links here step rest es n hplain hdir hes hn ih =>
    rw [follow_entry hplain ((hget here).trans hdir) hes hn, follow_entry hplain hdir hes hn, append_assoc]
    exact ih fun hclimbs ↦ h (.entry hdir hes hn hclimbs)
  | stop links here step rest e hstop =>
    rw [hstop _ _ _ (hget here), hstop tree here rest rfl]
    rfl

theorem follow_top (htree : ∀ target, tree ≠ .link target) (htop : ∀ s ∈ top, Plain s) (rest : List String) :
    follow (tree.under top) links [] (top ++ rest) = follow (tree.under top) links top rest := by
  have hback (front back : Location) (hsplit : top = front ++ back) :
      follow (tree.under top) links front (back ++ rest) = follow (tree.under top) links top rest := by
    induction back generalizing front with
    | nil => rw [hsplit, append_nil, nil_append]
    | cons s back ih =>
      have hdir := tree.get?_under_front front (s :: back)
      rw [← hsplit] at hdir
      have hn (target : Path) : tree.under back ≠ .link target := by
        cases back with
        | nil => exact htree target
        | cons => nofun
      have hs : Plain s := htop s (by simp [hsplit])
      rw [cons_append, follow_entry hs hdir (by simp) hn]
      exact ih (front ++ [s]) (by simp [hsplit])
  exact hback [] top rfl

def way (tree : Node) (names : Location) : Option Location :=
  if ∃ s ∈ names, '\x00' ∈ s.toList then none else (follow tree linkLimit [] names).toOption

/-- The disk has nothing but the tree at a location, and what is found in the tree can be found there. -/
structure Holds (disk : Disk) (top : Location) (tree : Node) : Prop where
  root : disk.root = tree.under top
  isName : ∀ s ∈ top, IsName s
  isValid : ∀ s ∈ top, '\x00' ∉ s.toList ∧ Text.byteLength s.toList ≤ nameLimit
  room : ∀ names loc, (∀ s ∈ names, IsName s) → follow tree linkLimit [] names = .ok loc →
    Text.byteLength (ofNames true (top ++ names)).text.toList ≤ pathLimit

variable {disk : Disk} {es : List (String × Node)}

namespace Holds

theorem isName_append (h : disk.Holds top tree) (hnames : ∀ s ∈ names, IsName s) : ∀ s ∈ top ++ names, IsName s :=
  fun s hs ↦ (mem_append.mp hs).elim (h.isName s) (hnames s)

theorem nul_mem_iff (h : disk.Holds top tree) :
    '\x00' ∈ (ofNames true (top ++ names)).text.toList ↔ ∃ s ∈ names, '\x00' ∈ s.toList := by
  by_cases hnil : top ++ names = []
  · obtain ⟨rfl, rfl⟩ := append_eq_nil_iff.mp hnil
    decide
  · rw [Path.toList_ofNames_ne_nil hnil, mem_flatMap]
    constructor
    · rintro ⟨s, hs, hnul⟩
      have hnul : '\x00' ∈ s.toList := by simpa using hnul
      exact ⟨s, (mem_append.mp hs).resolve_left fun hs ↦ (h.isValid s hs).1 hnul, hnul⟩
    · rintro ⟨s, hs, hnul⟩
      exact ⟨s, mem_append_right _ hs, .tail _ hnul⟩

theorem locate (h : disk.Holds top (.dir es)) (hclosed : Closed (.dir es)) (hnames : ∀ s ∈ names, IsName s) :
    (disk.locate (ofNames true (top ++ names))).toOption = (way (.dir es) names).map (top ++ ·) := by
  have hplain (s : String) (hs : s ∈ top) : Plain s :=
    ⟨fun he ↦ (h.isName s hs).notDot (by rw [he]; rfl), fun he ↦ (h.isName s hs).notDots (by rw [he]; rfl),
      (h.isValid s hs).2⟩
  have hfollow : follow disk.root linkLimit [] (steps (ofNames true (top ++ names))) =
      (follow (.dir es) linkLimit [] names).map (top ++ ·) := by
    have hunder := @follow_under _ linkLimit _ _ top (hclosed names hnames)
    rw [append_nil, ← follow_top (fun _ h ↦ by cases h) hplain, ← h.root] at hunder
    rw [steps_ofNames (h.isName_append hnames), ← hunder]
    split
    · rename_i hnil
      obtain ⟨rfl, rfl⟩ := append_eq_nil_iff.mp hnil
      rw [h.root]
      exact follow_dot rfl
    · rfl
  have habsolute := Path.isAbsolute_ofNames true (h.isName_append hnames)
  rw [Disk.locate, Path.isEmpty_of_isAbsolute habsolute, habsolute, if_pos rfl, hfollow, way]
  simp only [contains_iff_mem, h.nul_mem_iff, Bool.false_eq_true, if_false]
  by_cases hnul : ∃ s ∈ names, '\x00' ∈ s.toList
  · rw [if_pos hnul, if_pos hnul]
    rfl
  · rw [if_neg hnul, if_neg hnul]
    cases hway : follow (.dir es) linkLimit [] names with
    | ok loc =>
      rw [if_neg (Nat.not_lt.mpr (h.room names loc hnames hway))]
      rfl
    | error e => split <;> rfl

end Holds

def look (tree : Node) (names : Location) : Option Node :=
  (way tree names).bind fun here ↦ tree.get? here

theorem look_nil : look tree [] = some tree := by
  simp [look, way, follow_nil, Except.toOption, Node.get?]

namespace Holds

section

variable (h : disk.Holds top (.dir es)) (hclosed : Closed (.dir es)) (hnames : ∀ s ∈ names, IsName s)

include h hclosed hnames

theorem node : (disk.node (ofNames true (top ++ names))).toOption = look (.dir es) names := by
  have hlocate := h.locate hclosed hnames
  rw [look, Disk.node]
  cases hloc : disk.locate (ofNames true (top ++ names)) with
  | error e =>
    rw [hloc] at hlocate
    rw [Option.map_eq_none_iff.mp hlocate.symm]
    rfl
  | ok loc =>
    rw [hloc] at hlocate
    obtain ⟨here, hway, rfl⟩ := Option.map_eq_some_iff.mp hlocate.symm
    have hget := Node.get?_under (.dir es) top here
    rw [← h.root] at hget
    simp only [hway, Option.bind_some, bind, Except.bind, hget]
    cases (Node.dir es).get? here <;> rfl

theorem isFile : disk.isFile (ofNames true (top ++ names)) = (look (.dir es) names).any Node.isFile := by
  rw [← h.node hclosed hnames, Disk.isFile]
  cases disk.node (ofNames true (top ++ names)) <;> rfl

theorem isDir : disk.isDir (ofNames true (top ++ names)) = (look (.dir es) names).any Node.isDir := by
  rw [← h.node hclosed hnames, Disk.isDir]
  cases disk.node (ofNames true (top ++ names)) <;> rfl

end

end Holds

end Disk

end AnalysisServer
