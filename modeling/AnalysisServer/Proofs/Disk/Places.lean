import AnalysisServer.Proofs.Disk.Following
import AnalysisServer.Proofs.Path.Names

namespace AnalysisServer

open List

theorem Node.get?_append (n : Node) (front rest : Location) :
    n.get? (front ++ rest) = (n.get? front).bind (Node.get? rest) := by
  induction front generalizing n with
  | nil => rfl
  | cons s front ih =>
    cases n with
    | dir es =>
      simp only [cons_append, Node.get?]
      split
      · exact ih _
      · rfl
    | file bytes | link target => rfl

variable {s : String} {p : Path}

theorem Node.get?_cons {n m : Node} {rest : Location} (h : n.get? (s :: rest) = some m) :
    ∃ es n', n = .dir es ∧ es.lookup s = some n' ∧ n'.get? rest = some m := by
  cases n with
  | dir es =>
    simp only [Node.get?] at h
    split at h
    · exact ⟨es, _, rfl, ‹_›, h⟩
    · cases h
  | file bytes | link target => cases h

namespace Disk

open AnalysisServer.Path (IsName ofNames)

structure IsPlace (root : Node) (here : Location) : Prop where
  names : ∀ s ∈ here, IsName s
  node : ∃ n, root.get? here = some n ∧ ∀ target, n ≠ .link target

def Proper (d : Disk) : Prop :=
  ∀ s ∈ d.current, IsName s

instance (d : Disk) : Decidable d.Proper :=
  inferInstanceAs (Decidable (∀ s ∈ d.current, IsName s))

def IsStep (s : String) : Prop :=
  s.toList ≠ [] ∧ '/' ∉ s.toList

theorem IsStep.isName (h : IsStep s) (hdot : s ≠ ".") (hdots : s ≠ "..") : IsName s :=
  ⟨h.1, h.2, fun he ↦ hdot (String.toList_inj.mp he), fun he ↦ hdots (String.toList_inj.mp he)⟩

theorem isStep_of_mem_steps (h : s ∈ steps p) : IsStep s := by
  obtain h | h := mem_append.mp h
  · obtain ⟨piece, hpiece, rfl⟩ := mem_map.mp h
    obtain ⟨hpiece, hne⟩ := mem_filter.mp hpiece
    rw [IsStep, String.toList_ofList]
    exact ⟨of_decide_eq_true hne, Text.not_mem_of_mem_split hpiece⟩
  · split at h
    · obtain rfl := mem_singleton.mp h
      exact ⟨by decide, by decide⟩
    · cases h

theorem eq_slash_of_split {cs : List Char} (h : ∀ piece ∈ Text.split '/' cs, piece = []) : ∀ c ∈ cs, c = '/' := by
  induction cs with
  | nil => simp
  | cons c cs ih =>
    rw [Text.split] at h
    split at h
    · rename_i hc
      have hrest := ih fun piece hpiece ↦ h piece (.tail _ hpiece)
      intro c' hc'
      obtain rfl | hc' := mem_cons.mp hc'
      · exact hc
      · exact hrest c' hc'
    · split at h
      · cases h _ (.head _)
      · cases h _ (.head _)

theorem steps_ne_nil (h : p.text.isEmpty = false) : steps p ≠ [] := by
  intro hnil
  obtain ⟨hpieces, hlast⟩ := append_eq_nil_iff.mp hnil
  have hne : p.text.toList ≠ [] := by simpa [String.isEmpty_iff] using h
  obtain ⟨c, hc⟩ := Option.isSome_iff_exists.mp (List.getLast?_isSome.mpr hne)
  have hslash := @eq_slash_of_split p.text.toList (fun piece hpiece ↦ ?_) c (mem_of_getLast? hc)
  · rw [hc, hslash] at hlast
    cases hlast
  · have hnone := filter_eq_nil_iff.mp (map_eq_nil_iff.mp hpieces) piece hpiece
    simpa using hnone

theorem steps_ofNames {here : Location} (h : ∀ s ∈ here, IsName s) :
    steps (ofNames true here) = if here = [] then ["."] else here := by
  have hpieces : ((if here = [] then [[]] else here.map String.toList : List (List Char))).filter (· ≠ []) =
      here.map String.toList := by
    split
    · simp [*]
    · refine filter_eq_self.mpr fun piece hpiece ↦ ?_
      obtain ⟨s, hs, rfl⟩ := mem_map.mp hpiece
      exact decide_eq_true (h s hs).notEmpty
  have hback : (here.map String.toList).map String.ofList = here := by
    simp [map_map, Function.comp_def, String.ofList_toList]
  simp only [steps, Path.toList_ofNames, if_true, singleton_append, Text.split, Path.split_names h]
  rw [filter_cons_of_neg (by simp), hpieces, hback]
  by_cases hn : here = []
  · subst hn
    simp
  · have hne : ['/'].intercalate (here.map String.toList) ≠ [] := by
      cases here with
      | nil => exact absurd rfl hn
      | cons s rest =>
        have := (h s (.head _)).notEmpty
        cases rest <;> simp [intercalate_cons_cons, this]
    rw [List.getLast?_cons_of_ne_nil hne, if_neg (Path.getLast?_names h), if_neg hn, append_nil]

section Follow

variable {root : Node} {links : Nat} {here loc : Location} {todo : List String} {es : List (String × Node)}

theorem get?_parent (h : root.get? here = some (.dir es)) : ∃ es', root.get? here.dropLast = some (.dir es') := by
  rcases eq_nil_or_concat here with rfl | ⟨front, s, rfl⟩
  · exact ⟨es, h⟩
  · rw [concat_eq_append, Node.get?_append] at h
    obtain ⟨n, hn, h⟩ := Option.bind_eq_some_iff.mp h
    obtain ⟨es', -, rfl, -⟩ := Node.get?_cons h
    exact ⟨es', by simpa using hn⟩

theorem IsPlace.of_dir (hnames : ∀ s ∈ here, IsName s) (h : root.get? here = some (.dir es)) : IsPlace root here :=
  ⟨hnames, _, h, by simp⟩

theorem IsPlace.top (h : root.get? here = some (.dir es)) : IsPlace root [] := by
  refine ⟨by simp, root, rfl, ?_⟩
  rintro target rfl
  cases here <;> cases h

theorem follow_isPlace (h : follow root links here todo = .ok loc) (htodo : ∀ s ∈ todo, IsStep s)
    (hnames : ∀ s ∈ here, IsName s) (hnil : todo = [] → IsPlace root here) : IsPlace root loc := by
  -- that `here` is a place is needed, and kept, only for when nothing is left to do
  induction links, here, todo using follow_induction root with
  | nil links here =>
    rw [follow_nil] at h
    cases h
    exact hnil rfl
  | dot links here rest es hdir ih =>
    rw [follow_dot hdir] at h
    exact ih h (fun s hs ↦ htodo s (.tail _ hs)) hnames fun _ ↦ .of_dir hnames hdir
  | dots links here rest es hdir ih =>
    rw [follow_dots hdir] at h
    obtain ⟨es', hdir'⟩ := get?_parent hdir
    have hnames' (s : String) (hs : s ∈ here.dropLast) : IsName s := hnames s (dropLast_subset _ hs)
    exact ih h (fun s hs ↦ htodo s (.tail _ hs)) hnames' fun _ ↦ .of_dir hnames' hdir'
  | link left here step rest es target hstep hdir hes ih =>
    -- a link: its own steps come first, from the root if it is absolute
    rw [follow_link hstep hdir hes] at h
    refine ih h (fun s hs ↦ ?_) ?_ fun _ ↦ ?_
    · obtain hs | hs := mem_append.mp hs
      · exact isStep_of_mem_steps hs
      · exact htodo s (.tail _ hs)
    · split
      · simp
      · exact hnames
    · split
      · exact .top hdir
      · exact .of_dir hnames hdir
  | entry links here step rest es n hstep hdir hes hlink ih =>
    rw [follow_entry hstep hdir hes hlink] at h
    have hnames' : ∀ s ∈ here ++ [step], IsName s := by
      intro s hs
      obtain hs | hs := mem_append.mp hs
      · exact hnames s hs
      · obtain rfl := mem_singleton.mp hs
        exact (htodo s (.head _)).isName hstep.notDot hstep.notDots
    refine ih h (fun s hs ↦ htodo s (.tail _ hs)) hnames' fun _ ↦ ⟨hnames', n, ?_, hlink⟩
    rw [Node.get?_append, hdir, Option.bind_some, Node.get?, hes]
    rfl
  | stop links here step rest e hstop =>
    cases (hstop root here rest rfl).symm.trans h

theorem follow_of_locate {d : Disk} (h : d.locate p = .ok loc) : p.text.isEmpty = false ∧
    follow d.root linkLimit (if p.isAbsolute then [] else d.current) (steps p) = .ok loc := by
  unfold locate at h
  split at h
  · cases h
  · rename_i hempty
    split at h
    · cases h
    · split at h
      · cases h
      · exact ⟨Bool.eq_false_iff.mpr hempty, h⟩

theorem isPlace_of_locate {d : Disk} (hd : d.Proper) (h : d.locate p = .ok loc) : IsPlace d.root loc := by
  obtain ⟨hempty, hfollow⟩ := follow_of_locate h
  refine follow_isPlace hfollow (fun s hs ↦ isStep_of_mem_steps hs) (fun s hs ↦ ?_) fun hnil ↦ ?_
  · split at hs
    · cases hs
    · exact hd s hs
  · exact absurd hnil (steps_ne_nil hempty)

theorem follow_names (here : Location) {names : Location} (hnames : ∀ s ∈ names, IsName s)
    (hplace : ∃ n, root.get? (here ++ names) = some n ∧ ∀ target, n ≠ .link target)
    (h : follow root links here names = .ok loc) : loc = here ++ names := by
  induction names generalizing here with
  | nil =>
    rw [follow_eq] at h
    cases h
    simp
  | cons s rest ih =>
    obtain ⟨n, hn, hlink⟩ := hplace
    have hn' := hn
    rw [Node.get?_append] at hn'
    obtain ⟨m, hm, hn'⟩ := Option.bind_eq_some_iff.mp hn'
    obtain ⟨es, m', rfl, hes, hn'⟩ := Node.get?_cons hn'
    have hs := hnames s (.head _)
    rw [follow_eq] at h
    simp only [hm, hes] at h
    rw [if_neg fun he ↦ hs.notDot (by rw [he]; rfl), if_neg fun he ↦ hs.notDots (by rw [he]; rfl)] at h
    split at h
    · cases h
    · cases m' with
      | link target =>
        -- nothing stands below a link, so it would be the last, which is none
        cases rest with
        | nil =>
          cases hn'
          exact absurd rfl (hlink target)
        | cons s' rest' => cases hn'
      | _ =>
        rw [append_cons] at hn ⊢
        exact ih _ (fun s' hs' ↦ hnames s' (.tail _ hs')) ⟨n, hn, hlink⟩ h

end Follow

variable {d : Disk} {here : Location} {p q : Path}

theorem locate_ofNames {loc : Location} (hplace : IsPlace d.root here)
    (h : d.locate (ofNames true here) = .ok loc) : loc = here := by
  obtain ⟨-, hfollow⟩ := follow_of_locate h
  rw [Path.isAbsolute_ofNames true hplace.names, if_pos rfl, steps_ofNames hplace.names] at hfollow
  split at hfollow
  · rename_i hnil
    subst hnil
    obtain ⟨n, hn, -⟩ := hplace.node
    cases hn
    rw [follow_eq] at hfollow
    dsimp only at hfollow
    split at hfollow
    · rw [if_pos rfl, follow_nil] at hfollow
      cases hfollow
      rfl
    · cases hfollow
    · cases hfollow
  · exact follow_names [] hplace.names hplace.node hfollow

theorem exists_locate_of_canonical? (h : d.canonical? p = some q) :
    ∃ here, d.locate p = .ok here ∧ q = ofNames true here := by
  unfold canonical? canonical at h
  cases hl : d.locate p with
  | error e =>
    rw [hl] at h
    cases h
  | ok here =>
    rw [hl] at h
    cases h
    exact ⟨here, rfl, rfl⟩

theorem exists_place_of_canonical? (hd : d.Proper) (h : d.canonical? p = some q) :
    ∃ here, IsPlace d.root here ∧ q = ofNames true here := by
  obtain ⟨here, hl, hq⟩ := exists_locate_of_canonical? h
  exact ⟨here, isPlace_of_locate hd hl, hq⟩

theorem canonical?_ofNames (hplace : IsPlace d.root here) (h : d.canonical? (ofNames true here) = some q) :
    q = ofNames true here := by
  obtain ⟨loc, hl, hq⟩ := exists_locate_of_canonical? h
  rw [hq, locate_ofNames hplace hl]

end Disk

end AnalysisServer
