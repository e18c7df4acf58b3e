import Mathlib.Data.List.DropRight
import AnalysisServer.Proofs.Discovery.Refreshing

namespace AnalysisServer

open List

open AnalysisServer.Path (IsName)

namespace Path

/-- The pieces of an absolute path, without those at its end that lead no further. -/
def leading (p : Path) : List (List Char) :=
  (Text.split '/' (p.text.toList.drop 1)).rdropWhile isFiller

@[irreducible]
def trimmed (p : Path) : Path :=
  ⟨String.ofList ('/' :: ['/'].intercalate p.leading)⟩

variable {p : Path} {s : String}

theorem parent?_joinName (hp : p.isAbsolute = true) (hs : IsName s) : (p.joinName s).parent? = some p.trimmed := by
  have hempty := isEmpty_of_isAbsolute hp
  have habsolute := (isAbsolute_joinName hempty hs).trans hp
  obtain ⟨cs, hcs⟩ := toList_of_isAbsolute hp
  obtain ⟨ds, hds⟩ := toList_of_isAbsolute habsolute
  obtain ⟨front, last, hsplit, hlast, hfront, hjoined⟩ := split_joinName hempty hs
  rw [hcs, Text.split, if_pos rfl] at hsplit
  rw [hds, Text.split, if_pos rfl] at hjoined
  obtain ⟨piece, front, rfl⟩ := exists_cons_of_ne_nil hfront
  rw [cons_append, List.cons.injEq] at hsplit hjoined
  have hleading : p.leading = front.rdropWhile isFiller := by
    have hfill : ∀ piece ∈ last.reverse, isFiller piece = true := by
      intro piece hpiece
      rw [hlast piece (mem_reverse.mp hpiece)]
      rfl
    rw [leading, hcs, drop_one, tail_cons, hsplit.2, List.rdropWhile, reverse_append, dropWhile_append_of_pos hfill]
    rfl
  have hname : ¬ isFiller s.toList = true := by simp [not_isFiller hs]
  simp only [parent?, habsolute, true_or, if_true, hds, drop_one, tail_cons, hjoined.2,
    reverse_append, reverse_singleton, singleton_append, dropWhile_cons_of_neg hname,
    take_succ_cons, take_zero, trimmed, hleading]
  rfl

theorem fileName?_joinName (hp : p.text.isEmpty = false) (hs : IsName s) : (p.joinName s).fileName? = some s := by
  rw [fileName?, components_joinName hp hs, List.getLast?_concat]

theorem isAbsolute_trimmed (p : Path) : p.trimmed.isAbsolute = true := by
  rw [isAbsolute, trimmed, String.toList_ofList]
  rfl

theorem exists_leading (p : Path) : ∃ fill, (∀ piece ∈ fill, isFiller piece = true) ∧
    Text.split '/' (p.text.toList.drop 1) = p.leading ++ fill := by
  refine ⟨(Text.split '/' (p.text.toList.drop 1)).rtakeWhile isFiller, fun _ h ↦ mem_rtakeWhile_imp h, ?_⟩
  rw [leading, List.rdropWhile, List.rtakeWhile, ← reverse_append, takeWhile_append_dropWhile, reverse_reverse]

variable {piece : List Char}

theorem not_isFiller_of_leading {front : List (List Char)} (h : p.leading = front ++ [piece]) :
    isFiller piece = false := by
  have hdrop : (Text.split '/' (p.text.toList.drop 1)).reverse.dropWhile isFiller = piece :: front.reverse := by
    rwa [leading, List.rdropWhile, reverse_eq_iff, reverse_append] at h
  have hhead := List.head?_dropWhile_not isFiller (Text.split '/' (p.text.toList.drop 1)).reverse
  rwa [hdrop] at hhead

theorem toList_trimmed_isPrefix (hp : p.isAbsolute = true) : p.trimmed.text.toList <+: p.text.toList := by
  obtain ⟨cs, hcs⟩ := toList_of_isAbsolute hp
  obtain ⟨fill, -, hsplit⟩ := p.exists_leading
  rw [hcs, drop_one, tail_cons, Text.split_eq_splitOn] at hsplit
  have hall : cs = ['/'].intercalate (p.leading ++ fill) := by
    rw [← hsplit, intercalate_splitOn]
  rw [trimmed, String.toList_ofList, hcs, hall, prefix_cons_inj]
  exact intercalate_prefix _ _ _

end Path

namespace Disk

variable {d d' : Disk} {p q : Path} {here dir : Location} {links : Nat} {root : Node}

theorem locate_of_prefix (h : d.locate p = .ok here) (hbegins : q.text.toList <+: p.text.toList)
    (hq : q.text.isEmpty = false)
    (hf : follow d'.root linkLimit (if q.isAbsolute then [] else d'.current) (steps q) = .ok dir) :
    d'.locate q = .ok dir := by
  unfold locate at h ⊢
  split at h
  · cases h
  · split at h
    · cases h
    · rename_i hnul
      split at h
      · cases h
      · rename_i hlong
        have hnul' : ¬ q.text.toList.contains '\x00' = true := by
          intro hmem
          exact hnul (contains_iff_mem.mpr (hbegins.subset (contains_iff_mem.mp hmem)))
        have hlong' : ¬ Text.byteLength q.text.toList > pathLimit := by
          obtain ⟨rest, hrest⟩ := hbegins
          rw [← hrest, Text.byteLength_append] at hlong
          omega
        rw [if_neg (by simp [hq]), if_neg hnul', if_neg hlong']
        exact hf

theorem follow_dots_only {dots : List String} (hdots : ∀ s ∈ dots, s = ".")
    (h : follow root links here dots = .ok dir) : dir = here ∧ (dots ≠ [] → ∃ es, root.get? here = some (.dir es)) := by
  induction dots with
  | nil =>
    rw [follow_nil] at h
    cases h
    exact ⟨rfl, fun hne ↦ absurd rfl hne⟩
  | cons s dots ih =>
    obtain ⟨rfl, hrest⟩ := forall_mem_cons.mp hdots
    cases hn : root.get? here with
    | none =>
      rw [follow_eq, hn] at h
      cases h
    | some n =>
      cases n with
      | dir es =>
        rw [follow_dot hn] at h
        exact ⟨(ih hrest h).1, fun _ ↦ ⟨es, rfl⟩⟩
      | _ =>
        rw [follow_eq, hn] at h
        cases h

theorem isDot_of_isFiller (h : Path.isFiller piece = true) (hne : piece ≠ []) : String.ofList piece = "." := by
  rw [Path.isFiller, Bool.or_eq_true, List.isEmpty_iff, beq_iff_eq] at h
  rw [h.resolve_left hne]

theorem steps_trimmed_of_ne_nil (h : p.leading ≠ []) :
    steps p.trimmed = (p.leading.filter (· ≠ [])).map String.ofList := by
  obtain ⟨fill, -, hsplit⟩ := p.exists_leading
  have hslash (piece : List Char) (hpiece : piece ∈ p.leading) : '/' ∉ piece :=
    Text.not_mem_of_mem_split (hsplit ▸ mem_append_left _ hpiece)
  have hsplit' : Text.split '/' p.trimmed.text.toList = [] :: p.leading := by
    rw [Path.trimmed, String.toList_ofList, Text.split, if_pos rfl, Text.split_intercalate hslash h]
  have hlast : p.trimmed.text.toList.getLast? ≠ some '/' := by
    obtain ⟨front, piece, hfront⟩ := (eq_nil_or_concat p.leading).resolve_left h
    rw [concat_eq_append] at hfront
    -- the last piece is not empty, and no piece has a separator in it
    have hpiece : piece ≠ [] := by
      rintro rfl
      cases Path.not_isFiller_of_leading hfront
    obtain ⟨c, hc⟩ := Option.isSome_iff_exists.mp (List.getLast?_isSome.mpr hpiece)
    have hne : c ≠ '/' := by
      rintro rfl
      exact hslash piece (by simp [hfront]) (mem_of_getLast? hc)
    rw [Path.trimmed, hfront]
    by_cases hnil : front = []
    · simp [hnil, List.getLast?_cons, hc, hne]
    · simp [intercalate_concat _ hnil, List.getLast?_cons, hc, hne]
  rw [steps, hsplit', if_neg hlast, append_nil, filter_cons_of_neg (by simp)]

theorem steps_trimmed (hp : p.isAbsolute = true) : ∃ dots, (∀ s ∈ dots, s = ".") ∧
    (steps p = steps p.trimmed ++ dots ∨ steps p.trimmed = ["."] ∧ steps p = dots) := by
  obtain ⟨cs, hcs⟩ := Path.toList_of_isAbsolute hp
  obtain ⟨fill, hfill, hsplit⟩ := p.exists_leading
  rw [hcs, drop_one, tail_cons] at hsplit
  have hsteps : steps p = ((p.leading.filter (· ≠ [])).map String.ofList) ++
      ((fill.filter (· ≠ [])).map String.ofList ++ if p.text.toList.getLast? = some '/' then ["."] else []) := by
    rw [steps, hcs, Text.split, if_pos rfl, hsplit, filter_cons_of_neg (by simp), filter_append,
      map_append, append_assoc]
  refine ⟨(fill.filter (· ≠ [])).map String.ofList ++ if p.text.toList.getLast? = some '/' then ["."] else [], ?_, ?_⟩
  · intro s hs
    obtain hs | hs := mem_append.mp hs
    · obtain ⟨piece, hpiece, rfl⟩ := mem_map.mp hs
      obtain ⟨hpiece, hne⟩ := mem_filter.mp hpiece
      exact isDot_of_isFiller (hfill piece hpiece) (of_decide_eq_true hne)
    · split at hs
      · exact mem_singleton.mp hs
      · cases hs
  · by_cases hnil : p.leading = []
    · rw [hnil] at hsteps
      refine .inr ⟨?_, hsteps⟩
      rw [Path.trimmed, hnil]
      decide
    · left
      rw [hsteps, steps_trimmed_of_ne_nil hnil]

theorem locate_trimmed (hp : p.isAbsolute = true) (h : d.locate p = .ok dir) : d.locate p.trimmed = .ok dir := by
  obtain ⟨hempty, hfollow⟩ := follow_of_locate h
  rw [if_pos hp] at hfollow
  have hsteps : follow d.root linkLimit [] (steps p.trimmed) = .ok dir := by
    obtain ⟨dots, hdots, hsteps | ⟨htrimmed, hsteps⟩⟩ := steps_trimmed hp
    · have happend := follow_append d.root linkLimit [] (steps p.trimmed) dots
      rw [← hsteps, hfollow] at happend
      cases hf : follow d.root linkLimit [] (steps p.trimmed) with
      | error e =>
        rw [hf] at happend
        cases happend
      | ok mid =>
        rw [hf] at happend
        obtain ⟨left, hleft⟩ := happend
        rw [(follow_dots_only hdots hleft.symm).1]
    · rw [hsteps] at hfollow
      obtain ⟨rfl, hdir⟩ := follow_dots_only hdots hfollow
      obtain ⟨es, hes⟩ := hdir (hsteps ▸ steps_ne_nil hempty)
      rw [htrimmed, follow_dot hes, follow_nil]
  apply locate_of_prefix h (Path.toList_trimmed_isPrefix hp) (Path.isEmpty_of_isAbsolute p.isAbsolute_trimmed)
  rwa [if_pos p.isAbsolute_trimmed]

section Entries

variable {s : String}

theorem exists_of_follow_name {dir : Location} (hs : IsName s)
    (h : follow root links dir [s] = .ok here) : ∃ es n, root.get? dir = some (.dir es) ∧ es.lookup s = some n := by
  have hdot : s ≠ "." := fun he ↦ hs.notDot (by rw [he]; rfl)
  have hdots : s ≠ ".." := fun he ↦ hs.notDots (by rw [he]; rfl)
  rw [follow_eq] at h
  dsimp only at h
  split at h
  · rename_i es hes
    rw [if_neg hdot, if_neg hdots] at h
    split at h
    · cases h
    · cases hn : es.lookup s with
      | none =>
        rw [hn] at h
        cases h
      | some n => exact ⟨es, n, hes, hn⟩
  · cases h
  · cases h

theorem locate_joinName (hp : p.text.isEmpty = false) (hs : IsName s) (h : d.locate (p.joinName s) = .ok here) :
    ∃ dir n, d.locate p = .ok dir ∧ d.root.get? (dir ++ [s]) = some n := by
  have hfollow := (follow_of_locate h).2
  rw [isAbsolute_joinName hp hs, steps_eq, if_neg (getLast?_joinName hp hs), append_nil,
    pieces_joinName hp hs] at hfollow
  have hentry := follow_append d.root linkLimit (if p.isAbsolute then [] else d.current) (pieces p) [s]
  have hself := follow_append d.root linkLimit (if p.isAbsolute then [] else d.current) (pieces p)
    (if p.text.toList.getLast? = some '/' then ["."] else [])
  rw [← steps_eq] at hself
  cases hdir : follow d.root linkLimit (if p.isAbsolute then [] else d.current) (pieces p) with
  | error e =>
    rw [hdir] at hentry
    cases hentry.symm.trans hfollow
  | ok dir =>
    rw [hdir] at hentry hself
    obtain ⟨left, hentry⟩ := hentry
    obtain ⟨left', hself⟩ := hself
    obtain ⟨es, n, hes, hn⟩ := exists_of_follow_name hs (hentry.symm.trans hfollow)
    refine ⟨dir, n, ?_, by rw [Node.get?_concat_dir hes, hn]⟩
    -- a separator at the end asks for a directory, and there is one
    have hsteps : follow d.root linkLimit (if p.isAbsolute then [] else d.current) (steps p) = .ok dir := by
      rw [hself]
      split
      · rw [follow_dot hes, follow_nil]
      · rw [follow_nil]
    apply locate_of_prefix h _ hp hsteps
    rw [toList_joinName hp hs, append_assoc]
    exact prefix_append _ _

theorem place_joinName (d : Disk) (hp : p.isAbsolute = true) (hs : IsName s) :
    d.place (p.joinName s) = d.locate p.trimmed >>= fun dir ↦ .ok (dir ++ [s]) := by
  have hempty := Path.isEmpty_of_isAbsolute p.isAbsolute_trimmed
  rw [place, Path.parent?_joinName hp hs, Path.fileName?_joinName (Path.isEmpty_of_isAbsolute hp) hs]
  simp only [hempty]
  rfl

theorem exists_of_exists?_joinName (hp : p.isAbsolute = true) (hs : IsName s) (h : d.exists? (p.joinName s) = true) :
    ∃ dir n, d.locate p.trimmed = .ok dir ∧ d.root.get? (dir ++ [s]) = some n := by
  rw [exists?] at h
  cases hnode : d.node (p.joinName s) with
  | error e =>
    rw [hnode] at h
    cases h
  | ok m =>
    obtain ⟨here, hlocate, -⟩ := exists_locate hnode
    obtain ⟨dir, n, hdir, hn⟩ := locate_joinName (Path.isEmpty_of_isAbsolute hp) hs hlocate
    exact ⟨dir, n, locate_trimmed hp hdir, hn⟩

end Entries

end Disk

end AnalysisServer
