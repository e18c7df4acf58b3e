import Mathlib.Data.List.TakeWhile
import AnalysisServer.Embedded.Yaml
import AnalysisServer.Proofs.Path.Names
import AnalysisServer.Proofs.Source.Positions

namespace AnalysisServer

open List

theorem Text.not_mem_lines {cs l : List Char} (h : l ∈ Text.lines cs) : '\n' ∉ l := by
  fun_induction Text.lines cs generalizing l with
  | case1 => cases h
  | case2 cs ih | case3 cs ih =>
    obtain rfl | h := mem_cons.mp h
    · exact not_mem_nil
    · exact ih h
  | case4 c cs hnewline hreturn hlines ih =>
    obtain rfl := mem_singleton.mp h
    simpa using Ne.symm hnewline
  | case5 c cs hnewline hreturn first rest hlines ih =>
    rw [hlines] at ih
    obtain rfl | h := mem_cons.mp h
    · simpa [Ne.symm hnewline] using ih mem_cons_self
    · exact ih (.tail _ h)

theorem Text.trim_eq_nil_iff {cs : List Char} : trim cs = [] ↔ cs.all isBlank := by
  rw [trim, trimEnd, reverse_eq_nil_iff, dropWhile_eq_nil_iff, all_eq_true]
  constructor
  · intro h
    have hstart := List.head?_dropWhile_not isBlank cs
    cases hcs : trimStart cs with
    | nil => exact dropWhile_eq_nil_iff.mp hcs
    | cons c rest =>
      rw [show cs.dropWhile isBlank = c :: rest from hcs] at hstart
      cases hstart.symm.trans (h c (by simp [hcs]))
  · exact fun h c hc ↦ h c ((dropWhile_sublist _).subset (mem_reverse.mp hc))

theorem Text.subset_intercalate {separator piece : List Char} {pieces : List (List Char)} (h : piece ∈ pieces) :
    piece ⊆ separator.intercalate pieces := by
  induction pieces with
  | nil => cases h
  | cons p ps ih =>
    cases ps with
    | nil =>
      obtain rfl := mem_singleton.mp h
      simp
    | cons q qs =>
      rw [intercalate_cons_cons]
      obtain rfl | h := mem_cons.mp h
      · exact fun c hc ↦ mem_append_left _ (mem_append_left _ hc)
      · exact fun c hc ↦ mem_append_right _ (ih h hc)

namespace Yaml

def cutTo (n : Nat) (l : Line) : Line :=
  (dropBytes? n l).getD []

/-- The loop over the lines comes from some lines to those further on. -/
inductive Reaches : Nat → List Line → Nat → List Line → Prop
  | here {n ls} : Reaches n ls n ls
  | skip {n line rest m more} (hkey : isCodeKey line = false) (h : Reaches (n + 1) rest m more) :
      Reaches n (line :: rest) m more
  | block {n line rest m more} (hkey : isCodeKey line = true)
      (h : Reaches (n + 1 + (block (indent line) rest).length) (rest.drop (block (indent line) rest).length) m more) :
      Reaches n (line :: rest) m more

/-- A block that is not empty, under a code key that the loop comes to. -/
def HasBlock (source : String) (n : Nat) (lines : List Line) : Prop :=
  lines ≠ [] ∧ hasNodeRuntime source.toList ∧ ∃ m line rest, n = m + 1 ∧
    Reaches 0 (Text.lines source.toList) m (line :: rest) ∧ isCodeKey line ∧ lines = block (indent line) rest

variable {n m keyIndent : Nat} {l cut front : Line} {ls lines rest more : List Line} {x : Snippet}

theorem Reaches.drop (h : Reaches n ls m more) : ∃ k, m = n + k ∧ more = ls.drop k := by
  induction h with
  | here => exact ⟨0, rfl, rfl⟩
  | skip _ _ ih =>
    obtain ⟨k, rfl, rfl⟩ := ih
    exact ⟨k + 1, by omega, rfl⟩
  | @block n line rest m more _ _ ih =>
    obtain ⟨k, rfl, rfl⟩ := ih
    refine ⟨(Yaml.block (indent line) rest).length + k + 1, by omega, ?_⟩
    rw [drop_drop]
    rfl

theorem mem_snippetsFrom_iff : x ∈ snippetsFrom n ls ↔ ∃ m line rest, Reaches n ls m (line :: rest) ∧
    isCodeKey line ∧ snippet? (m + 1) (block (indent line) rest) = some x := by
  constructor
  · intro h
    fun_induction snippetsFrom n ls with
    | case1 => cases h
    | case2 n line rest hkey inside ih =>
      obtain h | h := mem_append.mp h
      · exact ⟨n, line, rest, .here, hkey, Option.mem_toList.mp h⟩
      · obtain ⟨m, line', rest', hreach, hrest⟩ := ih h
        exact ⟨m, line', rest', .block hkey hreach, hrest⟩
    | case3 n line rest hkey ih =>
      obtain ⟨m, line', rest', hreach, hrest⟩ := ih h
      exact ⟨m, line', rest', .skip (Bool.eq_false_iff.mpr hkey) hreach, hrest⟩
  · rintro ⟨m, line, rest, hreach, hkey, hx⟩
    generalize hmore : line :: rest = more at hreach
    induction hreach with
    | here =>
      subst hmore
      rw [snippetsFrom, if_pos hkey]
      exact mem_append_left _ (Option.mem_toList.mpr hx)
    | skip hkey' _ ih =>
      rw [snippetsFrom, if_neg (Bool.eq_false_iff.mp hkey')]
      exact ih hx hmore
    | block hkey' _ ih =>
      rw [snippetsFrom, if_pos hkey']
      exact mem_append_right _ (ih hx hmore)

section Cutting

theorem dropBytes?_eq_some_iff : dropBytes? n l = some cut ↔ ∃ front, l = front ++ cut ∧ Text.byteLength front = n := by
  constructor
  · intro h
    fun_induction dropBytes? n l with
    | case1 cs =>
      cases h
      exact ⟨[], rfl, rfl⟩
    | case2 => cases h
    | case3 n c cs hle ih =>
      obtain ⟨front, rfl, hfront⟩ := ih h
      refine ⟨c :: front, rfl, ?_⟩
      simp only [Text.byteLength, foldr_cons] at hfront ⊢
      omega
    | case4 => cases h
  · rintro ⟨front, rfl, hfront⟩
    induction front generalizing n with
    | nil =>
      subst hfront
      exact dropBytes?.eq_1 cut
    | cons c front ih =>
      simp only [Text.byteLength, foldr_cons] at hfront
      have hpos := c.utf8Size_pos
      cases n with
      | zero => omega
      | succ n =>
        rw [cons_append, dropBytes?, if_pos (by omega)]
        exact ih (by simp only [Text.byteLength]; omega)

theorem isBlank_of_le_indent (h : Text.byteLength front ≤ indent (front ++ cut)) : ∀ c ∈ front, Text.isBlank c := by
  induction front with
  | nil => exact nofun
  | cons c front ih =>
    have hpos := c.utf8Size_pos
    by_cases hc : Text.isBlank c
    · refine forall_mem_cons.mpr ⟨hc, ih ?_⟩
      simpa [indent, Text.byteLength, hc] using h
    · simp [indent, Text.byteLength, hc] at h
      omega

theorem trim_cut (h : dropBytes? n l = some cut) (hn : n ≤ indent l) : Text.trim cut = Text.trim l := by
  obtain ⟨front, rfl, rfl⟩ := dropBytes?_eq_some_iff.mp h
  rw [Text.trim, Text.trim, Text.trimStart, Text.trimStart, dropWhile_append_of_pos (isBlank_of_le_indent hn)]

theorem trim_cutTo_iff (hn : isBlankLine l = false → n ≤ indent l) :
    Text.trim (cutTo n l) = Text.trim l ↔ isBlankLine l ∨ (dropBytes? n l).isSome := by
  have hempty : Text.trim ([] : Line) = [] := rfl
  unfold cutTo
  cases hl : isBlankLine l with
  | true =>
    have hblank := Text.trim_eq_nil_iff.mpr hl
    cases hcut : dropBytes? n l with
    | none => simp [hblank, hempty]
    | some cut =>
      obtain ⟨front, rfl, -⟩ := dropBytes?_eq_some_iff.mp hcut
      have hcut : cut.all Text.isBlank := by
        rw [isBlankLine, all_append, Bool.and_eq_true] at hl
        exact hl.2
      simp [hblank, Text.trim_eq_nil_iff.mpr hcut]
  | false =>
    cases hcut : dropBytes? n l with
    | none =>
      have hne : Text.trim l ≠ [] := fun h ↦ by cases hl.symm.trans (Text.trim_eq_nil_iff.mp h)
      simp [hempty, hne.symm]
    | some cut => simp [trim_cut hcut (hn hl)]

end Cutting

section Block

theorem block_prefix_rest (keyIndent : Nat) (lines : List Line) : block keyIndent lines <+: lines := by
  refine List.IsPrefix.trans ?_ (List.takeWhile_prefix fun l ↦ isBlankLine l || indent l > keyIndent)
  unfold block
  generalize lines.takeWhile (fun l ↦ isBlankLine l || indent l > keyIndent) = inside
  simpa using reverse_prefix.mpr (inside.reverse.dropWhile_suffix isBlankLine)

theorem exists_not_blank (h : block keyIndent lines ≠ []) : ∃ l ∈ block keyIndent lines, isBlankLine l = false := by
  simp only [block] at h ⊢
  generalize (lines.takeWhile fun l ↦ isBlankLine l || indent l > keyIndent).reverse = inside at h ⊢
  have hlast := List.head?_dropWhile_not isBlankLine inside
  cases hrest : inside.dropWhile isBlankLine with
  | nil => simp [hrest] at h
  | cons l rest =>
    rw [hrest] at hlast
    exact ⟨l, by simp, hlast⟩

theorem blockIndent_le (hl : l ∈ lines) (hblank : isBlankLine l = false) : blockIndent lines ≤ indent l :=
  List.min?_getD_le_of_mem (mem_map_of_mem (mem_filter.mpr ⟨hl, by simp [hblank]⟩))

theorem exists_indent_eq (h : ∃ l ∈ lines, isBlankLine l = false) :
    ∃ l ∈ lines, isBlankLine l = false ∧ indent l = blockIndent lines := by
  obtain ⟨l, hl, hblank⟩ := h
  have hmem : indent l ∈ (lines.filter fun l ↦ !isBlankLine l).map indent :=
    mem_map_of_mem (mem_filter.mpr ⟨hl, by simp [hblank]⟩)
  obtain ⟨k, hk⟩ := Option.isSome_iff_exists.mp (isSome_min?_of_mem hmem)
  obtain ⟨l', hl', hindent⟩ := mem_map.mp (List.min?_mem hk)
  obtain ⟨hmem', hblank'⟩ := mem_filter.mp hl'
  exact ⟨l', hmem', by simpa using hblank', by rw [blockIndent, hk, hindent, Option.getD_some]⟩

theorem split_unindented (hne : lines ≠ []) (hlines : ∀ l ∈ lines, '\n' ∉ l) :
    Text.split '\n' (unindented lines) = lines.map (cutTo (blockIndent lines)) := by
  refine Text.split_intercalate (fun piece hpiece ↦ ?_) (by simpa using hne)
  obtain ⟨l, hl, rfl⟩ := mem_map.mp hpiece
  cases hcut : dropBytes? (blockIndent lines) l with
  | none => exact not_mem_nil
  | some cut =>
    obtain ⟨front, rfl, -⟩ := dropBytes?_eq_some_iff.mp hcut
    exact fun hmem ↦ hlines _ hl (mem_append_right _ hmem)

theorem snippet?_block (offset : Nat) (h : ∃ l ∈ lines, isBlankLine l = false) :
    snippet? offset lines = some ⟨String.ofList (unindented lines), offset, .js⟩ := by
  obtain ⟨l, hl, hblank, hindent⟩ := exists_indent_eq h
  -- the line that is indented least loses just its indentation
  have hcut : dropBytes? (blockIndent lines) l = some (l.dropWhile Text.isBlank) :=
    dropBytes?_eq_some_iff.mpr ⟨_, takeWhile_append_dropWhile.symm, hindent⟩
  have hsubset : l.dropWhile Text.isBlank ⊆ unindented lines :=
    Text.subset_intercalate (mem_map.mpr ⟨l, hl, by rw [hcut, Option.getD_some]⟩)
  have hcode : (unindented lines).all Text.isBlank = false := by
    obtain ⟨c, hc, hne⟩ := all_eq_false.mp hblank
    rw [← takeWhile_append_dropWhile (p := Text.isBlank) (l := l)] at hc
    obtain hc | hc := mem_append.mp hc
    · exact absurd (all_eq_true.mp all_takeWhile c hc) hne
    · exact all_eq_false.mpr ⟨c, hsubset hc, hne⟩
  simp [snippet?, hcode]

theorem snippet?_block_eq_some {offset : Nat} (h : snippet? offset (block keyIndent rest) = some x) :
    block keyIndent rest ≠ [] ∧ x = ⟨String.ofList (unindented (block keyIndent rest)), offset, .js⟩ := by
  have hne : block keyIndent rest ≠ [] := by
    intro hnil
    rw [hnil] at h
    cases h
  rw [snippet?_block _ (exists_not_blank hne)] at h
  exact ⟨hne, (Option.some.inj h).symm⟩

end Block

section Source

variable {source : String}

theorem HasBlock.getElem? (h : HasBlock source n lines) {i : Nat} (hi : lines[i]? = some l) :
    (Text.lines source.toList)[n + i]? = some l := by
  obtain ⟨-, -, m, line, rest, rfl, hreach, -, rfl⟩ := h
  obtain ⟨k, rfl, hdrop⟩ := hreach.drop
  obtain ⟨tail, htail⟩ := block_prefix_rest (indent line) rest
  have hrest : rest[i]? = some l := by
    rw [← htail, List.getElem?_append_left (List.getElem?_eq_some_iff.mp hi).1]
    exact hi
  rw [show 0 + k + 1 + i = k + (i + 1) by omega, ← List.getElem?_drop, ← hdrop, List.getElem?_cons_succ]
  exact hrest

theorem HasBlock.split (h : HasBlock source n lines) : Text.split '\n' (String.ofList (unindented lines)).toList =
    lines.map (cutTo (blockIndent lines)) := by
  rw [String.toList_ofList]
  refine split_unindented h.1 fun l hl ↦ ?_
  obtain ⟨i, hi⟩ := List.getElem?_of_mem hl
  exact Text.not_mem_lines (mem_of_getElem? (h.getElem? hi))

theorem mem_snippets_iff : x ∈ snippets source ↔
    ∃ n lines, HasBlock source n lines ∧ x = ⟨String.ofList (unindented lines), n, .js⟩ := by
  simp only [snippets]
  constructor
  · intro h
    split at h
    · rename_i hruntime
      obtain ⟨m, line, rest, hreach, hkey, hx⟩ := mem_snippetsFrom_iff.mp h
      obtain ⟨hne, rfl⟩ := snippet?_block_eq_some hx
      exact ⟨m + 1, _, ⟨hne, hruntime, m, line, rest, rfl, hreach, hkey, rfl⟩, rfl⟩
    · cases h
  · rintro ⟨-, -, ⟨hne, hruntime, m, line, rest, rfl, hreach, hkey, rfl⟩, rfl⟩
    rw [if_pos hruntime]
    exact mem_snippetsFrom_iff.mpr ⟨m, line, rest, hreach, hkey, snippet?_block _ (exists_not_blank hne)⟩

/-- The lines of the snippets keep what they have besides blanks just if the cut is inside a character of none of them,
but for blank ones. In any case no block that is not empty is left out. -/
theorem snippets_keep_lines_iff (source : String) :
    ((∀ x ∈ snippets source, ∀ (i : Nat) (l : Line), (Text.split '\n' x.code.toList)[i]? = some l →
        ∃ l', (Text.lines source.toList)[x.lineOffset + i]? = some l' ∧ Text.trim l = Text.trim l') ↔
      ∀ n lines, HasBlock source n lines → ∀ l ∈ lines, isBlankLine l ∨ (dropBytes? (blockIndent lines) l).isSome) ∧
    ∀ n lines, HasBlock source n lines → ∃ x ∈ snippets source, x.lineOffset = n ∧
      (Text.split '\n' x.code.toList).length = lines.length := by
  have hcut {n lines l} (h : HasBlock source n lines) (hl : l ∈ lines) :
      Text.trim (cutTo (blockIndent lines) l) = Text.trim l ↔
        isBlankLine l ∨ (dropBytes? (blockIndent lines) l).isSome :=
    trim_cutTo_iff (blockIndent_le hl)
  refine ⟨⟨fun hall n lines h l hl ↦ ?_, fun hall x hx i l hi ↦ ?_⟩, fun n lines h ↦ ?_⟩
  · obtain ⟨i, hi⟩ := List.getElem?_of_mem hl
    obtain ⟨l', hl', htrim⟩ := hall _ (mem_snippets_iff.mpr ⟨n, lines, h, rfl⟩) i (cutTo (blockIndent lines) l) (by
      rw [h.split, List.getElem?_map, hi, Option.map_some])
    cases (h.getElem? hi).symm.trans hl'
    exact (hcut h hl).mp htrim
  · obtain ⟨n, lines, h, rfl⟩ := mem_snippets_iff.mp hx
    rw [h.split, List.getElem?_map, Option.map_eq_some_iff] at hi
    obtain ⟨l', hl', rfl⟩ := hi
    have hmem := mem_of_getElem? hl'
    exact ⟨l', h.getElem? hl', (hcut h hmem).mpr (hall n lines h l' hmem)⟩
  · exact ⟨_, mem_snippets_iff.mpr ⟨n, lines, h, rfl⟩, rfl, by rw [h.split, length_map]⟩

theorem wide_indent_loses_line : ∃ x, snippets "Runtime: nodejs\nZipFile: |\n a\n\u00a0b" = [x] ∧
    Text.split '\n' x.code.toList = [['a'], []] ∧
    (Text.lines "Runtime: nodejs\nZipFile: |\n a\n\u00a0b".toList)[x.lineOffset + 1]? = some ['\u00a0', 'b'] ∧
    Text.trim [] ≠ Text.trim ['\u00a0', 'b'] :=
  ⟨⟨"a\n", 2, .js⟩, by decide +kernel, by decide +kernel, by decide +kernel, by decide +kernel⟩

end Source

end Yaml

end AnalysisServer
