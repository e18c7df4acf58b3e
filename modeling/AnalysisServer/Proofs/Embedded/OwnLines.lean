import AnalysisServer.Proofs.Embedded.Blocks

namespace AnalysisServer

open List

namespace Yaml

variable {keyIndent : Nat} {l : Line} {ls : List Line}

def height (x : Snippet) : Nat :=
  (Text.split '\n' x.code.toList).length

theorem height_eq (x : Snippet) : height x = Text.newlines x.code.toList + 1 :=
  Text.length_split '\n' x.code.toList

theorem reaches_end (n : Nat) (ls : List Line) : Reaches n ls (n + ls.length) [] := by
  fun_induction snippetsFrom n ls with
  | case1 => exact .here
  | case2 n line rest hkey inside ih =>
    have hle : inside.length ≤ rest.length := (block_prefix_rest (indent line) rest).length_le
    refine .block hkey ?_
    rw [length_drop] at ih
    rw [length_cons]
    convert ih using 1
    omega
  | case3 n line rest hkey ih =>
    refine .skip (Bool.eq_false_iff.mpr hkey) ?_
    rw [length_cons]
    convert ih using 1
    omega

theorem lt_indent_of_mem_block (hl : l ∈ block keyIndent ls) (hblank : isBlankLine l = false) :
    keyIndent < indent l := by
  have hinside : l ∈ ls.takeWhile fun l ↦ isBlankLine l || indent l > keyIndent := by
    rw [block, mem_reverse] at hl
    exact mem_reverse.mp ((dropWhile_sublist _).subset hl)
  simpa [hblank] using mem_takeWhile_imp hinside

theorem not_blank_of_getLast? (h : (block keyIndent ls).getLast? = some l) : isBlankLine l = false := by
  rw [block, List.getLast?_reverse] at h
  have hlast := List.head?_dropWhile_not isBlankLine
    (ls.takeWhile fun l ↦ isBlankLine l || indent l > keyIndent).reverse
  rwa [h] at hlast

theorem snippetsFrom_below {n : Nat} {ls : List Line} (hls : ∀ l ∈ ls, '\n' ∉ l) :
    (snippetsFrom n ls).Pairwise (fun x y ↦ x.lineOffset + Text.newlines x.code.toList < y.lineOffset) ∧
    ∀ x ∈ snippetsFrom n ls, n < x.lineOffset ∧ x.lineOffset + Text.newlines x.code.toList < n + ls.length := by
  fun_induction snippetsFrom n ls with
  | case1 => exact ⟨.nil, by simp⟩
  | case2 n line rest hkey inside ih =>
    obtain ⟨hpairs, hbounds⟩ := ih fun l hl ↦ hls l (.tail _ (mem_of_mem_drop hl))
    have hlength : inside.length ≤ rest.length := (block_prefix_rest (indent line) rest).length_le
    have hrest (x : Snippet) (hx : x ∈ snippetsFrom (n + 1 + inside.length) (rest.drop inside.length)) :
        n + 1 + inside.length < x.lineOffset ∧
          x.lineOffset + Text.newlines x.code.toList < n + (line :: rest).length := by
      have hx := hbounds x hx
      rw [length_drop] at hx
      rw [length_cons]
      omega
    cases hx : snippet? (n + 1) inside with
    | none => exact ⟨hpairs, fun x hx ↦ ⟨by have := hrest x hx; omega, (hrest x hx).2⟩⟩
    | some x =>
      obtain ⟨hne, rfl⟩ := snippet?_block_eq_some hx
      have hnewlines : Text.newlines (unindented inside) + 1 = inside.length := by
        rw [Text.newlines, ← Text.length_split, split_unindented hne fun l hl ↦ ?_, length_map]
        exact hls l (.tail _ ((block_prefix_rest (indent line) rest).subset hl))
      refine ⟨.cons (fun y hy ↦ ?_) hpairs, forall_mem_cons.mpr ⟨?_, fun y hy ↦ ?_⟩⟩
      · have := hrest y hy
        show n + 1 + Text.newlines (String.ofList (unindented inside)).toList < _
        rw [String.toList_ofList]
        omega
      · show n < n + 1 ∧ n + 1 + Text.newlines (String.ofList (unindented inside)).toList < _
        rw [String.toList_ofList, length_cons]
        omega
      · have := hrest y hy
        omega
  | case3 n line rest hkey ih =>
    obtain ⟨hpairs, hbounds⟩ := ih fun l hl ↦ hls l (.tail _ hl)
    refine ⟨hpairs, fun x hx ↦ ?_⟩
    have hx := hbounds x hx
    rw [length_cons]
    omega

theorem snippets_below (source : String) :
    (snippets source).Pairwise (fun x y ↦ x.lineOffset + Text.newlines x.code.toList < y.lineOffset) ∧
    ∀ x ∈ snippets source, x.lineOffset + Text.newlines x.code.toList < (Text.lines source.toList).length := by
  simp only [snippets]
  split
  · obtain ⟨hpairs, hbounds⟩ := @snippetsFrom_below 0 _ fun l hl ↦ Text.not_mem_lines hl
    exact ⟨hpairs, fun x hx ↦ by simpa using (hbounds x hx).2⟩
  · exact ⟨.nil, by simp⟩

/-- The scripts of a template take up lines of their own, one after the other. A script stands right under its key, is
indented more than that, and ends with a line that is not blank. -/
theorem snippets_take_own_lines (source : String) :
    let lines := Text.lines source.toList
    Reaches 0 lines lines.length [] ∧
    (snippets source).Pairwise (fun x y ↦ x.lineOffset + height x ≤ y.lineOffset) ∧
    ∀ x ∈ snippets source, 0 < height x ∧ x.lineOffset + height x ≤ lines.length ∧
      ∃ n key, x.lineOffset = n + 1 ∧ lines[n]? = some key ∧ isCodeKey key = true ∧
        (∃ last, lines[n + height x]? = some last ∧ isBlankLine last = false) ∧
        ∀ i l, x.lineOffset ≤ i → i < x.lineOffset + height x → lines[i]? = some l → isBlankLine l = false →
          indent key < indent l := by
  intro lines
  obtain ⟨hpairs, hbounds⟩ := snippets_below source
  refine ⟨by simpa using reaches_end 0 lines, hpairs.imp fun h ↦ by rw [height_eq]; omega, fun x hx ↦ ?_⟩
  refine ⟨by rw [height_eq]; omega, by rw [height_eq]; exact hbounds x hx, ?_⟩
  obtain ⟨offset, inside, hblock, rfl⟩ := mem_snippets_iff.mp hx
  have hheight : height ⟨String.ofList (unindented inside), offset, .js⟩ = inside.length := by
    rw [height, hblock.split, length_map]
  rw [hheight]
  obtain ⟨hne, -, n, key, rest, rfl, hreach, hkey, rfl⟩ := id hblock
  obtain ⟨k, rfl, hdrop⟩ := hreach.drop
  refine ⟨_, key, rfl, ?_, hkey, ?_, fun i l hle hlt hl hblank ↦ ?_⟩
  · rw [Nat.zero_add, ← List.head?_drop, ← hdrop, List.head?_cons]
  · obtain ⟨last, hlast⟩ := Option.isSome_iff_exists.mp (List.getLast?_isSome.mpr hne)
    refine ⟨last, ?_, not_blank_of_getLast? hlast⟩
    have hpos := length_pos_iff.mpr hne
    rw [List.getLast?_eq_getElem?] at hlast
    have := hblock.getElem? hlast
    rwa [show 0 + k + 1 + ((block (indent key) rest).length - 1) = 0 + k + (block (indent key) rest).length by omega]
      at this
  · dsimp only at hle hlt
    obtain ⟨j, rfl⟩ := Nat.exists_eq_add_of_le hle
    obtain ⟨l', hl'⟩ : ∃ l', (block (indent key) rest)[j]? = some l' :=
      ⟨_, List.getElem?_eq_getElem (by omega)⟩
    cases hl.symm.trans (hblock.getElem? hl')
    exact lt_indent_of_mem_block (mem_of_getElem? hl') hblank

end Yaml

end AnalysisServer
