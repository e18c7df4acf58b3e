import AnalysisServer.Proofs.Path.Names

namespace AnalysisServer.Path

open List

variable {p q r : Path} {piece cs : List Char}

/-- A directory on the way from the root to a path. -/
def IsAbove (dir p : Path) : Prop :=
  dir.components ≠ [] ∧ dir.components <+: p.components ∧ dir.components ≠ p.components

theorem IsAbove.length_lt (h : q.IsAbove p) : q.components.length < p.components.length :=
  Nat.lt_of_le_of_ne h.2.1.length_le fun hlength ↦ h.2.2 (h.2.1.eq_of_length hlength)

theorem IsAbove.trans (h : r.IsAbove q) (h' : q.IsAbove p) : r.IsAbove p :=
  ⟨h.1, h.2.1.trans h'.2.1, fun he ↦ Nat.lt_irrefl _ (he ▸ Nat.lt_trans h.length_lt h'.length_lt)⟩

section Parents

theorem isFiller_iff : isFiller piece = true ↔ ofPiece? piece = none := by
  unfold ofPiece?
  split <;> simp_all [isFiller]

theorem filterMap_dropWhile_isFiller (pieces : List (List Char)) :
    (pieces.dropWhile isFiller).filterMap ofPiece? = pieces.filterMap ofPiece? := by
  induction pieces with
  | nil => rfl
  | cons piece pieces ih =>
    by_cases h : isFiller piece = true
    · rw [dropWhile_cons_of_pos h, ih, filterMap_cons_none (isFiller_iff.mp h)]
    · rw [dropWhile_cons_of_neg h]

theorem isAbsolute_of_toList (h : p.text.toList = '/' :: cs) : p.isAbsolute = true := by
  rw [isAbsolute, h]
  rfl

theorem components_of_toList (h : p.text.toList = '/' :: cs) :
    p.components = .root :: (Text.split '/' cs).filterMap ofPiece? := by
  have hsplit : Text.split '/' ('/' :: cs) = [] :: Text.split '/' cs := if_pos rfl
  rw [components, isAbsolute_of_toList h, h, hsplit, filterMap_cons_none rfl]
  rfl

theorem components_ofPieces {pieces : List (List Char)} (h : ∀ piece ∈ pieces, '/' ∉ piece) :
    components ⟨String.ofList ('/' :: ['/'].intercalate pieces)⟩ = .root :: pieces.filterMap ofPiece? := by
  refine (@components_of_toList (mk (String.ofList ('/' :: ['/'].intercalate pieces))) _ String.toList_ofList).trans ?_
  by_cases hne : pieces = []
  · simp [hne, Text.split, ofPiece?]
  · rw [Text.split_intercalate h hne]

theorem kept_begins {pieces rest : List (List Char)} (h : pieces.reverse.dropWhile isFiller = piece :: rest) :
    (rest.dropWhile isFiller).reverse <+: pieces := by
  have hsuffix : rest.dropWhile isFiller <:+ pieces.reverse :=
    ((dropWhile_suffix _).trans (suffix_cons piece rest)).trans (h ▸ dropWhile_suffix _)
  simpa using reverse_prefix.mpr hsuffix

theorem parent?_of_isAbsolute (hp : p.isAbsolute = true) : p.parent? = none ∧ p.components = [.root] ∨
      ∃ q c, p.parent? = some q ∧ q.isAbsolute = true ∧ p.components = q.components ++ [c] := by
  obtain ⟨cs, hcs⟩ := toList_of_isAbsolute hp
  have hpieces : (Text.split '/' cs).filterMap ofPiece? =
      (((Text.split '/' cs).reverse.dropWhile isFiller).filterMap ofPiece?).reverse := by
    rw [filterMap_dropWhile_isFiller, filterMap_reverse, reverse_reverse]
  simp only [parent?, hp, true_or, if_true, hcs, drop_one, tail_cons, take_succ_cons, take_zero]
  rw [components_of_toList hcs, hpieces]
  cases hdrop : (Text.split '/' cs).reverse.dropWhile isFiller with
  | nil => exact .inl ⟨by simp [Text.split], rfl⟩
  | cons piece rest =>
    have hslash : ∀ piece ∈ (rest.dropWhile isFiller).reverse, '/' ∉ piece := fun piece hpiece ↦
      Text.not_mem_of_mem_split ((kept_begins hdrop).subset hpiece)
    obtain ⟨c, hc⟩ : ∃ c, ofPiece? piece = some c := by
      have hpiece : ¬ isFiller piece = true := by
        have := List.head?_dropWhile_not isFiller (Text.split '/' cs).reverse
        simpa [hdrop] using this
      exact Option.ne_none_iff_exists'.mp (mt isFiller_iff.mpr hpiece)
    refine .inr ⟨_, c, rfl, isAbsolute_of_toList (String.toList_ofList), ?_⟩
    rw [singleton_append, components_ofPieces hslash, filterMap_cons_some hc, filterMap_reverse,
      filterMap_dropWhile_isFiller, reverse_cons, cons_append]

theorem toList_parent? (h : p.parent? = some q) : q.text.toList <+: p.text.toList := by
  have hkept (k : Nat) {piece : List Char} {rest : List (List Char)}
      (hdrop : (Text.split '/' (p.text.toList.drop k)).reverse.dropWhile isFiller = piece :: rest) :
      p.text.toList.take k ++ ['/'].intercalate (rest.dropWhile isFiller).reverse <+: p.text.toList := by
    obtain ⟨more, hmore⟩ := kept_begins hdrop
    have hbegins := intercalate_prefix ['/'] (rest.dropWhile isFiller).reverse more
    rw [hmore, Text.split_eq_splitOn, intercalate_splitOn] at hbegins
    have hall := (prefix_append_right_inj (p.text.toList.take k)).mpr hbegins
    rwa [take_append_drop] at hall
  by_cases hlead : p.isAbsolute = true ∨ (Text.split '/' p.text.toList).head? = some ['.']
  · simp only [parent?, hlead, if_true] at h
    split at h
    · split at h <;> cases h
      exact nil_prefix
    · rename_i piece rest hdrop
      cases h
      rw [String.toList_ofList]
      exact hkept 1 hdrop
  · simp only [parent?, hlead, if_false] at h
    split at h
    · split at h <;> cases h
      exact nil_prefix
    · rename_i piece rest hdrop
      cases h
      rw [String.toList_ofList]
      exact hkept 0 hdrop

theorem isAbsolute_of_parent? (h : p.parent? = some q) (hq : q.isAbsolute = true) : p.isAbsolute = true := by
  obtain ⟨cs, hcs⟩ := toList_of_isAbsolute hq
  obtain ⟨rest, hrest⟩ := toList_parent? h
  rw [hcs, cons_append] at hrest
  exact isAbsolute_of_toList hrest.symm

theorem isAbsolute_of_head? (h : p.components.head? = some .root) : p.isAbsolute = true := by
  refine Decidable.byContradiction fun hp ↦ ?_
  have hmem := mem_of_head? h
  rw [components, if_neg hp] at hmem
  have hroot : .root ∉ (Text.split '/' p.text.toList).filterMap ofPiece? := by
    intro hmem
    obtain ⟨piece, -, hpiece⟩ := mem_filterMap.mp hmem
    unfold ofPiece? at hpiece
    split at hpiece <;> cases hpiece
  obtain hmem | hmem := mem_append.mp hmem
  · split at hmem <;> simp at hmem
  · exact hroot hmem

end Parents

section Ancestors

variable {fuel : Nat}

section

variable (hp : p.isAbsolute = true)

include hp

theorem head?_components : p.components.head? = some .root := by
  obtain ⟨cs, hcs⟩ := toList_of_isAbsolute hp
  rw [components_of_toList hcs]
  rfl

theorem isAbove_of_mem_ancestorsUpTo (h : q ∈ ancestorsUpTo fuel p) : q.IsAbove p ∧ q.isAbsolute = true := by
  induction fuel generalizing p with
  | zero => cases h
  | succ fuel ih =>
    obtain ⟨hparent, -⟩ | ⟨q', c, hparent, hq', hcomponents⟩ := parent?_of_isAbsolute hp
    · rw [ancestorsUpTo, hparent] at h
      cases h
    · have habove : q'.IsAbove p := by
        refine ⟨fun hnil ↦ ?_, hcomponents ▸ prefix_append _ _, by simp [hcomponents]⟩
        have hhead := head?_components hq'
        rw [hnil] at hhead
        cases hhead
      rw [ancestorsUpTo, hparent] at h
      obtain rfl | h := mem_cons.mp h
      · exact ⟨habove, hq'⟩
      · exact ⟨(ih hq' h).1.trans habove, (ih hq' h).2⟩

theorem exists_mem_ancestorsUpTo (h : q.IsAbove p) (hfuel : p.components.length ≤ fuel) :
    ∃ r ∈ ancestorsUpTo fuel p, r.components = q.components := by
  induction fuel generalizing p with
  | zero =>
    have := h.length_lt
    omega
  | succ fuel ih =>
    have hlength := h.length_lt
    have hpos := length_pos_iff.mpr h.1
    obtain ⟨-, hcomponents⟩ | ⟨q', c, hparent, hq', hcomponents⟩ := parent?_of_isAbsolute hp
    · rw [hcomponents, length_singleton] at hlength
      omega
    · rw [ancestorsUpTo, hparent]
      have hbegins : q.components <+: q'.components := by
        have hbegins := h.2.1
        rw [hcomponents] at hbegins
        exact (prefix_concat_iff.mp hbegins).resolve_left (hcomponents ▸ h.2.2)
      by_cases he : q.components = q'.components
      · exact ⟨q', mem_cons_self, he.symm⟩
      · rw [hcomponents, length_append, length_singleton] at hfuel
        obtain ⟨r, hr, hcs⟩ := ih hq' ⟨h.1, hbegins, he⟩ (Nat.le_of_succ_le_succ hfuel)
        exact ⟨r, .tail _ hr, hcs⟩

theorem pairwise_ancestorsUpTo : (ancestorsUpTo fuel p).Pairwise fun q r ↦ r.IsAbove q := by
  induction fuel generalizing p with
  | zero => exact .nil
  | succ fuel ih =>
    obtain ⟨hparent, -⟩ | ⟨q', c, hparent, hq', -⟩ := parent?_of_isAbsolute hp
    · rw [ancestorsUpTo, hparent]
      exact .nil
    · rw [ancestorsUpTo, hparent]
      exact .cons (fun r hr ↦ (isAbove_of_mem_ancestorsUpTo hq' hr).1) (ih hq')

theorem length_components_le : p.components.length ≤ p.text.length + 1 := by
  obtain ⟨cs, hcs⟩ := toList_of_isAbsolute hp
  have hlength := length_filterMap_le ofPiece? (Text.split '/' cs)
  have hcount := count_le_length (a := '/') (l := cs)
  rw [Text.length_split] at hlength
  rw [components_of_toList hcs, ← String.length_toList, hcs, length_cons, length_cons]
  omega

theorem isAbove_iff : q.IsAbove p ↔ ∃ r ∈ p.ancestors, r.components = q.components := by
  refine ⟨fun h ↦ exists_mem_ancestorsUpTo hp h (length_components_le hp), ?_⟩
  rintro ⟨r, hr, he⟩
  have habove := (isAbove_of_mem_ancestorsUpTo hp hr).1
  rwa [IsAbove, he] at habove

end

end Ancestors

end AnalysisServer.Path
