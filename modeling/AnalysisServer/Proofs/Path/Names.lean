import AnalysisServer.Path

namespace AnalysisServer

open List

theorem Text.split_eq_splitOn (separator : Char) (cs : List Char) :
    split separator cs = cs.splitOn separator := by
  induction cs with
  | nil => rfl
  | cons c cs ih =>
    rw [split, splitOn_cons_eq_if_modifyHead, ih]
    by_cases h : c = separator
    · simp [h]
    · have hne := splitOn_ne_nil separator cs
      cases hs : cs.splitOn separator with
      | nil => exact absurd hs hne
      | cons p ps => simp [h]

theorem Text.length_split (separator : Char) (cs : List Char) :
    (split separator cs).length = cs.count separator + 1 := by
  induction cs with
  | nil => rfl
  | cons c cs ih =>
    rw [split]
    split
    · rename_i h
      simp [ih, h]
    · rename_i h
      rw [count_cons_of_ne h, ← ih]
      cases hs : split separator cs with
      | nil => simp [hs] at ih
      | cons p ps => rfl

theorem Text.split_intercalate {separator : Char} {pieces : List (List Char)}
    (h : ∀ piece ∈ pieces, separator ∉ piece) (hne : pieces ≠ []) :
    split separator ([separator].intercalate pieces) = pieces := by
  rw [split_eq_splitOn, splitOn_intercalate separator h hne]

theorem Text.not_mem_of_mem_split {separator : Char} {cs piece : List Char}
    (h : piece ∈ split separator cs) : separator ∉ piece := by
  induction cs generalizing piece with
  | nil =>
    rw [split, mem_singleton] at h
    subst h
    exact not_mem_nil
  | cons c cs ih =>
    rw [split] at h
    split at h
    · obtain rfl | h := mem_cons.mp h
      · exact not_mem_nil
      · exact ih h
    · rename_i hc
      split at h
      · rw [mem_singleton] at h
        subst h
        simpa using Ne.symm hc
      · rename_i p ps hs
        obtain rfl | h := mem_cons.mp h
        · have := ih (hs ▸ mem_cons_self)
          simp [this, Ne.symm hc]
        · exact ih (hs ▸ .tail _ h)

theorem intercalate_prefix {α : Type} (sep : List α) (front back : List (List α)) :
    sep.intercalate front <+: sep.intercalate (front ++ back) := by
  induction front with
  | nil => exact nil_prefix
  | cons x rest ih =>
    cases rest with
    | nil =>
      cases back with
      | nil => exact prefix_rfl
      | cons y back =>
        rw [intercalate_singleton, singleton_append, intercalate_cons_cons, append_assoc]
        exact prefix_append _ _
    | cons y rest =>
      rw [cons_append, cons_append, intercalate_cons_cons, intercalate_cons_cons]
      exact (prefix_append_right_inj _).mpr ih

theorem intercalate_concat {α : Type} (sep : List α) {xs : List (List α)} (h : xs ≠ []) (x : List α) :
    sep.intercalate (xs ++ [x]) = sep.intercalate xs ++ sep ++ x := by
  induction xs with
  | nil => exact absurd rfl h
  | cons y ys ih =>
    cases ys with
    | nil => simp [intercalate_cons_cons]
    | cons z zs =>
      rw [cons_append, cons_append, intercalate_cons_cons, intercalate_cons_cons, ← cons_append, ih (by simp)]
      simp only [append_assoc]

namespace Path

/-- A name that an entry of a directory may have. -/
structure IsName (s : String) : Prop where
  notEmpty : s.toList ≠ []
  noSlash : '/' ∉ s.toList
  notDot : s.toList ≠ ['.']
  notDots : s.toList ≠ ['.', '.']

instance (s : String) : Decidable (IsName s) :=
  decidable_of_iff (s.toList ≠ [] ∧ '/' ∉ s.toList ∧ s.toList ≠ ['.'] ∧ s.toList ≠ ['.', '.'])
    ⟨fun h ↦ ⟨h.1, h.2.1, h.2.2.1, h.2.2.2⟩, fun h ↦ ⟨h.1, h.2, h.3, h.4⟩⟩

variable {p : Path} {s : String}

theorem ext {q : Path} (h : p.text.toList = q.text.toList) : p = q := by
  cases p
  cases q
  exact congrArg mk (String.toList_inj.mp h)

theorem ofPiece?_toList (h : IsName s) : ofPiece? s.toList = some (.name s) := by
  unfold ofPiece?
  split
  · exact absurd ‹_› h.notEmpty
  · exact absurd ‹_› h.notDot
  · exact absurd ‹_› h.notDots
  · rw [String.ofList_toList]

theorem ofPiece?_name {piece : List Char} (h : ofPiece? piece = some (.name s))
    (hslash : '/' ∉ piece) : IsName s := by
  unfold ofPiece? at h
  split at h
  · cases h
  · cases h
  · cases h
  · cases h
    constructor <;> simpa [String.toList_ofList]

theorem isName_of_mem_components (h : .name s ∈ p.components) : IsName s := by
  rw [components, mem_append] at h
  obtain h | h := h
  · split at h
    · simp at h
    · split at h <;> simp at h
  · obtain ⟨piece, hpiece, hs⟩ := mem_filterMap.mp h
    exact ofPiece?_name hs (Text.not_mem_of_mem_split hpiece)

section Clean

variable {absolute : Bool} {names : List String} {s : String}

theorem toList_ofNames (absolute : Bool) (names : List String) : (ofNames absolute names).text.toList =
    (if absolute then ['/'] else []) ++ ['/'].intercalate (names.map String.toList) := by
  simp only [ofNames, String.toList_append, String.toList_intercalate]
  cases absolute <;> rfl

section

variable (h : ∀ s ∈ names, IsName s)

include h

theorem noSlash_pieces : ∀ piece ∈ names.map String.toList, '/' ∉ piece := by
  intro piece hpiece
  obtain ⟨s, hs, rfl⟩ := mem_map.mp hpiece
  exact (h s hs).noSlash

theorem split_names : Text.split '/' (['/'].intercalate (names.map String.toList)) =
    if names = [] then [[]] else names.map String.toList := by
  split
  · simp [*, Text.split]
  · exact Text.split_intercalate (noSlash_pieces h) (by simpa)

theorem head?_names : (['/'].intercalate (names.map String.toList)).head? ≠ some '/' := by
  cases names with
  | nil => simp
  | cons s rest =>
    have hs := h s (.head _)
    cases hc : s.toList with
    | nil => exact absurd hc hs.notEmpty
    | cons c cs =>
      have hne : c ≠ '/' := fun he ↦ hs.noSlash (by simp [hc, he])
      cases rest <;> simp [hc, intercalate_cons_cons, hne]

theorem getLast?_names : (['/'].intercalate (names.map String.toList)).getLast? ≠ some '/' := by
  rcases eq_nil_or_concat names with rfl | ⟨front, s, rfl⟩
  · simp
  · have hs := h s (by simp)
    have hlast : s.toList.getLast? ≠ some '/' := fun he ↦ hs.noSlash (mem_of_getLast? he)
    obtain ⟨c, hc⟩ := Option.isSome_iff_exists.mp (List.getLast?_isSome.mpr hs.notEmpty)
    by_cases hf : front = []
    · simpa [hf] using hlast
    · rw [concat_eq_append, map_append, map_singleton, intercalate_concat _ (by simpa), List.getLast?_append, hc]
      rwa [hc] at hlast

end

theorem isAbsolute_ofNames (absolute : Bool) (h : ∀ s ∈ names, IsName s) :
    (ofNames absolute names).isAbsolute = absolute := by
  rw [isAbsolute, toList_ofNames]
  cases absolute with
  | true => rfl
  | false => simpa using head?_names h

theorem filterMap_ofPiece? (h : ∀ s ∈ names, IsName s) :
    (names.map String.toList).filterMap ofPiece? = names.map .name := by
  induction names with
  | nil => rfl
  | cons s rest ih =>
    rw [map_cons, filterMap_cons_some (ofPiece?_toList (h s (.head _))), ih fun t ht ↦ h t (.tail _ ht), map_cons]

theorem components_ofNames (h : ∀ s ∈ names, IsName s) :
    (ofNames absolute names).components = (if absolute then [Component.root] else []) ++ names.map .name := by
  have hpieces : ((if names = [] then [[]] else names.map String.toList : List (List Char))).filterMap
      ofPiece? = names.map .name := by
    split
    · simp [*, ofPiece?]
    · exact filterMap_ofPiece? h
  rw [components, isAbsolute_ofNames absolute h, toList_ofNames]
  cases absolute with
  | true =>
    simp only [if_true, singleton_append, Text.split, split_names h]
    rw [filterMap_cons_none rfl, hpieces]
  | false =>
    simp only [Bool.false_eq_true, if_false, nil_append, split_names h, hpieces]
    split
    · simp
    · cases names with
      | nil => simp
      | cons s rest => simpa using (h s (.head _)).notDot

theorem resolveDots_names (front : List String) (names : List String) :
    resolveDots front (names.map .name) = front.reverse ++ names := by
  induction names generalizing front with
  | nil => simp [resolveDots]
  | cons s rest ih => simp [resolveDots, ih]

theorem normalize_ofNames (h : ∀ s ∈ names, IsName s) :
    (ofNames absolute names).normalize = ofNames absolute names := by
  rw [normalize, isAbsolute_ofNames absolute h, components_ofNames h]
  cases absolute <;> simp [resolveDots, resolveDots_names]

theorem fileName?_ofNames (h : ∀ s ∈ names, IsName s) : (ofNames absolute names).fileName? = names.getLast? := by
  rw [fileName?, components_ofNames h]
  rcases eq_nil_or_concat names with rfl | ⟨front, s, rfl⟩
  · cases absolute <;> simp
  · simp [← append_assoc]

theorem not_isFiller (h : IsName s) : isFiller s.toList = false := by
  simp [isFiller, h.notEmpty, h.notDot]

section

variable (h : ∀ s ∈ names, IsName s)

include h

theorem parent?_ofNames :
    (ofNames absolute names).parent? = if names = [] then none else some (ofNames absolute names.dropLast) := by
  have habsolute := isAbsolute_ofNames absolute h
  have hdotted : (Text.split '/' (ofNames absolute names).text.toList).head? ≠ some ['.'] := by
    rw [toList_ofNames]
    cases absolute with
    | true => simp [Text.split]
    | false =>
      cases names with
      | nil => simp [Text.split]
      | cons s rest =>
        have hs := (h s (.head _)).notDot
        rw [if_neg Bool.false_ne_true, nil_append, split_names h]
        simpa using hs
  have hbody : (if absolute then (ofNames absolute names).text.toList.drop 1
      else (ofNames absolute names).text.toList) = ['/'].intercalate (names.map String.toList) := by
    rw [toList_ofNames]
    cases absolute <;> rfl
  have hfront : (if absolute then (ofNames absolute names).text.toList.take 1 else []) =
      if absolute then ['/'] else [] := by
    rw [toList_ofNames]
    cases absolute <;> rfl
  simp only [parent?, habsolute, hdotted, or_false, hbody, hfront, split_names h, if_false]
  rcases eq_nil_or_concat names with rfl | ⟨front, s, rfl⟩
  · simp [isFiller]
  · rw [concat_eq_append] at h ⊢
    have hs := not_isFiller (h s (by simp))
    have hrest : (front.map String.toList).reverse.dropWhile isFiller = (front.map String.toList).reverse := by
      rcases eq_nil_or_concat front with rfl | ⟨front', t, rfl⟩
      · rfl
      · rw [concat_eq_append, map_append, reverse_append]
        exact dropWhile_cons_of_neg (by simp [not_isFiller (h t (by simp))])
    simp only [append_eq_nil_iff, cons_ne_self, and_false, if_false, map_append,
      map_singleton, reverse_append, reverse_singleton, singleton_append,
      dropWhile_cons_of_neg (show ¬ isFiller s.toList = true by simp [hs]), hrest, reverse_reverse,
      dropLast_concat]
    refine congrArg some (ext ?_)
    rw [toList_ofNames, String.toList_ofList]

theorem join_ofNames (hs : (Path.mk s).isAbsolute = false) :
    (ofNames absolute names).join ⟨s⟩ = ofNames absolute (names ++ [s]) := by
  apply ext
  rw [join, hs]
  have hempty : (ofNames absolute names).text.isEmpty = ((ofNames absolute names).text.toList == []) := by
    rw [Bool.eq_iff_iff, String.isEmpty_iff, beq_iff_eq, String.toList_eq_nil_iff]
  have hlast := getLast?_names h
  rw [hempty, toList_ofNames, toList_ofNames, map_append, map_singleton]
  by_cases hn : names = []
  · cases absolute with
    | true =>
      subst hn
      simp [ofNames]
    | false =>
      subst hn
      simp
  · have hne : ['/'].intercalate (names.map String.toList) ≠ [] := by
      cases names with
      | nil => exact absurd rfl hn
      | cons t rest =>
        have := (h t (.head _)).notEmpty
        cases rest <;> simp [intercalate_cons_cons, this]
    obtain ⟨c, hc⟩ := Option.isSome_iff_exists.mp (List.getLast?_isSome.mpr hne)
    have hend : ((if absolute then ['/'] else []) ++ ['/'].intercalate (names.map String.toList)).getLast? ≠
        some '/' := by
      rw [List.getLast?_append, hc]
      rwa [hc] at hlast
    rw [if_neg (by simp [hne]), if_neg hend, intercalate_concat _ (by simpa)]
    simp [toList_ofNames]

theorem joinName_ofNames (hs : IsName s) : (ofNames absolute names).joinName s = ofNames absolute (names ++ [s]) :=
  join_ofNames h (by simpa [ofNames] using isAbsolute_ofNames false (forall_mem_singleton.mpr hs))

end

end Clean

theorem toList_of_isAbsolute (h : p.isAbsolute = true) : ∃ cs, p.text.toList = '/' :: cs := by
  have hhead : p.text.toList.head? = some '/' := by simpa [isAbsolute] using h
  exact List.head?_eq_some_iff.mp hhead

theorem isEmpty_of_isAbsolute (h : p.isAbsolute = true) : p.text.isEmpty = false := by
  obtain ⟨cs, hcs⟩ := toList_of_isAbsolute h
  rw [Bool.eq_false_iff]
  intro he
  rw [String.isEmpty_iff.mp he] at hcs
  cases hcs

theorem isName_of_mem_resolveDots {components : List Component} {front : List String}
    (h : s ∈ resolveDots front components) : s ∈ front ∨ .name s ∈ components := by
  induction components generalizing front with
  | nil => exact .inl (by simpa [resolveDots] using h)
  | cons component rest ih =>
    cases component with
    | name t =>
      obtain h | h := ih h
      · obtain rfl | h := mem_cons.mp h
        · exact .inr (.head _)
        · exact .inl h
      · exact .inr (.tail _ h)
    | parent =>
      obtain h | h := ih h
      · exact .inl (mem_of_mem_tail h)
      · exact .inr (.tail _ h)
    | _ =>
      obtain h | h := ih h
      · exact .inl h
      · exact .inr (.tail _ h)

theorem exists_normalize (p : Path) :
    ∃ names, (∀ s ∈ names, IsName s) ∧ p.normalize = ofNames p.isAbsolute names := by
  refine ⟨_, fun s hs ↦ ?_, rfl⟩
  obtain h | h := isName_of_mem_resolveDots hs
  · exact (not_mem_nil h).elim
  · exact isName_of_mem_components h

theorem normalize_normalize (p : Path) : p.normalize.normalize = p.normalize := by
  obtain ⟨names, h, hp⟩ := p.exists_normalize
  rw [hp, normalize_ofNames h]

theorem no_dots_normalize (p : Path) :
    ∀ piece ∈ Text.split '/' p.normalize.text.toList, piece ≠ ['.'] ∧ piece ≠ ['.', '.'] := by
  obtain ⟨names, hnames, hp⟩ := p.exists_normalize
  have hplain : ∀ piece ∈ Text.split '/' (['/'].intercalate (names.map String.toList)),
      piece ≠ ['.'] ∧ piece ≠ ['.', '.'] := by
    intro piece hpiece
    rw [split_names hnames] at hpiece
    split at hpiece
    · simp [mem_singleton.mp hpiece]
    · obtain ⟨s, hs, rfl⟩ := mem_map.mp hpiece
      exact ⟨(hnames s hs).notDot, (hnames s hs).notDots⟩
  rw [hp, toList_ofNames]
  cases p.isAbsolute with
  | true => exact forall_mem_cons.mpr ⟨by simp, hplain⟩
  | false => exact hplain

end Path

end AnalysisServer
