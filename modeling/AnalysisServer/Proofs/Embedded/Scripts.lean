import AnalysisServer.Embedded.Html
import AnalysisServer.Proofs.Source.Roles

namespace AnalysisServer.Html

open List

open Text (newlines newlines_append)

def spells : List Char → List Char → Bool
  | [], [] => true
  | p :: ps, c :: cs => foldsTo p c && spells ps cs
  | _, _ => false

def opening : List Char :=
  ['<', 's', 'c', 'r', 'i', 'p', 't']

def closing : List Char :=
  ['<', '/', 's', 'c', 'r', 'i', 'p', 't']

/-- A closing tag, which may have blanks before its end. -/
structure IsClosing (name gap : List Char) : Prop where
  name : spells closing name
  gap : ∀ c ∈ gap, Text.isBlank c

def Closes (cs : List Char) : Prop :=
  ∃ name gap after, cs = name ++ (gap ++ '>' :: after) ∧ IsClosing name gap

/-- What is found in a tag where a word may begin, in order. -/
def occurrences {α : Type} (here? : List Char → Option α) : Option Char → List Char → List α
  | _, [] => []
  | before, c :: cs =>
    (if before.any Text.isWord then none else here? (c :: cs)).toList ++ occurrences here? (some c) cs

def types (attributes : List Char) : List (List Char) :=
  occurrences typeHere? none attributes

def isJavaScriptType (type : List Char) : Bool :=
  let type := type.map Text.lowerChar
  type == "module".toList || Text.contains "javascript".toList type ||
    Text.contains "ecmascript".toList type || Text.contains "babel".toList type

/-- The script of the tag is neither elsewhere nor of another type, as far as the first type tells. -/
def isScriptTag (attributes : List Char) : Bool :=
  (occurrences (assigned? ['s', 'r', 'c']) none attributes).isEmpty && (types attributes).head?.all isJavaScriptType

/-- An element of the document begins here: a script tag that a closing tag follows. -/
def Opens (cs : List Char) : Prop :=
  ∃ name attributes rest i, cs = name ++ (attributes ++ '>' :: rest) ∧ spells opening name ∧
    startsWord (attributes ++ ['>']) = false ∧ Closes (rest.drop i)

/-- An element: the script in it, the attributes of its tag, where the tag and the script start, where the script stops
and where the closing tag ends. -/
structure Place where
  snippet : Snippet
  attributes : List Char
  first : Nat
  start : Nat
  stop : Nat
  last : Nat

/-- The script is the piece of the source between a tag and the first closing tag after it. -/
structure Place.In (cs : List Char) (a : Place) : Prop where
  le : a.start ≤ a.stop
  code : a.snippet.code.toList = (cs.take a.stop).drop a.start
  offset : a.snippet.lineOffset = newlines (cs.take a.start)
  tag : ∃ name, cs.take a.start = cs.take a.first ++ (name ++ (a.attributes ++ ['>'])) ∧ spells opening name ∧
    startsWord (a.attributes ++ ['>']) = false ∧ '>' ∉ a.attributes
  closes : ∃ name gap, cs.drop a.stop = name ++ (gap ++ '>' :: cs.drop a.last) ∧ IsClosing name gap
  inside : ∀ i, a.start ≤ i → i < a.stop → ¬ Closes (cs.drop i)

section Attributes

variable {α : Type} {here? : List Char → Option α} {before : Option Char} {cs : List Char}

theorem findAttribute?_eq_head? : findAttribute? here? before cs = (occurrences here? before cs).head? := by
  fun_induction findAttribute? here? before cs with
  | case1 => rfl
  | case2 before c cs a h => simp [occurrences, h]
  | case3 before c cs h ih => simp [occurrences, h, ih]

theorem isJavaScript_eq (attributes : List Char) :
    isJavaScript attributes = (types attributes).head?.all isJavaScriptType := by
  rw [isJavaScript, findAttribute?_eq_head?, types]
  cases (occurrences typeHere? none attributes).head? <;> rfl

theorem isExternal_eq (attributes : List Char) :
    isExternal attributes = !(occurrences (assigned? ['s', 'r', 'c']) none attributes).isEmpty := by
  rw [isExternal, findAttribute?_eq_head?]
  cases occurrences (assigned? ['s', 'r', 'c']) none attributes <;> rfl

end Attributes

section Tags

variable {word front rest cs name gap after acc body : List Char}

theorem dropWord?_append (h : spells word front) (rest : List Char) : dropWord? word (front ++ rest) = some rest := by
  fun_induction spells word front <;> simp_all [dropWord?]

theorem exists_of_dropWord? (h : dropWord? word cs = some rest) : ∃ front, cs = front ++ rest ∧ spells word front := by
  fun_induction dropWord? word cs with
  | case1 =>
    cases h
    exact ⟨[], rfl, rfl⟩
  | case2 => cases h
  | case3 p ps c cs hfolds ih =>
    obtain ⟨front, rfl, hfront⟩ := ih h
    exact ⟨c :: front, rfl, by simp [spells, hfolds, hfront]⟩
  | case4 => cases h

theorem newlines_of_spells (h : spells word front) (hword : '\n' ∉ word) : newlines front = 0 := by
  refine count_eq_zero_of_not_mem fun hmem ↦ ?_
  fun_induction spells word front with
  | case1 => cases hmem
  | case2 p ps c cs ih =>
    obtain ⟨hc, hcs⟩ := Bool.and_eq_true_iff.mp h
    obtain rfl | hmem := mem_cons.mp hmem
    · have hfolds : foldsTo p '\n' = ('\n' == p) := by
        rw [foldsTo, show Text.lowerChar '\n' = '\n' from rfl, show ('\n' == 'ſ') = false from rfl,
          show ('\n' == '\u212a') = false from rfl, Bool.and_false, Bool.and_false, Bool.or_false, Bool.or_false]
      rw [hfolds] at hc
      exact hword (mem_cons.mpr (.inl (eq_of_beq hc)))
    · exact ih hcs (fun hmem ↦ hword (.tail _ hmem)) hmem
  | case3 => cases h

theorem tagName?_eq_some (h : tagName? cs = some rest) :
    ∃ name, cs = name ++ rest ∧ spells opening name ∧ startsWord rest = false := by
  unfold tagName? at h
  split at h
  · cases h
  · rename_i hdrop
    split at h
    · cases h
    · rename_i hword
      cases h
      obtain ⟨name, hcs, hname⟩ := exists_of_dropWord? hdrop
      exact ⟨name, hcs, hname, Bool.eq_false_iff.mpr hword⟩

theorem length_of_spells (h : spells word front) : front.length = word.length := by
  fun_induction spells word front <;> simp_all

theorem startsWord_of_tagName? (h : tagName? (name ++ rest) = none) (hname : spells opening name) :
    startsWord rest = true := by
  unfold tagName? at h
  rw [dropWord?_append (by exact hname)] at h
  simpa using h

theorem startsWord_append (attributes rest : List Char) :
    startsWord (attributes ++ '>' :: rest) = startsWord (attributes ++ ['>']) := by
  cases attributes <;> rfl

theorem closeTag?_eq_some (h : closeTag? cs = some (gap, after)) :
    ∃ name, cs = name ++ (gap ++ '>' :: after) ∧ IsClosing name gap := by
  unfold closeTag? at h
  split at h
  · cases h
  · rename_i rest hdrop
    split at h
    · rename_i hgap
      cases h
      obtain ⟨name, hcs, hname⟩ := exists_of_dropWord? hdrop
      refine ⟨name, ?_, hname, all_eq_true.mp all_takeWhile⟩
      rw [← hgap, takeWhile_append_dropWhile, hcs]
    · cases h

theorem not_closes_of_closeTag? (h : closeTag? cs = none) : ¬ Closes cs := by
  rintro ⟨name, gap, after, rfl, hname, hgap⟩
  have hrest : (gap ++ '>' :: after).dropWhile Text.isBlank = '>' :: after := by
    rw [dropWhile_append_of_pos hgap]
    rfl
  unfold closeTag? at h
  rw [dropWord?_append (by exact hname)] at h
  simp only [hrest] at h
  cases h

theorem body?_eq_some (h : body? acc cs = some (body, gap, after)) :
    ∃ inner name, body = acc.reverse ++ inner ∧ cs = inner ++ (name ++ (gap ++ '>' :: after)) ∧ IsClosing name gap ∧
      ∀ i < inner.length, ¬ Closes (cs.drop i) := by
  induction cs generalizing acc with
  | nil => cases h
  | cons c cs ih =>
    unfold body? at h
    split at h
    · rename_i hclose
      cases h
      obtain ⟨name, hcs, hclosing⟩ := closeTag?_eq_some hclose
      exact ⟨[], name, by simp, hcs, hclosing, nofun⟩
    · rename_i hclose
      obtain ⟨inner, name, rfl, hcs, hclosing, hfirst⟩ := ih h
      refine ⟨c :: inner, name, by simp, by rw [hcs]; rfl, hclosing, fun i hi ↦ ?_⟩
      cases i with
      | zero => exact not_closes_of_closeTag? hclose
      | succ i => exact hfirst i (Nat.lt_of_succ_lt_succ hi)

theorem not_closes_of_body? (h : body? acc cs = none) (i : Nat) : ¬ Closes (cs.drop i) := by
  induction cs generalizing acc i with
  | nil =>
    rw [drop_nil]
    rintro ⟨name, gap, after, hcs, -⟩
    simp at hcs
  | cons c cs ih =>
    unfold body? at h
    split at h
    · cases h
    · rename_i hclose
      cases i with
      | zero => exact not_closes_of_closeTag? hclose
      | succ i => exact ih h i

theorem not_closes_of_element? (h : element? (front ++ '>' :: rest) = none) (i : Nat) : ¬ Closes (rest.drop i) := by
  obtain ⟨tail, k, htail, hrest⟩ : ∃ tail k, (front ++ '>' :: rest).dropWhile (· ≠ '>') = '>' :: tail ∧
      rest = tail.drop k := by
    clear h
    induction front with
    | nil => exact ⟨rest, 0, by simp, rfl⟩
    | cons c front ih =>
      by_cases hc : c = '>'
      · exact ⟨front ++ '>' :: rest, front.length + 1, by simp [hc], by simp⟩
      · simpa [hc] using ih
  unfold element? at h
  simp only [htail] at h
  rw [hrest, drop_drop]
  exact not_closes_of_body? (Option.map_eq_none_iff.mp h) _

theorem element?_eq_some {e : Element} (h : element? cs = some e) :
    ∃ name, cs = e.attributes ++ '>' :: (e.body ++ (name ++ (e.gap ++ '>' :: e.after))) ∧ '>' ∉ e.attributes ∧
      IsClosing name e.gap ∧
      ∀ i < e.body.length, ¬ Closes ((e.body ++ (name ++ (e.gap ++ '>' :: e.after))).drop i) := by
  unfold element? at h
  split at h
  · cases h
  · rename_i c rest hrest
    obtain ⟨⟨body, gap, after⟩, hbody, rfl⟩ := Option.map_eq_some_iff.mp h
    obtain ⟨inner, name, rfl, rfl, hclosing, hfirst⟩ := body?_eq_some hbody
    obtain rfl : c = '>' := by
      have hhead := List.head?_dropWhile_not (· ≠ '>') cs
      rw [hrest] at hhead
      simpa using hhead
    have hsplit : cs.takeWhile (· ≠ '>') ++ cs.dropWhile (· ≠ '>') = cs := takeWhile_append_dropWhile
    rw [hrest] at hsplit
    refine ⟨name, hsplit.symm, fun hmem ↦ ?_, hclosing, hfirst⟩
    simpa using all_eq_true.mp all_takeWhile _ hmem

end Tags

section Places

variable {before front name body tail attributes close gap after : List Char}

def snippetOf (attributes body : List Char) (offset : Nat) : Snippet :=
  ⟨String.ofList body, offset, if isTypeScript attributes then .ts else .js⟩

theorem snippet?_eq (attributes body : List Char) (offset : Nat) : snippet? attributes body offset =
    if isScriptTag attributes then some (snippetOf attributes body offset) else none := by
  rw [snippet?, isExternal_eq, isJavaScript_eq, ← Bool.not_and, ← isScriptTag]
  cases isScriptTag attributes <;> rfl

theorem Place.in_append (hfront : front = before ++ (name ++ (attributes ++ ['>']))) (hname : spells opening name)
    (hword : startsWord (attributes ++ ['>']) = false) (hattributes : '>' ∉ attributes)
    (hclosing : IsClosing close gap)
    (hfirst : ∀ i < body.length, ¬ Closes ((body ++ (close ++ (gap ++ '>' :: after))).drop i)) :
    Place.In (front ++ (body ++ (close ++ (gap ++ '>' :: after))))
      ⟨snippetOf attributes body (newlines front), attributes, before.length, front.length,
        front.length + body.length, (front ++ (body ++ (close ++ (gap ++ ['>'])))).length⟩ where
  le := Nat.le_add_right _ _
  code := by
    rw [take_length_add_append, take_left, drop_left]
    exact String.toList_ofList
  offset := by
    rw [take_left]
    rfl
  tag := by
    have hbefore : (front ++ (body ++ (close ++ (gap ++ '>' :: after)))).take before.length = before := by
      rw [hfront, append_assoc, take_left]
    exact ⟨name, by rw [take_left, hbefore, hfront], hname, hword, hattributes⟩
  closes := by
    refine ⟨close, gap, ?_, hclosing⟩
    have hafter : front ++ (body ++ (close ++ (gap ++ '>' :: after))) =
        front ++ (body ++ (close ++ (gap ++ ['>']))) ++ after := by simp
    rw [drop_length_add_append, drop_left, hafter, drop_left]
  inside i hstart hstop := by
    obtain ⟨j, rfl⟩ := Nat.exists_eq_add_of_le hstart
    rw [drop_length_add_append]
    exact hfirst j (Nat.lt_of_add_lt_add_left hstop)

theorem not_opens_of_element? {cs inside : List Char} (hcs : cs = name ++ inside) (hname : spells opening name)
    (h : element? inside = none) (i : Nat) : ¬ Opens (cs.drop i) := by
  rintro ⟨name', attributes, rest, j, hdrop, hname', -, hcloses⟩
  have hall : cs = cs.take i ++ (name' ++ attributes) ++ '>' :: rest := by
    rw [append_assoc, append_assoc, ← hdrop, take_append_drop]
  have hlength : name.length ≤ (cs.take i ++ (name' ++ attributes)).length := by
    have := length_of_spells hname
    have := length_of_spells hname'
    simp only [length_append]
    omega
  have hinside : inside = (cs.take i ++ (name' ++ attributes)).drop name.length ++ '>' :: rest := by
    rw [← drop_append_of_le_length hlength, ← hall, hcs, drop_left]
  rw [hinside] at h
  exact not_closes_of_element? h j hcloses

theorem exists_places (line : Nat) (before cs : List Char) (hline : line = newlines before) :
    ∃ places : List Place, (places.filter (isScriptTag ·.attributes)).map Place.snippet = scriptsFrom line cs ∧
      (∀ a ∈ places, a.In (before ++ cs) ∧ before.length ≤ a.start) ∧
      places.Pairwise (fun a b ↦ a.stop < b.start) ∧
      ∀ i, Opens (cs.drop i) → ∃ a ∈ places, a.first ≤ before.length + i ∧ before.length + i < a.last := by
  fun_induction scriptsFrom line cs generalizing before with
  | case1 line =>
    refine ⟨[], rfl, nofun, .nil, fun i hopens ↦ ?_⟩
    obtain ⟨name, attributes, rest, j, hcs, -⟩ := hopens
    simp at hcs
  | case2 line c rest hname ih =>
    obtain ⟨places, hsnippets, hin, hpairs, hcover⟩ := ih (before ++ [c]) (by
      rw [newlines_append, hline]
      split <;> simp_all [newlines])
    refine ⟨places, hsnippets, fun a ha ↦ ?_, hpairs, fun i hopens ↦ ?_⟩
    · obtain ⟨hin, hle⟩ := hin a ha
      rw [append_assoc] at hin
      rw [length_append] at hle
      exact ⟨hin, Nat.le_of_succ_le hle⟩
    · cases i with
      | zero =>
        obtain ⟨name, attributes, tail, j, hcs, hopen, hword, -⟩ := hopens
        rw [drop_zero] at hcs
        rw [hcs] at hname
        have hstarts := startsWord_of_tagName? hname hopen
        rw [startsWord_append, hword] at hstarts
        cases hstarts
      | succ i =>
        obtain ⟨a, ha, hfirst, hlast⟩ := hcover i hopens
        rw [length_append, length_singleton] at hfirst hlast
        exact ⟨a, ha, by omega, by omega⟩
  | case3 line c rest inside hname hnone =>
    obtain ⟨name, hcs, hopen, -⟩ := tagName?_eq_some hname
    exact ⟨[], rfl, nofun, .nil, fun i hopens ↦ (not_opens_of_element? hcs hopen hnone i hopens).elim⟩
  | case4 line c rest inside hname e he offset ih =>
    obtain ⟨name, hcs, hopen, hword⟩ := tagName?_eq_some hname
    obtain ⟨close, rfl, hattributes, hclosing, hfirst⟩ := element?_eq_some he
    have hoffset : offset = newlines (before ++ (name ++ (e.attributes ++ ['>']))) := by
      simp [offset, hline, newlines_append, newlines_of_spells hopen (by decide), show newlines ['>'] = 0 from rfl]
    generalize hfront : before ++ (name ++ (e.attributes ++ ['>'])) = front at hoffset
    have hall : before ++ c :: rest = front ++ (e.body ++ (close ++ (e.gap ++ '>' :: e.after))) := by
      simp [hcs, ← hfront]
    rw [startsWord_append] at hword
    have hplace := Place.in_append hfront.symm hopen hword hattributes hclosing hfirst
    rw [← hall] at hplace
    have hupto : before ++ c :: rest = front ++ (e.body ++ (close ++ (e.gap ++ ['>']))) ++ e.after := by simp [hall]
    obtain ⟨places, hsnippets, hin, hpairs, hcover⟩ := ih (front ++ (e.body ++ (close ++ (e.gap ++ ['>'])))) (by
      simp [hoffset, newlines_append, newlines_of_spells hclosing.name (by decide), show newlines ['>'] = 0 from rfl,
        Nat.add_assoc])
    have hlater (a : Place) (ha : a ∈ places) : a.In (before ++ c :: rest) ∧
        front.length + e.body.length < a.start := by
      obtain ⟨hin, hle⟩ := hin a ha
      rw [← hupto] at hin
      simp only [length_append, length_cons] at hle
      exact ⟨hin, by omega⟩
    have hlength : before.length ≤ front.length := by simp [← hfront]
    refine ⟨_ :: places, ?_, forall_mem_cons.mpr ⟨⟨hplace, hlength⟩, fun a ha ↦ ⟨(hlater a ha).1, ?_⟩⟩,
      .cons (fun a ha ↦ (hlater a ha).2) hpairs, fun i hopens ↦ ?_⟩
    · rw [← hsnippets, hoffset, filter_cons, snippet?_eq]
      split <;> rfl
    · have := (hlater a ha).2
      omega
    · by_cases hlt : before.length + i < (front ++ (e.body ++ (close ++ (e.gap ++ ['>'])))).length
      · exact ⟨_, .head _, Nat.le_add_right _ _, hlt⟩
      · obtain ⟨j, hj⟩ := Nat.exists_eq_add_of_le (Nat.le_of_not_lt hlt)
        have hdrop : (c :: rest).drop i = e.after.drop j := by
          rw [← drop_length_add_append, hupto, hj, drop_length_add_append]
        obtain ⟨a, ha, hcovers⟩ := hcover j (hdrop ▸ hopens)
        rw [← hj] at hcovers
        exact ⟨a, .tail _ ha, hcovers⟩

end Places

/-- The scripts are pieces of the document in order, that do not meet: those of its elements whose tags name no source
elsewhere, and of which the first type, if any, is one of JavaScript. All types are just if those further on are. An
element that does not begin inside an earlier one is not missed. -/
theorem scripts_in_place (source : String) : ∃ places : List Place,
    (places.filter (isScriptTag ·.attributes)).map Place.snippet = scripts source ∧
    (∀ a ∈ places, a.In source.toList) ∧ places.Pairwise (fun a b ↦ a.stop < b.start) ∧
    (∀ i, Opens (source.toList.drop i) → ∃ a ∈ places, a.first ≤ i ∧ i < a.last) ∧
    ((∀ a ∈ places.filter (isScriptTag ·.attributes), ∀ type ∈ types a.attributes, isJavaScriptType type) ↔
      ∀ a ∈ places.filter (isScriptTag ·.attributes), ∀ type ∈ (types a.attributes).tail, isJavaScriptType type) := by
  obtain ⟨places, hsnippets, hin, hpairs, hcover⟩ := exists_places 0 [] source.toList rfl
  refine ⟨places, hsnippets, fun a ha ↦ (hin a ha).1, hpairs, fun i hopens ↦ ?_, fun h a ha type htype ↦ ?_,
    fun h a ha type htype ↦ ?_⟩
  · obtain ⟨a, ha, hcovers⟩ := hcover i hopens
    rw [length_nil, Nat.zero_add] at hcovers
    exact ⟨a, ha, hcovers⟩
  · exact h a ha type (mem_of_mem_tail htype)
  · have hfirst := (Bool.and_eq_true_iff.mp (mem_filter.mp ha).2).2
    have hlater := h a ha
    cases hall : types a.attributes with
    | nil => simp [hall] at htype
    | cons first rest =>
      rw [hall] at hfirst hlater htype
      obtain rfl | hmem := mem_cons.mp htype
      · exact hfirst
      · exact hlater type hmem

/-- A name that ends in the word is taken for the type of the script. -/
theorem later_type_is_overlooked : ∃ x, scripts "<script data-type=module type=text/template>a</script>" = [x] ∧
    types " data-type=module type=text/template".toList = ["module".toList, "text/template".toList] ∧
    isJavaScriptType "text/template".toList = false :=
  ⟨⟨"a", 0, .js⟩, by decide +kernel, by decide +kernel, by decide +kernel⟩

end AnalysisServer.Html
