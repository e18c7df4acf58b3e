import AnalysisServer.Proofs.Json.Fields
import AnalysisServer.Proofs.Json.Numerals

namespace AnalysisServer.Json

open List

mutual

/-- All numbers in a value are integers of 64 bits, and all fields stand in the order of their names. -/
def IsExact : Json → Prop
  | num n => IsWord n
  | arr items => ExactItems items
  | obj fields => fields.Pairwise (·.1 < ·.1) ∧ ExactFields fields
  | _ => True

def ExactItems : List Json → Prop
  | [] => True
  | v :: vs => v.IsExact ∧ ExactItems vs

def ExactFields : Fields → Prop
  | [] => True
  | (_, v) :: fs => v.IsExact ∧ ExactFields fs

end

theorem insert_last {name : String} {fields : Fields} (h : ∀ f ∈ fields, f.1 < name) (value : Json) :
    insert name value fields = fields ++ [(name, value)] := by
  induction fields with
  | nil => rfl
  | cons f rest ih =>
    have hf := h f (.head _)
    rw [insert, if_neg (String.lt_asymm hf), if_neg, ih fun f' hf' ↦ h f' (.tail _ hf')]
    · rfl
    · rintro rfl
      exact String.lt_irrefl _ hf

theorem ofFields_of_ascending {fields : Fields} (h : fields.Pairwise (·.1 < ·.1)) : ofFields fields = obj fields := by
  have hfold (fields acc : Fields) (h : (acc ++ fields).Pairwise (·.1 < ·.1)) :
      fields.foldl (fun acc f ↦ insert f.1 f.2 acc) acc = acc ++ fields := by
    induction fields generalizing acc with
    | nil => simp
    | cons f rest ih =>
      have hlast := insert_last (fun f' hf' ↦ (pairwise_append.mp h).2.2 f' hf' f (.head _)) f.2
      rw [foldl_cons, hlast, ih _ (by simpa using h), append_assoc, singleton_append]
  exact congrArg obj (hfold fields [] h)

namespace Lenient

mutual

def tokensOf : Json → List Token
  | .null => [.null]
  | .bool b => [.bool b]
  | .num n => [.num (numberText n)]
  | .str s => [.str s]
  | .arr items => .openBracket :: itemTokens items ++ [.closeBracket]
  | .obj fields => .openBrace :: fieldTokens fields ++ [.closeBrace]

def itemTokens : List Json → List Token
  | [] => []
  | [v] => tokensOf v
  | v :: vs => tokensOf v ++ .comma :: itemTokens vs

def fieldTokens : Fields → List Token
  | [] => []
  | [(n, v)] => .str n :: .colon :: tokensOf v
  | (n, v) :: fs => .str n :: .colon :: tokensOf v ++ .comma :: fieldTokens fs

end

theorem Stops.any_isAlphanumeric {rest : List Char} (h : Stops rest) :
    rest.head?.any Text.isAlphanumeric = false := by
  cases rest with
  | nil => rfl
  | cons c cs => obtain rfl | rfl := h c rfl <;> rfl

section Lexing

variable {cs mid rest : List Char} {ts us : List Token} {c : Char}

/-- The text begins with some tokens and goes on with the rest, whatever fuel is left. -/
def Yields (cs : List Char) (ts : List Token) (rest : List Char) : Prop :=
  ∀ fuel, cs.length < fuel → ∃ left, rest.length < left ∧ lex fuel cs = (lex left rest).map (ts ++ ·)

namespace Yields

theorem refl (cs : List Char) : Yields cs [] cs :=
  fun fuel h ↦ ⟨fuel, h, by simp⟩

theorem trans (h : Yields cs ts mid) (h' : Yields mid us rest) : Yields cs (ts ++ us) rest := by
  intro fuel hfuel
  obtain ⟨left, hleft, heq⟩ := h fuel hfuel
  obtain ⟨left', hleft', heq'⟩ := h' left hleft
  refine ⟨left', hleft', ?_⟩
  rw [heq, heq', Option.map_map]
  simp only [Function.comp_def, append_assoc]

theorem step (hlen : rest.length < cs.length) (h : ∀ fuel, lex (fuel + 1) cs = (lex fuel rest).map (ts ++ ·)) :
    Yields cs ts rest := by
  intro fuel hfuel
  obtain ⟨fuel, rfl⟩ := Nat.exists_eq_add_one_of_ne_zero (Nat.ne_of_gt (Nat.zero_lt_of_lt hfuel))
  exact ⟨fuel, by omega, h fuel⟩

theorem tokens?_eq (h : Yields cs ts []) : tokens? cs = some ts := by
  obtain ⟨left, hleft, heq⟩ := h (cs.length + 1) (by omega)
  obtain ⟨left, rfl⟩ := Nat.exists_eq_add_one_of_ne_zero (Nat.ne_of_gt hleft)
  rw [tokens?, heq, show lex (left + 1) [] = some [] from rfl, Option.map_some, append_nil]

theorem blank (hc : Text.isBlank c = true) (cs : List Char) : Yields (c :: cs) [] cs :=
  step (by simp) fun fuel ↦ (if_pos hc).trans (by simp)

theorem openBrace (cs : List Char) : Yields ('{' :: cs) [.openBrace] cs :=
  step (by simp) fun _ ↦ rfl

theorem closeBrace (cs : List Char) : Yields ('}' :: cs) [.closeBrace] cs :=
  step (by simp) fun _ ↦ rfl

theorem openBracket (cs : List Char) : Yields ('[' :: cs) [.openBracket] cs :=
  step (by simp) fun _ ↦ rfl

theorem closeBracket (cs : List Char) : Yields (']' :: cs) [.closeBracket] cs :=
  step (by simp) fun _ ↦ rfl

theorem comma (cs : List Char) : Yields (',' :: cs) [.comma] cs :=
  step (by simp) fun _ ↦ rfl

theorem colon (cs : List Char) : Yields (':' :: cs) [.colon] cs :=
  step (by simp) fun _ ↦ rfl

theorem blanks (count : Nat) (rest : List Char) : Yields (List.replicate count ' ' ++ rest) [] rest := by
  induction count with
  | zero => exact refl rest
  | succ count ih => exact (blank (by decide) _).trans ih

theorem indent (depth : Nat) (rest : List Char) : Yields (Json.indent depth ++ rest) [] rest :=
  (blank (by decide) _).trans (blanks _ rest)

theorem literal {word : List Char} {t : Token} (hword : word ≠ []) (hlex : ∀ fuel, lex (fuel + 1) (word ++ rest) =
      match literal? (word ++ rest) with
      | some (t, cs) => (lex fuel cs).map (t :: ·)
      | none =>
        match word? (word ++ rest) with
        | some (w, cs) => (lex fuel cs).map (.word w :: ·)
        | none => none)
    (h : literal? (word ++ rest) = some (t, rest)) : Yields (word ++ rest) [t] rest := by
  refine step ?_ fun fuel ↦ ?_
  · rw [length_append]
    have := length_pos_of_ne_nil hword
    omega
  · rw [hlex, h]
    rfl

theorem null (h : Stops rest) : Yields (['n', 'u', 'l', 'l'] ++ rest) [.null] rest := by
  refine literal (by simp) (fun _ ↦ rfl) ?_
  simp [literal?, Text.dropFront?, h.any_isAlphanumeric]

theorem bool (b : Bool) (h : Stops rest) : Yields (compactText (.bool b) ++ rest) [.bool b] rest := by
  cases b with
  | true | false =>
    refine literal (by simp [compactText]) (fun _ ↦ rfl) ?_
    simp [compactText, literal?, Text.dropFront?, h.any_isAlphanumeric]

end Yields

theorem hex?_control : ∀ n < 32, hex? ['0', '0', Nat.digitChar (n / 16), Nat.digitChar (n % 16)] = some n := by
  decide

theorem readString_escapedChar (fuel : Nat) (acc : List Char) (c : Char) (cs : List Char) :
    readString '"' (fuel + 1) acc (escapedChar c ++ cs) = readString '"' fuel (c :: acc) cs := by
  unfold escapedChar
  split
  · rfl
  · rfl
  · rfl
  · rfl
  · rfl
  · rfl
  · rfl
  · rename_i hquote hescape _ _ _ _ _
    split
    · rename_i hcontrol
      have hsurrogate : Document.isTrailSurrogate c.toNat = false ∧ Document.isLeadSurrogate c.toNat = false := by
        simp only [Document.isTrailSurrogate, Document.isLeadSurrogate, Bool.and_eq_false_iff, decide_eq_false_iff_not]
        omega
      simp [readString, hex?_control _ hcontrol, hsurrogate.1, hsurrogate.2]
    · exact (if_neg hquote).trans (if_neg hescape)

theorem length_escapedChar (c : Char) : 0 < (escapedChar c).length := by
  unfold escapedChar
  repeat' split
  all_goals simp

theorem readString_text {fuel : Nat} {acc : List Char} (s rest : List Char)
    (h : (s.flatMap escapedChar).length < fuel) :
    readString '"' fuel acc (s.flatMap escapedChar ++ '"' :: rest) = some (acc.reverse ++ s, rest) := by
  induction s generalizing fuel acc with
  | nil =>
    obtain ⟨fuel, rfl⟩ := Nat.exists_eq_add_one_of_ne_zero (Nat.ne_of_gt (Nat.zero_lt_of_lt h))
    rw [append_nil]
    rfl
  | cons c s ih =>
    obtain ⟨fuel, rfl⟩ := Nat.exists_eq_add_one_of_ne_zero (Nat.ne_of_gt (Nat.zero_lt_of_lt h))
    have hc := length_escapedChar c
    rw [flatMap_cons, length_append] at h
    rw [flatMap_cons, append_assoc, readString_escapedChar, ih (by omega), reverse_cons, append_assoc]
    rfl

theorem lex_string (fuel : Nat) (cs : List Char) : lex (fuel + 1) ('"' :: cs) =
    match readString '"' (cs.length + 1) [] cs with
    | some (s, cs) => (lex fuel cs).map (Token.str (String.ofList s) :: ·)
    | none => none :=
  rfl

theorem Yields.string (s : String) (rest : List Char) : Yields (stringText s ++ rest) [.str s] rest := by
  have htext : stringText s ++ rest = '"' :: (s.toList.flatMap escapedChar ++ '"' :: rest) := by
    simp [stringText]
  have hread := @readString_text ((s.toList.flatMap escapedChar ++ '"' :: rest).length + 1) [] s.toList rest
    (by rw [length_append]; omega)
  rw [htext]
  refine step (by simp; omega) fun fuel ↦ ?_
  rw [lex_string, hread]
  simp

theorem lex_number (fuel : Nat) (cs : List Char) (h : c = '-' ∨ c.isDigit = true) : lex (fuel + 1) (c :: cs) =
    match number? (c :: cs) with
    | some (text, cs) => (lex fuel cs).map (Token.num text :: ·)
    | none => none := by
  obtain rfl | h := h
  · rfl
  · rw [Char.isDigit, Bool.and_eq_true, decide_eq_true_eq, decide_eq_true_eq] at h
    have hlow : '0'.toNat ≤ c.toNat := UInt32.le_iff_toNat_le.mp h.1
    have hhigh : c.toNat ≤ '9'.toNat := UInt32.le_iff_toNat_le.mp h.2
    have hdigit : c.toNat = '0'.toNat ∨ c.toNat = '1'.toNat ∨ c.toNat = '2'.toNat ∨ c.toNat = '3'.toNat ∨
        c.toNat = '4'.toNat ∨ c.toNat = '5'.toNat ∨ c.toNat = '6'.toNat ∨ c.toNat = '7'.toNat ∨
        c.toNat = '8'.toNat ∨ c.toNat = '9'.toNat := by
      simp only [Char.reduceToNat] at hlow hhigh ⊢
      omega
    simp only [Char.toNat_inj] at hdigit
    obtain rfl | rfl | rfl | rfl | rfl | rfl | rfl | rfl | rfl | rfl := hdigit <;> rfl

theorem Yields.number {n : Number} (hn : IsWord n) (h : Stops rest) :
    Yields (numberText n ++ rest) [.num (numberText n)] rest := by
  have hne : numberText n ≠ [] := by
    match n with
    | .int (.ofNat k) => exact Nat.toDigits_ne_nil
    | .int (.negSucc k) => exact cons_ne_nil _ _
  refine step ?_ fun fuel ↦ ?_
  · rw [length_append]
    have := length_pos_of_ne_nil hne
    omega
  · have hread := number?_numberText hn h
    obtain ⟨c, cs, hcs⟩ := exists_cons_of_ne_nil hne
    have hc := mem_numberText hn (hcs ▸ mem_cons_self)
    rw [hcs, cons_append] at hread ⊢
    rw [lex_number fuel _ hc, hread]
    rfl

end Lexing

section Values

theorem prettyText_arr (depth : Nat) {items : List Json} (h : items ≠ []) :
    prettyText depth (.arr items) = '[' :: prettyItems (depth + 1) items ++ indent depth ++ [']'] := by
  cases items with
  | nil => exact absurd rfl h
  | cons v vs => rw [prettyText]

theorem prettyText_obj (depth : Nat) {fields : Fields} (h : fields ≠ []) :
    prettyText depth (.obj fields) = '{' :: prettyFields (depth + 1) fields ++ indent depth ++ ['}'] := by
  cases fields with
  | nil => exact absurd rfl h
  | cons v vs => rw [prettyText]

theorem stops_indent (depth : Nat) (rest : List Char) : Stops (indent depth ++ rest) :=
  fun _ hc ↦ .inr (Option.some.inj hc).symm

theorem stops_comma (rest : List Char) : Stops (',' :: rest) :=
  fun _ hc ↦ .inl (Option.some.inj hc).symm

mutual

theorem yields_value (depth : Nat) (rest : List Char) : (v : Json) → v.IsExact → Stops rest →
    Yields (prettyText depth v ++ rest) (tokensOf v) rest
  | .null, _, h => .null h
  | .bool true, _, h => .bool true h
  | .bool false, _, h => .bool false h
  | .num n, hv, h => .number hv h
  | .str s, _, _ => .string s rest
  | .arr [], _, _ => (Yields.openBracket _).trans (.closeBracket rest)
  | .arr (v :: vs), hv, _ => by
    rw [prettyText_arr depth (cons_ne_nil _ _)]
    simp only [cons_append, append_assoc]
    have hitems := yields_items (depth + 1) (indent depth ++ ([']'] ++ rest)) (v :: vs) hv (stops_indent _ _)
    exact (Yields.openBracket _).trans (hitems.trans ((Yields.indent depth _).trans (.closeBracket rest)))
  | .obj [], _, _ => (Yields.openBrace _).trans (.closeBrace rest)
  | .obj (f :: fs), hv, _ => by
    rw [prettyText_obj depth (cons_ne_nil _ _)]
    simp only [cons_append, append_assoc]
    have hfields := yields_fields (depth + 1) (indent depth ++ (['}'] ++ rest)) (f :: fs) hv.2 (stops_indent _ _)
    exact (Yields.openBrace _).trans (hfields.trans ((Yields.indent depth _).trans (.closeBrace rest)))

theorem yields_items (depth : Nat) (rest : List Char) : (vs : List Json) → ExactItems vs → Stops rest →
    Yields (prettyItems depth vs ++ rest) (itemTokens vs) rest
  | [], _, _ => .refl rest
  | [v], hv, h => by
    rw [prettyItems, append_assoc]
    exact (Yields.indent depth _).trans (yields_value depth rest v hv.1 h)
  | v :: v' :: vs, hv, h => by
    simp only [prettyItems, itemTokens, cons_append, append_assoc]
    have hrest := yields_items depth rest (v' :: vs) hv.2 h
    have hvalue := yields_value depth (',' :: (prettyItems depth (v' :: vs) ++ rest)) v hv.1 (stops_comma _)
    exact (Yields.indent depth _).trans (hvalue.trans ((Yields.comma _).trans hrest))

theorem yields_fields (depth : Nat) (rest : List Char) : (fs : Fields) → ExactFields fs → Stops rest →
    Yields (prettyFields depth fs ++ rest) (fieldTokens fs) rest
  | [], _, _ => .refl rest
  | [(n, v)], hv, h => by
    rw [prettyFields]
    simp only [cons_append, append_assoc]
    have hvalue := yields_value depth rest v hv.1 h
    exact (Yields.indent depth _).trans ((Yields.string n _).trans ((Yields.colon _).trans
      ((Yields.blank (by decide) _).trans hvalue)))
  | (n, v) :: f :: fs, hv, h => by
    simp only [prettyFields, fieldTokens, cons_append, append_assoc]
    have hrest := yields_fields depth rest (f :: fs) hv.2 h
    have hvalue := yields_value depth (',' :: (prettyFields depth (f :: fs) ++ rest)) v hv.1 (stops_comma _)
    exact (Yields.indent depth _).trans ((Yields.string n _).trans ((Yields.colon _).trans
      ((Yields.blank (by decide) _).trans (hvalue.trans ((Yields.comma _).trans hrest)))))

end

theorem items_tokensOf (fuel : Nat) (v : Json) (us : List Token) : items (fuel + 1) (tokensOf v ++ us) =
    match value fuel (tokensOf v ++ us) with
    | some (v, ts) => (items fuel (dropComma ts)).map fun r ↦ (v :: r.1, r.2)
    | none => none := by
  cases v <;> rfl

theorem fields_name (fuel : Nat) (n : String) (us : List Token) : fields (fuel + 1) (.str n :: .colon :: us) =
    match value fuel us with
    | some (v, ts) => (fields fuel (dropComma ts)).map fun r ↦ ((n, v) :: r.1, r.2)
    | none => none :=
  rfl

mutual

theorem value_tokensOf (ts : List Token) : (v : Json) → v.IsExact → (fuel : Nat) → (tokensOf v).length < fuel →
    value fuel (tokensOf v ++ ts) = some (v, ts)
  | .null, _, _ + 1, _ => rfl
  | .bool _, _, _ + 1, _ => rfl
  | .num n, hv, fuel + 1, _ => by
    show some (numberJson (numberText n), ts) = _
    rw [numberJson_numberText hv]
  | .str _, _, _ + 1, _ => rfl
  | .arr vs, hv, fuel + 1, h => by
    rw [tokensOf, length_append, length_cons, length_singleton] at h
    have hitems := items_itemTokens ts vs hv fuel (by omega)
    rw [tokensOf, append_assoc]
    show (items fuel (itemTokens vs ++ .closeBracket :: ts)).map _ = _
    rw [hitems]
    rfl
  | .obj fs, hv, fuel + 1, h => by
    rw [tokensOf, length_append, length_cons, length_singleton] at h
    have hfields := fields_fieldTokens ts fs hv.2 fuel (by omega)
    rw [tokensOf, append_assoc]
    show (fields fuel (fieldTokens fs ++ .closeBrace :: ts)).map _ = _
    rw [hfields, Option.map_some, ofFields_of_ascending hv.1]

theorem items_itemTokens (ts : List Token) : (vs : List Json) → ExactItems vs → (fuel : Nat) →
    (itemTokens vs).length + 1 < fuel → items fuel (itemTokens vs ++ .closeBracket :: ts) = some (vs, ts)
  | [], _, _ + 1, _ => rfl
  | [v], hv, fuel + 1, h => by
    rw [itemTokens] at h ⊢
    obtain ⟨fuel, rfl⟩ := Nat.exists_eq_add_one_of_ne_zero (show fuel ≠ 0 by omega)
    rw [items_tokensOf, value_tokensOf _ v hv.1 _ (by omega)]
    rfl
  | v :: v' :: vs, hv, fuel + 1, h => by
    simp only [itemTokens, length_append, length_cons] at h
    have hrest := items_itemTokens ts (v' :: vs) hv.2 fuel (by omega)
    simp only [itemTokens, append_assoc, cons_append] at hrest ⊢
    rw [items_tokensOf, value_tokensOf _ v hv.1 _ (by omega)]
    exact congrArg (Option.map _) hrest

theorem fields_fieldTokens (ts : List Token) : (fs : Fields) → ExactFields fs → (fuel : Nat) →
    (fieldTokens fs).length + 1 < fuel → fields fuel (fieldTokens fs ++ .closeBrace :: ts) = some (fs, ts)
  | [], _, _ + 1, _ => rfl
  | [(n, v)], hv, fuel + 1, h => by
    simp only [fieldTokens, length_cons] at h
    obtain ⟨fuel, rfl⟩ := Nat.exists_eq_add_one_of_ne_zero (show fuel ≠ 0 by omega)
    rw [fieldTokens, cons_append, cons_append, fields_name, value_tokensOf _ v hv.1 _ (by omega)]
    rfl
  | (n, v) :: f :: fs, hv, fuel + 1, h => by
    simp only [fieldTokens, length_append, length_cons] at h
    have hrest := fields_fieldTokens ts (f :: fs) hv.2 fuel (by omega)
    simp only [fieldTokens, append_assoc, cons_append] at hrest ⊢
    rw [fields_name, value_tokensOf _ v hv.1 _ (by omega)]
    exact congrArg (Option.map _) hrest

end

theorem ofText?_pretty {v : Json} (hv : v.IsExact) : ofText? v.pretty = some v := by
  have hstops : Stops [] := fun c hc ↦ by cases hc
  have htokens : tokens? v.pretty.toList = some (tokensOf v) := by
    have hyields := yields_value 0 [] v hv hstops
    rw [append_nil] at hyields
    rw [pretty, String.toList_ofList, hyields.tokens?_eq]
  have hvalue := value_tokensOf [] v hv _ (Nat.lt_succ_self _)
  rw [append_nil] at hvalue
  have hne : tokensOf v ≠ [] := by cases v <;> simp [tokensOf]
  simp only [ofText?, htokens]
  rw [hvalue]

end Values

end Lenient

end AnalysisServer.Json
