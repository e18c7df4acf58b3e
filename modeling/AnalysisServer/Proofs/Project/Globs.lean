import AnalysisServer.Glob

namespace AnalysisServer

open List

theorem ByteArray.toList_eq (b : ByteArray) : b.toList = b.data.toList := by
  have hloop (i : Nat) (r : List UInt8) : ByteArray.toList.loop b i r = r.reverse ++ b.data.toList.drop i := by
    fun_induction ByteArray.toList.loop b i r with
    | case1 i r hi ih =>
      have hget : b.get! i = b.data.toList[i] := getElem!_pos b.data i hi
      rw [ih, hget, reverse_cons, append_assoc, singleton_append, ← drop_eq_getElem_cons hi]
    | case2 i r hi =>
      have hi : b.data.toList.length ≤ i := Nat.le_of_not_lt hi
      rw [drop_eq_nil_of_le hi, append_nil]
  exact (hloop 0 []).trans (by simp)

namespace Glob

def bytes (cs : List Char) : List UInt8 :=
  cs.flatMap utf8

theorem bytes_cons (c : Char) (cs : List Char) : bytes (c :: cs) = utf8 c ++ bytes cs :=
  flatMap_cons

theorem bytes_append (cs cs' : List Char) : bytes (cs ++ cs') = bytes cs ++ bytes cs' :=
  flatMap_append

theorem utf8_ne_nil (c : Char) : utf8 c ≠ [] := by
  intro h
  rw [utf8, ByteArray.toList_eq] at h
  have hsize : (String.singleton c).toUTF8.size = 0 := congrArg List.length h
  simp at hsize

theorem toList_toUTF8 (s : String) : s.toUTF8.toList = bytes s.toList := by
  have hlist (cs : List Char) : (String.ofList cs).toUTF8.toList = bytes cs := by
    induction cs with
    | nil =>
      rw [ByteArray.toList_eq]
      rfl
    | cons c cs ih =>
      have hcons : String.ofList (c :: cs) = String.singleton c ++ String.ofList cs :=
        String.toList_inj.mp (by simp)
      rw [hcons, bytes_cons, ← ih, utf8]
      simp only [String.toUTF8_eq_toByteArray, ByteArray.toList_eq, String.toByteArray_append,
        ByteArray.data_append, Array.toList_append]
  rw [← hlist, String.ofList_toList]

section Matching

def single (b : UInt8) : Piece :=
  .one (.single b)

theorem zipWith_none (s : ByteSet) (l : List UInt8) (n : Nat) :
    List.zipWith (fun b m ↦ m && s.contains b) l (List.replicate n false) = List.replicate (min l.length n) false := by
  induction l generalizing n with
  | nil => simp
  | cons b l ih =>
    cases n with
    | zero => rfl
    | succ n => rw [replicate_succ, zipWith_cons_cons, ih, Bool.false_and, length_cons,
        Nat.succ_min_succ, replicate_succ]

mutual

theorem Piece.reach_append (b t : List UInt8) : (p : Piece) → (m : List Bool) →
    p.reach (b ++ t) (List.replicate b.length false ++ m) = List.replicate b.length false ++ p.reach t m
  | .one s, m => by
    rw [Piece.reach, Piece.reach, advance, advance, zipWith_append (by simp), zipWith_none, Nat.min_self,
      ← cons_append, ← replicate_succ, replicate_succ', append_assoc, singleton_append]
  | .run, m => by
    rw [Piece.reach]
    induction b.length with
    | zero => rfl
    | succ k ih => rw [replicate_succ, cons_append, spread, Bool.or_false, ih, cons_append]
  | .choice branches, m => reachAny_append b t branches m

theorem reachAll_append (b t : List UInt8) : (ps : List Piece) → (m : List Bool) →
    reachAll (b ++ t) ps (List.replicate b.length false ++ m) = List.replicate b.length false ++ reachAll t ps m
  | [], _ => rfl
  | p :: ps, m => by
    rw [reachAll, p.reach_append b t m]
    exact reachAll_append b t ps _

theorem reachAny_append (b t : List UInt8) : (bs : List (List Piece)) → (m : List Bool) →
    reachAny (b ++ t) bs (List.replicate b.length false ++ m) = List.replicate b.length false ++ reachAny t bs m
  | [], m => by simp [reachAny]
  | ps :: bs, m => by
    rw [reachAny, reachAny, reachAll_append b t ps m, reachAny_append b t bs m, zipWith_append rfl]
    simp

end

theorem reachAll_literal (b t : List UInt8) :
    reachAll (b ++ t) (b.map single) (start (b ++ t)) = List.replicate b.length false ++ start t := by
  induction b with
  | nil => rfl
  | cons c b ih =>
    have hfirst : (single c).reach (c :: (b ++ t)) (start (c :: (b ++ t))) = [false] ++ start (b ++ t) := by
      have hc : (ByteSet.single c).contains c = true := by simp [ByteSet.contains, ByteSet.single]
      simp only [single, Piece.reach, advance, start, map_cons, zipWith_cons_cons, hc, Bool.true_and,
        map_const', ← replicate_succ, zipWith_none]
      simp
    rw [map_cons, cons_append, reachAll, hfirst]
    exact (reachAll_append [c] (b ++ t) (b.map single) _).trans (by rw [ih]; rfl)

theorem fits_append (b t : List UInt8) (ps : List Piece) : fits (b.map single ++ ps) (b ++ t) = fits ps t := by
  have hall (qs : List Piece) (m : List Bool) :
      reachAll (b ++ t) (qs ++ ps) m = reachAll (b ++ t) ps (reachAll (b ++ t) qs m) := by
    induction qs generalizing m with
    | nil => rfl
    | cons q qs ih => exact ih _
  rw [fits, hall, reachAll_literal, reachAll_append, fits, List.getLast?_append]
  cases (reachAll t ps (start t)).getLast? with
  | some x => rfl
  | none => cases hb : b.length <;> simp [List.getLast?_replicate]

end Matching

section Parsing

variable {d : Draft} {ts : List Token}

namespace Draft

def bottomOf (tokens : List Token) : List (List (List Token) × List Token) → List Token
  | [] => tokens
  | (_, outer) :: groups => bottomOf outer groups

/-- Something stands outside all groups, and no double star in front. -/
def Rooted (d : Draft) : Prop :=
  (d.groups = [] → d.tokens ≠ []) ∧ .anyFront ∉ bottomOf d.tokens d.groups

def ground (pre : List Token) : List (List (List Token) × List Token) → List (List (List Token) × List Token)
  | [] => []
  | [(done, outer)] => [(done, outer ++ pre)]
  | group :: groups => group :: ground pre groups

/-- The draft with further tokens before all that it has. -/
def onto (pre : List Token) (d : Draft) : Draft :=
  { d with tokens := if d.groups.isEmpty then d.tokens ++ pre else d.tokens, groups := ground pre d.groups }

section

variable (pre : List Token)

theorem push_onto (d : Draft) (t : Token) : (d.onto pre).push t = (d.push t).onto pre := by
  obtain ⟨before, tokens, _ | ⟨group, groups⟩⟩ := d <;> rfl

theorem openGroup_onto (d : Draft) : (d.onto pre).openGroup = d.openGroup.onto pre := by
  obtain ⟨before, tokens, _ | ⟨group, groups⟩⟩ := d <;> rfl

theorem nextBranch_onto (d : Draft) : (d.onto pre).nextBranch = d.nextBranch.onto pre := by
  obtain ⟨before, tokens, _ | ⟨group, _ | ⟨group', groups⟩⟩⟩ := d <;> rfl

theorem closeGroup_onto (d : Draft) : (d.onto pre).closeGroup = d.closeGroup.map (onto pre) := by
  obtain ⟨before, tokens, _ | ⟨group, _ | ⟨group', groups⟩⟩⟩ := d <;> rfl

theorem component_onto (h : d.Rooted) (t : Token) : (d.onto pre).component t = (d.component t).onto pre := by
  obtain ⟨before, _ | ⟨first, rest⟩, _ | ⟨group, groups⟩⟩ := d
  · exact absurd rfl (h.1 rfl)
  · rfl
  · cases first <;> rfl
  · cases first <;> rfl

theorem isEmpty_groups_onto (d : Draft) : (d.onto pre).groups.isEmpty = d.groups.isEmpty := by
  obtain ⟨before, tokens, _ | ⟨group, _ | ⟨group', groups⟩⟩⟩ := d <;> rfl

end

namespace Rooted

theorem push (h : d.Rooted) (t : Token) (ht : t ≠ .anyFront ∨ d.groups ≠ []) : (d.push t).Rooted := by
  obtain ⟨before, tokens, _ | ⟨group, groups⟩⟩ := d
  · refine ⟨fun _ ↦ cons_ne_nil _ _, fun hmem ↦ ?_⟩
    obtain he | hmem := mem_cons.mp hmem
    · exact ht.elim (fun hne ↦ hne he.symm) fun hne ↦ hne rfl
    · exact h.2 hmem
  · exact ⟨nofun, h.2⟩

theorem openGroup (h : d.Rooted) : d.openGroup.Rooted :=
  ⟨nofun, h.2⟩

theorem nextBranch (h : d.Rooted) : d.nextBranch.Rooted := by
  obtain ⟨before, tokens, _ | ⟨group, groups⟩⟩ := d
  · exact h.push _ (.inl nofun)
  · exact ⟨nofun, h.2⟩

theorem closeGroup {d' : Draft} (h : d.Rooted) (hclose : d.closeGroup = some d') : d'.Rooted := by
  obtain ⟨before, tokens, _ | ⟨group, _ | ⟨group', groups⟩⟩⟩ := d
  · cases hclose
  · cases hclose
    exact ⟨fun _ ↦ cons_ne_nil _ _, fun hmem ↦ (mem_cons.mp hmem).elim nofun h.2⟩
  · cases hclose
    exact ⟨nofun, h.2⟩

theorem component (h : d.Rooted) {t : Token} (ht : t ≠ .anyFront) : (d.component t).Rooted := by
  obtain ⟨before, _ | ⟨first, rest⟩, groups⟩ := d
  · exact h
  · have hreplaced : Rooted ⟨before, t :: rest, groups⟩ := by
      refine ⟨fun _ ↦ cons_ne_nil _ _, ?_⟩
      cases groups with
      | nil => exact fun hmem ↦ h.2 (.tail _ ((mem_cons.mp hmem).resolve_left ht.symm))
      | cons group groups => exact h.2
    cases first <;> first | exact h | exact hreplaced

end Rooted

end Draft

open Draft in
theorem doubleStar_onto (pre : List Token) (h : d.Rooted) (cs : List Char) :
    doubleStar (d.onto pre) cs = ((doubleStar d cs).1.onto pre, (doubleStar d cs).2) ∧
      (doubleStar d cs).1.Rooted := by
  have htokens : (d.onto pre).tokens.isEmpty = d.tokens.isEmpty := by
    obtain ⟨before, _ | ⟨first, rest⟩, _ | ⟨group, groups⟩⟩ := d
    · exact absurd rfl (h.1 rfl)
    · rfl
    · rfl
    · rfl
  have hbefore : (d.onto pre).before = d.before := rfl
  have hloose : ((d.push .star).push .star).Rooted := (h.push .star (.inl nofun)).push .star (.inl nofun)
  simp only [doubleStar, htokens, isEmpty_groups_onto, hbefore, push_onto, component_onto pre h]
  repeat' split
  all_goals first
    | exact ⟨rfl, hloose⟩
    | exact ⟨rfl, h.component nofun⟩
    | exact ⟨rfl, h.push _ (.inr fun hg ↦ h.1 hg (isEmpty_iff.mp ‹_›))⟩

open Draft in
theorem parse_onto (pre : List Token) (fuel : Nat) (d : Draft) (cs : List Char) (h : d.Rooted) :
    parse fuel (d.onto pre) cs = (parse fuel d cs).map (onto pre) ∧ ∀ d', parse fuel d cs = some d' → d'.Rooted := by
  fun_induction parse fuel d cs with
  | case1 fuel d =>
    refine ⟨by rw [parse]; rfl, ?_⟩
    rintro d' ⟨⟩
    exact h
  | case2 | case13 => exact ⟨rfl, nofun⟩
  | case3 fuel d cs ih | case12 fuel d e cs ih =>
    rw [parse, push_onto]
    exact ih (h.push _ (.inl nofun))
  | case4 fuel d cs d' more hstar before ih =>
    have honto := doubleStar_onto pre h cs
    rw [hstar] at honto
    rw [parse, honto.1]
    exact ih honto.2
  | case5 fuel d cs hcs ih =>
    rw [parse, push_onto]
    · exact ih (h.push _ (.inl nofun))
    · exact hcs
  | case6 fuel d cs negated cs' hnegated ranges rest hset ih =>
    simp only [parse, push_onto, hnegated, hset]
    exact ih (h.push _ (.inl nofun))
  | case7 fuel d cs negated cs' hnegated hset =>
    simp only [parse, hnegated, hset]
    exact ⟨rfl, nofun⟩
  | case8 fuel d cs ih =>
    rw [parse, openGroup_onto]
    exact ih h.openGroup
  | case9 fuel d cs d' hclose ih =>
    have hclosed : d'.Rooted := Rooted.closeGroup h hclose
    simp only [parse, closeGroup_onto, hclose]
    exact ih hclosed
  | case10 fuel d cs hclose =>
    simp only [parse, closeGroup_onto, hclose]
    exact ⟨rfl, nofun⟩
  | case11 fuel d cs ih =>
    rw [parse, nextBranch_onto]
    exact ih h.nextBranch
  | case14 fuel d c cs _ _ _ _ _ _ _ ih =>
    rw [parse, push_onto]
    · exact ih (h.push _ (.inl nofun))
    all_goals assumption

def isPlain (c : Char) : Bool :=
  c != '*' && c != '?' && c != '[' && c != '\x7b' && c != '\x7d' && c != '\\'

variable {base : List Char}

theorem parse_plain (hbase : ∀ c ∈ base, isPlain c = true) (fuel : Nat) (before : Option Char)
    (tokens : List Token) (cs : List Char) : parse (base.length + fuel) ⟨before, tokens, []⟩ (base ++ cs) =
      parse fuel ⟨base.getLast?.or before, (base.map .literal).reverse ++ tokens, []⟩ cs := by
  induction base generalizing before tokens with
  | nil => simp
  | cons c base ih =>
    obtain ⟨hc, hbase⟩ := forall_mem_cons.mp hbase
    have hstep : parse (base.length + fuel + 1) ⟨before, tokens, []⟩ (c :: (base ++ cs)) =
        parse (base.length + fuel) ⟨some c, .literal c :: tokens, []⟩ (base ++ cs) := by
      by_cases hcomma : c = ','
      · rw [hcomma]
        rfl
      · simp only [isPlain, Bool.and_eq_true, bne_iff_ne, ne_eq] at hc
        rw [parse]
        · rfl
        all_goals simp [hc, hcomma]
    rw [length_cons, Nat.add_right_comm, cons_append, hstep, ih hbase, map_cons, reverse_cons,
      append_assoc, List.getLast?_cons]
    cases base.getLast? <;> rfl

theorem tokens?_append (hbase : ∀ c ∈ base, isPlain c = true) (cs : List Char) :
    tokens? (String.ofList (base ++ '/' :: cs)) = (tokens? (String.ofList ('/' :: cs))).map (base.map .literal ++ ·) ∧
    ∀ ts, tokens? (String.ofList ('/' :: cs)) = some ts → .anyFront ∉ ts := by
  have hrooted : Draft.Rooted ⟨some '/', [.literal '/'], []⟩ := ⟨nofun, by simp [Draft.bottomOf]⟩
  have hlong : parse (base ++ '/' :: cs).length {} (base ++ '/' :: cs) =
      parse cs.length (Draft.onto (base.map .literal).reverse ⟨some '/', [.literal '/'], []⟩) cs := by
    rw [length_append, parse_plain hbase, append_nil]
    rfl
  have hshort : parse ('/' :: cs).length {} ('/' :: cs) = parse cs.length ⟨some '/', [.literal '/'], []⟩ cs := rfl
  obtain ⟨honto, hnext⟩ := parse_onto (base.map .literal).reverse cs.length _ cs hrooted
  simp only [tokens?, String.toList_ofList, hlong, hshort, honto]
  cases hd : parse cs.length ⟨some '/', [.literal '/'], []⟩ cs with
  | none => exact ⟨rfl, nofun⟩
  | some d =>
    have hroot := hnext d hd
    simp only [Option.map_some, Draft.isEmpty_groups_onto]
    cases hg : d.groups with
    | nil =>
      rw [Draft.Rooted, hg] at hroot
      refine ⟨by simp [Draft.onto, hg], ?_⟩
      rintro ts ⟨⟩
      simpa [Draft.bottomOf] using hroot.2
    | cons group groups => exact ⟨rfl, nofun⟩

theorem ofTokens_eq (h : .anyFront ∉ ts) : ofTokens ts = ⟨piecesOf ts, 1 + depthOf ts⟩ := by
  unfold ofTokens
  split
  · simp at h
  · rfl

theorem ofTokens_literals (base : List Char) (h : .anyFront ∉ ts) :
    ofTokens (base.map .literal ++ ts) = ⟨(bytes base).map single ++ (ofTokens ts).pieces, (ofTokens ts).depth⟩ := by
  have hpieces : piecesOf (base.map .literal ++ ts) = (bytes base).map single ++ piecesOf ts := by
    induction base with
    | nil => rfl
    | cons c base ih =>
      rw [map_cons, cons_append, piecesOf, ih, bytes_cons, map_append, append_assoc]
      rfl
  have hdepth : depthOf (base.map .literal ++ ts) = depthOf ts := by
    clear hpieces
    induction base with
    | nil => rfl
    | cons c base ih => rw [map_cons, cons_append, depthOf, Token.depth, ih, Nat.zero_max]
  rw [ofTokens_eq (by simp [h]), ofTokens_eq h, hpieces, hdepth]

end Parsing

theorem ofPattern?_append (hbase : ∀ c ∈ base, isPlain c = true) (cs : List Char) :
    (ofPattern? (String.ofList (base ++ '/' :: cs))).map depth = (ofPattern? (String.ofList ('/' :: cs))).map depth ∧
    ∀ t, (ofPattern? (String.ofList (base ++ '/' :: cs))).any (·.isMatch (String.ofList (base ++ t))) =
      (ofPattern? (String.ofList ('/' :: cs))).any (·.isMatch (String.ofList t)) := by
  obtain ⟨htokens, hfront⟩ := tokens?_append hbase cs
  rw [ofPattern?, htokens, ofPattern?]
  cases hts : tokens? (String.ofList ('/' :: cs)) with
  | none => exact ⟨rfl, fun _ ↦ rfl⟩
  | some ts =>
    simp only [Option.map_some, ofTokens_literals base (hfront ts hts), true_and, Option.any_some, isMatch,
      toList_toUTF8, String.toList_ofList, bytes_append]
    exact fun t ↦ fits_append _ _ _

theorem ofPattern?_plain (hbase : ∀ c ∈ base, isPlain c = true) :
    ∃ g, ofPattern? (String.ofList base) = some g ∧ g.depth = 1 ∧
      ∀ c t, g.isMatch (String.ofList (base ++ c :: t)) = false := by
  have hparse := parse_plain hbase 0 none [] []
  have htokens : tokens? (String.ofList base) = some (base.map .literal ++ []) := by
    simp only [tokens?, String.toList_ofList]
    rw [append_nil, Nat.add_zero, parse] at hparse
    rw [hparse]
    simp
  refine ⟨_, by rw [ofPattern?, htokens, Option.map_some, ofTokens_literals base not_mem_nil], rfl, fun c t ↦ ?_⟩
  have hbytes : (bytes (c :: t)).length ≠ 0 := by simp [bytes_cons, utf8_ne_nil]
  rw [isMatch, toList_toUTF8, String.toList_ofList, bytes_append]
  refine (fits_append (bytes base) (bytes (c :: t)) []).trans ?_
  rw [fits, reachAll, start, map_const', List.getLast?_cons, List.getLast?_replicate, if_neg hbytes]
  rfl

end Glob

end AnalysisServer
