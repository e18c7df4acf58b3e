import AnalysisServer.Proofs.Source.Lexing
import AnalysisServer.Source.Scanner

namespace AnalysisServer.Source

open List

def pairs : List (Char × Char) :=
  [('(', ')'), ('[', ']'), ('\x7b', '\x7d')]

/-- A word of brackets that all have their partners. -/
inductive Balanced : List Char → Prop
  | nil : Balanced []
  | pair {o c u v} (h : (o, c) ∈ pairs) (hu : Balanced u) (hv : Balanced v) : Balanced (o :: u ++ c :: v)

def lineAfter (line : Nat) (ls : List Lexeme) : Nat :=
  line + Text.newlines (ls.flatMap Lexeme.text)

def brackets : Nat → List Lexeme → List (Char × Nat)
  | _, [] => []
  | line, .other c :: ls =>
    if isOpening c || isClosing c then (c, line) :: brackets (lineAfter line [.other c]) ls
    else brackets (lineAfter line [.other c]) ls
  | line, l :: ls => brackets (lineAfter line [l]) ls

def word (w : List (Char × Nat)) : List Char :=
  w.map (·.1)

/-- Lexemes without a fault, which may have open brackets. -/
structure Faultless (ls : List Lexeme) : Prop where
  closed : ∀ l ∈ ls, l.isClosed = true
  viable : ∃ w, Balanced (word (brackets 1 ls) ++ w)

/-- The first fault of a source. -/
inductive FirstFault (ls : List Lexeme) : AnalysisError → Prop
  | stray {before after o c} (hls : ls = before ++ .other c :: after)
      (hbefore : Faultless before) (hc : (o, c) ∈ pairs) (hb : Balanced (word (brackets 1 before))) :
      FirstFault ls (.parsing s!"Unexpected token '{c}'" (some (lineAfter 1 before)))
  | mismatch {before after o o' c x n u v}
      (hls : ls = before ++ .other c :: after) (hbefore : Faultless before) (hc : (o', c) ∈ pairs)
      (hb : brackets 1 before = u ++ (o, n) :: v) (hx : (o, x) ∈ pairs) (hv : Balanced (word v)) (hne : c ≠ x) :
      FirstFault ls (.parsing s!"Unexpected token '{c}', expected '{x}'" (some (lineAfter 1 before)))
  | unclosedComment {before after text}
      (hls : ls = before ++ .unclosedComment text :: after) (hbefore : Faultless before) :
      FirstFault ls (.parsing "Unterminated comment" (some (lineAfter 1 before)))
  | unclosedTemplate {before after text}
      (hls : ls = before ++ .unclosedTemplate text :: after) (hbefore : Faultless before) :
      FirstFault ls (.parsing "Unterminated template literal" (some (lineAfter 1 before)))
  | unclosedBracket {o x n u v} (hls : Faultless ls)
      (hb : brackets 1 ls = u ++ (o, n) :: v) (hx : (o, x) ∈ pairs) (hv : Balanced (word v)) :
      FirstFault ls (.parsing s!"'{x}' expected" (some n))

section Stacks

variable {w u v st st' : List (Char × Nat)} {c o x : Char} {n : Nat}

theorem mem_pairs_iff : (o, x) ∈ pairs ↔ isOpening o = true ∧ closing o = x := by
  constructor
  · intro h
    simp only [pairs, mem_cons, Prod.mk.injEq, not_mem_nil, or_false] at h
    obtain ⟨rfl, rfl⟩ | ⟨rfl, rfl⟩ | ⟨rfl, rfl⟩ := h <;> decide
  · rintro ⟨ho, rfl⟩
    simp only [isOpening, Bool.or_eq_true, beq_iff_eq] at ho
    obtain (rfl | rfl) | rfl := ho <;> decide

theorem isClosing_iff : isClosing c = true ↔ ∃ o, (o, c) ∈ pairs := by
  constructor
  · intro hc
    simp only [isClosing, Bool.or_eq_true, beq_iff_eq] at hc
    obtain (rfl | rfl) | rfl := hc
    · exact ⟨'(', by decide⟩
    · exact ⟨'[', by decide⟩
    · exact ⟨'\x7b', by decide⟩
  · rintro ⟨o, h⟩
    simp only [pairs, mem_cons, Prod.mk.injEq, not_mem_nil, or_false] at h
    obtain ⟨-, rfl⟩ | ⟨-, rfl⟩ | ⟨-, rfl⟩ := h <;> decide

theorem isOpening_of_isClosing (h : isClosing c = true) : isOpening c = false := by
  obtain ⟨o, h⟩ := isClosing_iff.mp h
  simp only [pairs, mem_cons, Prod.mk.injEq, not_mem_nil, or_false] at h
  obtain ⟨-, rfl⟩ | ⟨-, rfl⟩ | ⟨-, rfl⟩ := h <;> decide

/-- What a bracket does to the open ones, the last of which is in front; nothing if it is a wrong closing one. -/
def push? (st : List (Char × Nat)) (b : Char × Nat) : Option (List (Char × Nat)) :=
  if isOpening b.1 then some (b :: st)
  else
    match st with
    | [] => none
    | o :: st => if closing o.1 = b.1 then some st else none

def reduce? (st w : List (Char × Nat)) : Option (List (Char × Nat)) :=
  w.foldlM push? st

theorem reduce?_cons (st : List (Char × Nat)) (b : Char × Nat) (w : List (Char × Nat)) :
    reduce? st (b :: w) = (push? st b).bind (reduce? · w) :=
  rfl

theorem reduce?_append (st u v : List (Char × Nat)) : reduce? st (u ++ v) = (reduce? st u).bind (reduce? · v) :=
  foldlM_append

theorem push?_open (ho : isOpening o = true) (st : List (Char × Nat)) : push? st (o, n) = some ((o, n) :: st) := by
  unfold push?
  rw [if_pos ho]

theorem push?_close (h : (o, c) ∈ pairs) (m n : Nat) (st : List (Char × Nat)) :
    push? ((o, m) :: st) (c, n) = some st := by
  have hopening := isOpening_of_isClosing (isClosing_iff.mpr ⟨o, h⟩)
  simp only [push?, hopening, (mem_pairs_iff.mp h).2, Bool.false_eq_true, if_false, if_true]

theorem eq_of_push?_close (hc : isOpening c = false) (h : push? st (c, n) = some st') :
    ∃ o m, st = (o, m) :: st' ∧ closing o = c := by
  unfold push? at h
  rw [if_neg (by rw [hc]; decide)] at h
  cases st with
  | nil => cases h
  | cons b st =>
    simp only [Option.ite_none_right_eq_some, Option.some.injEq] at h
    obtain ⟨hclosing, rfl⟩ := h
    exact ⟨b.1, b.2, rfl, hclosing⟩

theorem reduce?_balanced {cs : List Char} (h : Balanced cs) (hw : word w = cs) (st : List (Char × Nat)) :
    reduce? st w = some st := by
  induction h generalizing w st with
  | nil =>
    rw [map_eq_nil_iff.mp hw]
    rfl
  | @pair o c _ _ hpair hu hv ihu ihv =>
    obtain ⟨front, back, rfl, hfront, hback⟩ := map_eq_append_iff.mp hw
    obtain ⟨⟨_, m⟩, u, rfl, rfl, rfl⟩ := map_eq_cons_iff.mp hfront
    obtain ⟨⟨_, n⟩, v, rfl, rfl, rfl⟩ := map_eq_cons_iff.mp hback
    rw [cons_append, reduce?_cons, push?_open (mem_pairs_iff.mp hpair).1, Option.bind_some, reduce?_append,
      ihu rfl, Option.bind_some, reduce?_cons, push?_close hpair, Option.bind_some, ihv rfl]

theorem Balanced.append {cs ds : List Char} (h : Balanced cs) (hds : Balanced ds) : Balanced (cs ++ ds) := by
  induction h with
  | nil => exact hds
  | pair hpair hu hv ihu ihv =>
    rw [append_assoc]
    exact .pair hpair hu ihv

inductive Pending : List (Char × Nat) → List (Char × Nat) → Prop
  | nil {w : List (Char × Nat)} (h : Balanced (word w)) : Pending w []
  | cons {u v st : List (Char × Nat)} {o : Char} {n : Nat} (h : Pending u st) (ho : isOpening o = true)
      (hv : Balanced (word v)) : Pending (u ++ (o, n) :: v) ((o, n) :: st)

theorem Pending.append (h : Pending w st) (hv : Balanced (word v)) : Pending (w ++ v) st := by
  cases h with
  | nil h =>
    refine .nil ?_
    rw [word, map_append]
    exact h.append hv
  | cons h ho hu =>
    rw [append_assoc, cons_append]
    refine .cons h ho ?_
    rw [word, map_append]
    exact hu.append hv

theorem Pending.of_reduce? (h : reduce? [] w = some st) : Pending w st := by
  -- from the last bracket back, as the stack tells what came last
  induction hn : w.length generalizing w st with
  | zero =>
    rw [length_eq_zero_iff.mp hn] at h ⊢
    cases h
    exact .nil .nil
  | succ k ih =>
    obtain rfl | ⟨w, ⟨c, n⟩, rfl⟩ := eq_nil_or_concat w
    · cases hn
    · rw [concat_eq_append, reduce?_append] at h
      obtain ⟨st₀, hw, hc⟩ := Option.bind_eq_some_iff.mp h
      have hpending := ih hw (by simpa using hn)
      obtain ⟨st₁, hpush, hst⟩ := Option.bind_eq_some_iff.mp hc
      cases hst
      rw [concat_eq_append]
      cases hopening : isOpening c with
      | true =>
        rw [push?_open hopening] at hpush
        cases hpush
        exact .cons hpending hopening .nil
      | false =>
        obtain ⟨o, m, rfl, hclosing⟩ := eq_of_push?_close hopening hpush
        cases hpending with
        | @cons u v _ _ _ hu ho hv =>
          have hbalanced : Balanced (word ((o, m) :: v ++ [(c, n)])) := by
            simpa [word] using Balanced.pair (mem_pairs_iff.mpr ⟨ho, hclosing⟩) hv .nil
          simpa using hu.append hbalanced

theorem Pending.exists_open (h : Pending w ((o, n) :: st)) :
    ∃ u v, w = u ++ (o, n) :: v ∧ (o, closing o) ∈ pairs ∧ Balanced (word v) := by
  cases h with
  | cons _ ho hv => exact ⟨_, _, rfl, mem_pairs_iff.mpr ⟨ho, rfl⟩, hv⟩

theorem Pending.reduce?_closers (h : Pending w st) : reduce? st (st.map fun b ↦ (closing b.1, 0)) = some [] := by
  induction h with
  | nil => rfl
  | cons h ho hv ih =>
    rw [map_cons, reduce?_cons, push?_close (mem_pairs_iff.mpr ⟨ho, rfl⟩), Option.bind_some, ih]

theorem balanced_of_reduce? (h : reduce? [] w = some []) : Balanced (word w) := by
  cases Pending.of_reduce? h with
  | nil h => exact h

theorem exists_reduce?_iff : (∃ st, reduce? [] w = some st) ↔ ∃ cs, Balanced (word w ++ cs) := by
  constructor
  · rintro ⟨st, h⟩
    have hclosed : reduce? [] (w ++ st.map fun b ↦ (closing b.1, 0)) = some [] := by
      rw [reduce?_append, h, Option.bind_some, (Pending.of_reduce? h).reduce?_closers]
    have hbalanced := balanced_of_reduce? hclosed
    rw [word, map_append] at hbalanced
    exact ⟨_, hbalanced⟩
  · rintro ⟨cs, h⟩
    have hword : word (w ++ cs.map fun c ↦ (c, 0)) = word w ++ cs := by
      simp [word, Function.comp_def]
    have hreduce := reduce?_balanced h hword []
    rw [reduce?_append] at hreduce
    obtain ⟨st, hst, -⟩ := Option.bind_eq_some_iff.mp hreduce
    exact ⟨st, hst⟩

theorem reduce?_open (h : reduce? [] (u ++ (o, n) :: v) = some st) (ho : isOpening o = true)
    (hv : Balanced (word v)) : ∃ st', st = (o, n) :: st' := by
  rw [reduce?_append] at h
  obtain ⟨st', -, hrest⟩ := Option.bind_eq_some_iff.mp h
  rw [reduce?_cons, push?_open ho, Option.bind_some, reduce?_balanced hv rfl] at hrest
  exact ⟨st', (Option.some.inj hrest).symm⟩

end Stacks

section Verdicts

variable {l : Lexeme} {ls before after : List Lexeme} {line : Nat} {st st' : List (Char × Nat)} {e : AnalysisError}

def act (line : Nat) (st : List (Char × Nat)) : Lexeme → Except AnalysisError (List (Char × Nat))
  | .unclosedComment _ => .error (.parsing "Unterminated comment" (some line))
  | .unclosedTemplate _ => .error (.parsing "Unterminated template literal" (some line))
  | .other c =>
    if isOpening c then .ok ((c, line) :: st)
    else if isClosing c then
      match st with
      | [] => .error (.parsing s!"Unexpected token '{c}'" (some line))
      | (o, _) :: st =>
        if closing o = c then .ok st
        else
          let expected := closing o
          .error (.parsing s!"Unexpected token '{c}', expected '{expected}'" (some line))
    else .ok st
  | _ => .ok st

def verdict : Nat → List (Char × Nat) → List Lexeme → Except AnalysisError Unit
  | _, [], [] => .ok ()
  | _, (o, n) :: _, [] =>
    let expected := closing o
    .error (.parsing s!"'{expected}' expected" (some n))
  | line, st, l :: ls =>
    match act line st l with
    | .ok st => verdict (lineAfter line [l]) st ls
    | .error e => .error e

theorem lineAfter_append (line : Nat) (ls ls' : List Lexeme) :
    lineAfter line (ls ++ ls') = lineAfter (lineAfter line ls) ls' := by
  rw [lineAfter, lineAfter, lineAfter, flatMap_append, Text.newlines, Text.newlines, Text.newlines,
    count_append, Nat.add_assoc]

theorem brackets_cons (line : Nat) (l : Lexeme) (ls : List Lexeme) :
    brackets line (l :: ls) = brackets line [l] ++ brackets (lineAfter line [l]) ls := by
  cases l with
  | other c =>
    simp only [brackets]
    split <;> rfl
  | _ => rfl

theorem act_ok_iff : act line st l = .ok st' ↔ l.isClosed = true ∧ reduce? st (brackets line [l]) = some st' := by
  cases l with
  | other c =>
    have hone (b : Char × Nat) : reduce? st [b] = push? st b := by
      rw [reduce?_cons]
      cases push? st b <;> rfl
    cases hopening : isOpening c with
    | true => simp [act, brackets, Lexeme.isClosed, hopening, hone, push?]
    | false =>
      cases hclosing : isClosing c with
      | false => simp [act, brackets, Lexeme.isClosed, hopening, hclosing, reduce?]
      | true =>
        cases st with
        | nil => simp [act, brackets, Lexeme.isClosed, hopening, hclosing, hone, push?]
        | cons b st =>
          by_cases hpair : closing b.1 = c <;>
            simp [act, brackets, Lexeme.isClosed, hopening, hclosing, hone, push?, hpair]
  | unclosedComment text | unclosedTemplate text => exact ⟨nofun, fun h ↦ nomatch h.1⟩
  | _ => exact ⟨fun h ↦ ⟨rfl, congrArg some (Except.ok.inj h)⟩, fun h ↦ congrArg Except.ok (Option.some.inj h.2)⟩

structure Leaves (line : Nat) (st : List (Char × Nat)) (ls : List Lexeme) (st' : List (Char × Nat)) : Prop where
  closed : ∀ l ∈ ls, l.isClosed = true
  reduces : reduce? st (brackets line ls) = some st'

theorem Leaves.cons_iff : Leaves line st (l :: ls) st' ↔
    ∃ st₁, act line st l = .ok st₁ ∧ Leaves (lineAfter line [l]) st₁ ls st' := by
  constructor
  · rintro ⟨hclosed, hreduces⟩
    rw [brackets_cons, reduce?_append] at hreduces
    obtain ⟨st₁, hl, hls⟩ := Option.bind_eq_some_iff.mp hreduces
    exact ⟨st₁, act_ok_iff.mpr ⟨hclosed l (.head _), hl⟩, fun l hl ↦ hclosed l (.tail _ hl), hls⟩
  · rintro ⟨st₁, hact, hclosed, hreduces⟩
    obtain ⟨hl, hreduce⟩ := act_ok_iff.mp hact
    refine ⟨forall_mem_cons.mpr ⟨hl, hclosed⟩, ?_⟩
    rw [brackets_cons, reduce?_append, hreduce, Option.bind_some, hreduces]

theorem Leaves.verdict_append (h : Leaves line st before st') (after : List Lexeme) :
    verdict line st (before ++ after) = verdict (lineAfter line before) st' after := by
  induction before generalizing line st with
  | nil =>
    cases h.reduces
    rfl
  | cons l ls ih =>
    obtain ⟨st₁, hact, hls⟩ := cons_iff.mp h
    rw [cons_append, verdict.eq_def]
    simp only [hact]
    rw [ih hls, ← lineAfter_append]
    rfl

theorem leaves_or_fault (line : Nat) (st : List (Char × Nat)) (ls : List Lexeme) :
    (∃ st', Leaves line st ls st') ∨ ∃ before l after st' e, ls = before ++ l :: after ∧
      Leaves line st before st' ∧ act (lineAfter line before) st' l = .error e := by
  induction ls generalizing line st with
  | nil => exact .inl ⟨st, nofun, rfl⟩
  | cons l ls ih =>
    cases hact : act line st l with
    | error e => exact .inr ⟨[], l, ls, st, e, rfl, ⟨nofun, rfl⟩, hact⟩
    | ok st₁ =>
      obtain ⟨st', hls⟩ | ⟨before, l', after, st', e, rfl, hbefore, hfault⟩ := ih (lineAfter line [l]) st₁
      · exact .inl ⟨st', Leaves.cons_iff.mpr ⟨st₁, hact, hls⟩⟩
      · refine .inr ⟨l :: before, l', after, st', e, rfl, Leaves.cons_iff.mpr ⟨st₁, hact, hbefore⟩, ?_⟩
        rwa [← singleton_append, lineAfter_append]

theorem Leaves.faultless (h : Leaves 1 [] ls st) : Faultless ls :=
  ⟨h.closed, exists_reduce?_iff.mp ⟨st, h.reduces⟩⟩

theorem Faultless.exists_leaves (h : Faultless ls) : ∃ st, Leaves 1 [] ls st := by
  obtain ⟨st, hst⟩ := exists_reduce?_iff.mpr h.viable
  exact ⟨st, h.closed, hst⟩

theorem Leaves.verdict_eq (h : Leaves 1 [] ls st) : verdict 1 [] ls = verdict (lineAfter 1 ls) st [] := by
  rw [← h.verdict_append, append_nil]

theorem Leaves.verdict_fault (h : Leaves 1 [] before st) (hact : act (lineAfter 1 before) st l = .error e) :
    verdict 1 [] (before ++ l :: after) = .error e := by
  rw [h.verdict_append, verdict.eq_def]
  simp only [hact]

theorem verdict_ok_iff : verdict 1 [] ls = .ok () ↔
    (∀ l ∈ ls, l.isClosed = true) ∧ Balanced (word (brackets 1 ls)) := by
  constructor
  · intro h
    obtain ⟨st, hls⟩ | ⟨before, l, after, st, e, rfl, hbefore, hact⟩ := leaves_or_fault 1 [] ls
    · rw [hls.verdict_eq] at h
      cases st with
      | nil => exact ⟨hls.closed, balanced_of_reduce? hls.reduces⟩
      | cons b st => cases h
    · rw [hbefore.verdict_fault hact] at h
      cases h
  · rintro ⟨hclosed, hbalanced⟩
    have hls : Leaves 1 [] ls [] := ⟨hclosed, reduce?_balanced hbalanced rfl []⟩
    rw [hls.verdict_eq]
    rfl

theorem firstFault_of_act (hls : ls = before ++ l :: after) (h : Leaves 1 [] before st)
    (hact : act (lineAfter 1 before) st l = .error e) : FirstFault ls e := by
  cases l with
  | comment text | literal text => cases hact
  | unclosedComment text =>
    cases hact
    exact .unclosedComment hls h.faultless
  | unclosedTemplate text =>
    cases hact
    exact .unclosedTemplate hls h.faultless
  | other c =>
    cases hopening : isOpening c with
    | true => simp [act, hopening] at hact
    | false =>
      cases hclosing : isClosing c with
      | false => simp [act, hopening, hclosing] at hact
      | true =>
        obtain ⟨o', hc⟩ := isClosing_iff.mp hclosing
        cases st with
        | nil =>
          simp only [act, hopening, hclosing, Bool.false_eq_true, if_false, if_true, Except.error.injEq] at hact
          subst hact
          exact .stray hls h.faultless hc (balanced_of_reduce? h.reduces)
        | cons b st =>
          simp only [act, hopening, hclosing, Bool.false_eq_true, if_false, if_true] at hact
          split at hact
          · cases hact
          · rename_i hne
            cases hact
            obtain ⟨u, v, hb, hx, hv⟩ := (Pending.of_reduce? h.reduces).exists_open
            exact .mismatch hls h.faultless hc hb hx hv (Ne.symm hne)

theorem verdict_error_iff : verdict 1 [] ls = .error e ↔ FirstFault ls e := by
  constructor
  · intro h
    obtain ⟨st, hls⟩ | ⟨before, l, after, st, e', rfl, hbefore, hact⟩ := leaves_or_fault 1 [] ls
    · rw [hls.verdict_eq] at h
      cases st with
      | nil => cases h
      | cons b st =>
        cases h
        obtain ⟨u, v, hb, hx, hv⟩ := (Pending.of_reduce? hls.reduces).exists_open
        exact .unclosedBracket hls.faultless hb hx hv
    · rw [hbefore.verdict_fault hact] at h
      cases h
      exact firstFault_of_act rfl hbefore hact
  · intro h
    have hwrong {o c : Char} (hc : (o, c) ∈ pairs) : isOpening c = false ∧ isClosing c = true :=
      ⟨isOpening_of_isClosing (isClosing_iff.mpr ⟨o, hc⟩), isClosing_iff.mpr ⟨o, hc⟩⟩
    cases h with
    | stray hls hbefore hc hb =>
      subst hls
      have hleaves : Leaves 1 [] _ [] := ⟨hbefore.closed, reduce?_balanced hb rfl []⟩
      refine hleaves.verdict_fault ?_
      simp [act, hwrong hc]
    | mismatch hls hbefore hc hb hx hv hne =>
      subst hls
      obtain ⟨st, hleaves⟩ := hbefore.exists_leaves
      obtain ⟨ho, rfl⟩ := mem_pairs_iff.mp hx
      obtain ⟨st', rfl⟩ := reduce?_open (hb ▸ hleaves.reduces) ho hv
      refine hleaves.verdict_fault ?_
      simp [act, hwrong hc, Ne.symm hne]
    | unclosedComment hls hbefore | unclosedTemplate hls hbefore =>
      subst hls
      obtain ⟨st, hleaves⟩ := hbefore.exists_leaves
      exact hleaves.verdict_fault rfl
    | unclosedBracket hls hb hx hv =>
      obtain ⟨st, hleaves⟩ := hls.exists_leaves
      obtain ⟨ho, rfl⟩ := mem_pairs_iff.mp hx
      obtain ⟨st', rfl⟩ := reduce?_open (hb ▸ hleaves.reduces) ho hv
      rw [hleaves.verdict_eq]
      rfl

end Verdicts

end AnalysisServer.Source
