import AnalysisServer.Text.Basic

namespace AnalysisServer.Source

open List

/-- A kind of literal: the quote at its ends, whether it has to end with its line, whether a backslash is special
in it, and whether it has classes, in which the quote is a character like others. -/
structure LiteralKind where
  quote : Char
  oneLine : Bool := true
  escapes : Bool := true
  classes : Bool := false
deriving DecidableEq

inductive Lexeme where
  | comment (text : List Char)
  | literal (text : List Char)
  | other (c : Char)
  | unclosedComment (text : List Char)
  | unclosedTemplate (text : List Char)
deriving DecidableEq

namespace Lexeme

def text : Lexeme → List Char
  | comment text => text
  | literal text => text
  | other c => [c]
  | unclosedComment text => text
  | unclosedTemplate text => text

/-- The character of code that a lexeme counts as: a literal counts as its first one. -/
def mark : Lexeme → Option Char
  | literal text => text.head?
  | other c => if Text.isBlank c then none else some c
  | _ => none

def isClosed : Lexeme → Bool
  | unclosedComment _ => false
  | unclosedTemplate _ => false
  | _ => true

end Lexeme

namespace LiteralKind

def template : LiteralKind :=
  { quote := '\x60', oneLine := false }

def regex (escapes : Bool) : LiteralKind :=
  { quote := '/', escapes, classes := true }

def stops (k : LiteralKind) (c : Char) : Bool :=
  k.oneLine && c == '\n'

/-- Whether a character inside a literal leads into a class, unless it ends the literal. -/
def next (k : LiteralKind) (inClass : Bool) (c : Char) : Option Bool :=
  if k.stops c = true ∨ c = k.quote ∧ inClass = false then none
  else if k.classes = true ∧ c = '[' then some true
  else if k.classes = true ∧ c = ']' then some false
  else some inClass

/-- A literal with its text, which ends in a certain way: a template has to be closed. -/
def lexeme (k : LiteralKind) (tail text : List Char) : Lexeme :=
  if k.oneLine = true ∨ tail = [k.quote] then .literal text else .unclosedTemplate text

end LiteralKind

/-- Characters that stand inside a literal, from inside or outside a class to inside or outside one. -/
inductive Span (k : LiteralKind) : Bool → List Char → Bool → Prop
  | nil (a : Bool) : Span k a [] a
  | plain {a a' b c cs} (hc : k.escapes = true → c ≠ '\\')
      (hnext : k.next a c = some a') (h : Span k a' cs b) : Span k a (c :: cs) b
  | escape {a b c cs} (hk : k.escapes = true) (hc : k.stops c = false)
      (h : Span k a cs b) : Span k a ('\\' :: c :: cs) b

def StopsBefore (stops : Char → Bool) (rest : List Char) : Prop :=
  ∀ c ∈ rest.head?, stops c = true

/-- The end of a literal before the rest of a source: its quote, or nothing where it breaks off, or a backslash
that takes nothing with it. -/
inductive Tail (k : LiteralKind) : Bool → List Char → List Char → Prop
  | closed {rest} : Tail k false [k.quote] rest
  | broken {b rest} (h : StopsBefore k.stops rest) : Tail k b [] rest
  | lone {b rest} (hk : k.escapes = true) (h : StopsBefore k.stops rest) : Tail k b ['\\'] rest

inductive Opening where
  | lineComment
  | blockComment
  | literal (k : LiteralKind)
  | other
deriving DecidableEq

/-- What a lexing depends on: the source is a script or a style, and a backslash is special in regular
expressions or is not. -/
structure Grammar where
  script : Bool
  regexEscapes : Bool := true

/-- A regular expression may follow no code at all or one of these characters. -/
def operators : List Char :=
  "(,=:[!&|?\x7b\x7d;+-*%<>~^".toList

def opening (g : Grammar) (last : Option Char) : List Char → Opening
  | '/' :: '*' :: _ => .blockComment
  | '/' :: '/' :: _ => if g.script then .lineComment else .other
  | '/' :: _ => if g.script && last.all operators.contains then .literal (.regex g.regexEscapes) else .other
  | '"' :: _ => .literal { quote := '"' }
  | '\'' :: _ => .literal { quote := '\'' }
  | '\x60' :: _ => if g.script then .literal .template else .other
  | _ => .other

/-- How far that goes which begins at some place, and what follows it. A block comment goes to the first mark that
ends it. -/
inductive Extends : Opening → Lexeme → List Char → Prop
  | lineComment {body rest} (hbody : '\n' ∉ body) (hrest : StopsBefore (· == '\n') rest) :
      Extends .lineComment (.comment ('/' :: '/' :: body)) rest
  | blockComment {body rest} (hbody : ¬ ['*', '/'] <:+: body ++ ['*']) :
      Extends .blockComment (.comment ('/' :: '*' :: body ++ ['*', '/'])) rest
  | unclosedComment {body} (hbody : ¬ ['*', '/'] <:+: body) :
      Extends .blockComment (.unclosedComment ('/' :: '*' :: body)) []
  | literal {k body tail rest b} (hbody : Span k false body b)
      (htail : Tail k b tail rest) : Extends (.literal k) (k.lexeme tail (k.quote :: body ++ tail)) rest
  | other {c rest} : Extends .other (.other c) rest

/-- The lexemes of a source, after the given last character of code. -/
inductive Lexes (g : Grammar) : Option Char → List Char → List Lexeme → Prop
  | nil {last} : Lexes g last [] []
  | cons {last l rest ls}
      (h : Extends (opening g last (l.text ++ rest)) l rest) (hls : Lexes g (l.mark.or last) rest ls) :
      Lexes g last (l.text ++ rest) (l :: ls)

section Literals

variable {k : LiteralKind} {a b b' : Bool} {u v tail tail' rest rest' : List Char} {c : Char}

theorem text_lexeme (k : LiteralKind) (tail text : List Char) : (k.lexeme tail text).text = text := by
  unfold LiteralKind.lexeme
  split <;> rfl

theorem LiteralKind.next_of_stops (h : k.stops c = true) (a : Bool) : k.next a c = none :=
  if_pos (.inl h)

theorem LiteralKind.stops_eq_false (hc : c ≠ '\n') : k.stops c = false := by
  simp [stops, hc]

theorem StopsBefore.ne_cons {stops : Char → Bool} (h : StopsBefore stops rest) (hc : stops c = false)
    (cs : List Char) : rest ≠ c :: cs := by
  rintro rfl
  cases hc.symm.trans (h c rfl)

theorem exists_tail (k : LiteralKind) (a : Bool) (cs : List Char) :
    ∃ u b tail rest, cs = u ++ tail ++ rest ∧ Span k a u b ∧ Tail k b tail rest := by
  -- an escape goes on two characters further
  induction hn : cs.length using Nat.strongRecOn generalizing a cs with
  | ind n ih =>
    cases cs with
    | nil => exact ⟨[], a, [], [], rfl, .nil a, .broken nofun⟩
    | cons c cs =>
      subst hn
      by_cases hc : k.escapes = true → c ≠ '\\'
      · cases hnext : k.next a c with
        | some a' =>
          obtain ⟨u, b, tail, rest, rfl, hu, htail⟩ := ih cs.length (Nat.lt_succ_self _) a' cs rfl
          exact ⟨c :: u, b, tail, rest, rfl, .plain hc hnext hu, htail⟩
        | none =>
          have hend : k.stops c = true ∨ c = k.quote ∧ a = false := by
            unfold LiteralKind.next at hnext
            split at hnext
            · assumption
            · repeat' split at hnext
              all_goals cases hnext
          obtain hstop | ⟨rfl, rfl⟩ := hend
          · exact ⟨[], a, [], c :: cs, rfl, .nil a, .broken (by simpa [StopsBefore] using hstop)⟩
          · exact ⟨[], false, [k.quote], cs, rfl, .nil _, .closed⟩
      · obtain ⟨hk, hc⟩ := Classical.not_imp.mp hc
        obtain rfl := Decidable.not_not.mp hc
        by_cases hrest : StopsBefore k.stops cs
        · exact ⟨[], a, ['\\'], cs, rfl, .nil a, .lone hk hrest⟩
        · cases cs with
          | nil => exact absurd nofun hrest
          | cons c' cs =>
            have hc' : k.stops c' = false := by simpa [StopsBefore] using hrest
            obtain ⟨u, b, tail, rest, rfl, hu, htail⟩ :=
              ih cs.length (by simp only [length_cons]; omega) a cs rfl
            exact ⟨'\\' :: c' :: u, b, tail, rest, rfl, .escape hk hc' hu, htail⟩

/-- The quote of a literal neither starts an escape nor ends the line. -/
def LiteralKind.IsPlain (k : LiteralKind) : Prop :=
  k.quote ≠ '\\' ∧ k.quote ≠ '\n'

variable (hk : k.IsPlain)

include hk

theorem Tail.not_span (h : Tail k a tail rest) (hu : Span k a u b) (hne : u ≠ []) (v : List Char) :
    tail ++ rest ≠ u ++ v := by
  intro he
  have hbackslash : k.stops '\\' = false := k.stops_eq_false (by decide)
  cases hu with
  | nil => exact hne rfl
  | plain hc hnext =>
    cases h with
    | closed =>
      obtain ⟨rfl, -⟩ := List.cons.inj he
      cases hnext.symm.trans (if_pos (.inr ⟨rfl, rfl⟩))
    | broken h =>
      subst he
      cases hnext.symm.trans (k.next_of_stops (h _ rfl) a)
    | lone hk h => exact hc hk (List.cons.inj he).1.symm
  | escape hescapes hc =>
    cases h with
    | closed => exact hk.1 (List.cons.inj he).1
    | broken h => exact h.ne_cons hbackslash _ he
    | lone _ h => exact h.ne_cons hc _ (List.cons.inj he).2

theorem Span.unique (h : Span k a u b) (h' : Span k a v b') (ht : Tail k b tail rest) (ht' : Tail k b' tail' rest')
    (he : u ++ (tail ++ rest) = v ++ (tail' ++ rest')) : u = v ∧ b = b' := by
  induction h generalizing v with
  | nil a =>
    cases h' with
    | nil => exact ⟨rfl, rfl⟩
    | plain hc hnext hv => exact absurd he (ht.not_span hk (.plain hc hnext hv) (cons_ne_nil _ _) _)
    | escape hescapes hc hv => exact absurd he (ht.not_span hk (.escape hescapes hc hv) (cons_ne_nil _ _) _)
  | plain hc hnext hu ih =>
    cases h' with
    | nil => exact absurd he.symm (ht'.not_span hk (.plain hc hnext hu) (cons_ne_nil _ _) _)
    | plain hc' hnext' hv =>
      obtain ⟨rfl, he'⟩ := List.cons.inj he
      cases hnext.symm.trans hnext'
      obtain ⟨rfl, rfl⟩ := ih hv ht he'
      exact ⟨rfl, rfl⟩
    | escape hescapes => exact absurd (List.cons.inj he).1 (hc hescapes)
  | escape hescapes hc hu ih =>
    cases h' with
    | nil => exact absurd he.symm (ht'.not_span hk (.escape hescapes hc hu) (cons_ne_nil _ _) _)
    | plain hc' => exact absurd (List.cons.inj he).1.symm (hc' hescapes)
    | escape _ _ hv =>
      simp only [cons_append, List.cons.injEq, true_and] at he
      obtain ⟨rfl, he⟩ := he
      obtain ⟨rfl, rfl⟩ := ih hv ht he
      exact ⟨rfl, rfl⟩

theorem Tail.unique (h : Tail k b tail rest) (h' : Tail k b tail' rest') (he : tail ++ rest = tail' ++ rest') :
    tail = tail' := by
  have hquote : k.stops k.quote = false := k.stops_eq_false hk.2
  have hbackslash : k.stops '\\' = false := k.stops_eq_false (by decide)
  cases h with
  | closed =>
    cases h' with
    | closed => rfl
    | broken h' => exact absurd he.symm (h'.ne_cons hquote _)
    | lone => exact absurd (List.cons.inj he).1 hk.1
  | broken h =>
    cases h' with
    | closed => exact absurd he (h.ne_cons hquote _)
    | broken => rfl
    | lone => exact absurd he (h.ne_cons hbackslash _)
  | lone _ h =>
    cases h' with
    | closed => exact absurd (List.cons.inj he).1.symm hk.1
    | broken h' => exact absurd he.symm (h'.ne_cons hbackslash _)
    | lone => rfl

end Literals

section Comments

variable {body body' rest rest' : List Char}

theorem body_of_stopsBefore (h : '\n' ∉ body) (h' : '\n' ∉ body') (hrest : StopsBefore (· == '\n') rest)
    (hrest' : StopsBefore (· == '\n') rest') (he : body ++ rest = body' ++ rest') : body = body' := by
  have hextra {body extra rest} (hrest : StopsBefore (· == '\n') (extra ++ rest))
      (h : '\n' ∉ body ++ extra) : extra = [] := by
    cases extra with
    | nil => rfl
    | cons c cs =>
      obtain rfl : c = '\n' := by simpa using hrest c rfl
      simp at h
  obtain ⟨extra, rfl, rfl⟩ | ⟨extra, rfl, rfl⟩ := append_eq_append_iff.mp he
  · rw [hextra hrest h', append_nil]
  · rw [hextra hrest' h, append_nil]

theorem exists_line (cs : List Char) :
    ∃ body rest, cs = body ++ rest ∧ '\n' ∉ body ∧ StopsBefore (· == '\n') rest := by
  induction cs with
  | nil => exact ⟨[], [], rfl, nofun, nofun⟩
  | cons c cs ih =>
    by_cases hc : c = '\n'
    · exact ⟨[], c :: cs, rfl, nofun, by simpa [StopsBefore] using hc⟩
    · obtain ⟨body, rest, rfl, hbody, hrest⟩ := ih
      exact ⟨c :: body, rest, rfl, by simp [Ne.symm hc, hbody], hrest⟩

abbrev endMark : List Char :=
  ['*', '/']

theorem body_of_endMark (h : ¬ endMark <:+: body ++ ['*']) (h' : ¬ endMark <:+: body' ++ ['*'])
    (he : body ++ endMark ++ rest = body' ++ endMark ++ rest') : body = body' := by
  have hextra {body extra rest rest'} (he : endMark ++ rest = extra ++ (endMark ++ rest'))
      (h : ¬ endMark <:+: body ++ extra ++ ['*']) : extra = [] := by
    match extra, he with
    | [], _ => rfl
    | [c], he => cases (List.cons.inj (List.cons.inj he).2).1
    | c :: c' :: extra, he =>
      obtain ⟨rfl, hrest⟩ := List.cons.inj he
      obtain ⟨rfl, -⟩ := List.cons.inj hrest
      exact absurd ⟨body, extra ++ ['*'], by simp⟩ h
  rw [append_assoc, append_assoc] at he
  obtain ⟨extra, rfl, hrest⟩ | ⟨extra, rfl, hrest⟩ := append_eq_append_iff.mp he
  · rw [hextra hrest h', append_nil]
  · rw [hextra hrest h, append_nil]

theorem exists_endMark (cs : List Char) : ¬ endMark <:+: cs ∨
    ∃ body rest, cs = body ++ endMark ++ rest ∧ ¬ endMark <:+: body ++ ['*'] := by
  induction cs with
  | nil => exact .inl (by decide)
  | cons c cs ih =>
    by_cases hmark : endMark <+: c :: cs
    · obtain ⟨rest, hrest⟩ := hmark
      exact .inr ⟨[], rest, hrest.symm, by decide⟩
    · obtain hfree | ⟨body, rest, rfl, hfree⟩ := ih
      · exact .inl fun h ↦ (infix_cons_iff.mp h).elim hmark hfree
      · refine .inr ⟨c :: body, rest, rfl, fun h ↦ ?_⟩
        obtain hfront | hin := infix_cons_iff.mp h
        · refine hmark (hfront.trans ?_)
          exact ⟨'/' :: rest, by simp⟩
        · exact hfree hin

end Comments

section Lexemes

variable {g : Grammar} {last : Option Char} {o : Opening} {l l' : Lexeme} {cs rest rest' : List Char}

theorem opening_spec (g : Grammar) (last : Option Char) (cs : List Char) :
    match opening g last cs with
    | .lineComment => ∃ r, cs = '/' :: '/' :: r
    | .blockComment => ∃ r, cs = '/' :: '*' :: r
    | .literal k => k.IsPlain ∧ ∃ r, cs = k.quote :: r
    | .other => True := by
  fun_cases opening g last cs <;> simp [LiteralKind.IsPlain, LiteralKind.regex, LiteralKind.template]

theorem exists_extends (g : Grammar) (last : Option Char) (hcs : cs ≠ []) :
    ∃ l rest, cs = l.text ++ rest ∧ Extends (opening g last cs) l rest := by
  have hspec := opening_spec g last cs
  cases ho : opening g last cs with
  | lineComment =>
    rw [ho] at hspec
    obtain ⟨r, rfl⟩ := hspec
    obtain ⟨body, rest, rfl, hbody, hrest⟩ := exists_line r
    exact ⟨_, rest, rfl, .lineComment hbody hrest⟩
  | blockComment =>
    rw [ho] at hspec
    obtain ⟨r, rfl⟩ := hspec
    obtain hfree | ⟨body, rest, rfl, hbody⟩ := exists_endMark r
    · exact ⟨_, [], (append_nil _).symm, .unclosedComment hfree⟩
    · exact ⟨_, rest, rfl, .blockComment hbody⟩
  | literal k =>
    rw [ho] at hspec
    obtain ⟨-, r, rfl⟩ := hspec
    obtain ⟨body, b, tail, rest, rfl, hbody, htail⟩ := exists_tail k false r
    refine ⟨_, rest, ?_, .literal hbody htail⟩
    rw [text_lexeme]
    rfl
  | other =>
    cases cs with
    | nil => exact absurd rfl hcs
    | cons c rest => exact ⟨.other c, rest, rfl, .other⟩

theorem Extends.text_ne_nil (h : Extends o l rest) : l.text ≠ [] := by
  cases h with
  | literal =>
    rw [text_lexeme]
    exact cons_ne_nil _ _
  | _ => exact cons_ne_nil _ _

theorem Extends.unique (h : Extends (opening g last (l.text ++ rest)) l rest)
    (h' : Extends (opening g last (l.text ++ rest)) l' rest') (he : l.text ++ rest = l'.text ++ rest') : l = l' := by
  have hspec := opening_spec g last (l.text ++ rest)
  generalize opening g last (l.text ++ rest) = o at h h' hspec
  cases h with
  | lineComment hbody hrest =>
    cases h' with | lineComment hbody' hrest' =>
    rw [body_of_stopsBefore hbody hbody' hrest hrest' (List.cons.inj (List.cons.inj he).2).2]
  | blockComment hbody =>
    cases h' with
    | blockComment hbody' => rw [body_of_endMark hbody hbody' (List.cons.inj (List.cons.inj he).2).2]
    | unclosedComment hfree =>
      exact absurd ⟨_, _, (List.cons.inj (List.cons.inj he).2).2.trans (append_nil _)⟩ hfree
  | unclosedComment hfree =>
    cases h' with
    | blockComment =>
      exact absurd ⟨_, _, (List.cons.inj (List.cons.inj he).2).2.symm.trans (append_nil _)⟩ hfree
    | unclosedComment =>
      rw [append_nil, append_nil] at he
      exact congrArg Lexeme.unclosedComment he
  | literal hbody htail =>
    cases h' with | literal hbody' htail' =>
    rw [text_lexeme, text_lexeme, append_assoc, append_assoc] at he
    have he := (List.cons.inj he).2
    obtain ⟨rfl, rfl⟩ := hbody.unique hspec.1 hbody' htail htail' he
    rw [htail.unique hspec.1 htail' (append_cancel_left he)]
  | other =>
    cases h'
    rw [(List.cons.inj he).1]

theorem exists_lexes (g : Grammar) (last : Option Char) (cs : List Char) : ∃ ls, Lexes g last cs ls := by
  induction hn : cs.length using Nat.strongRecOn generalizing last cs with
  | ind n ih =>
    by_cases hcs : cs = []
    · subst hcs
      exact ⟨[], .nil⟩
    · obtain ⟨l, rest, rfl, h⟩ := exists_extends g last hcs
      have hlength : rest.length < n := by
        have hpos := length_pos_iff.mpr h.text_ne_nil
        rw [← hn, length_append]
        omega
      obtain ⟨ls, hls⟩ := ih rest.length hlength (l.mark.or last) rest rfl
      exact ⟨l :: ls, .cons h hls⟩

theorem Lexes.unique {ls ls' : List Lexeme} (h : Lexes g last cs ls) (h' : Lexes g last cs ls') : ls = ls' := by
  induction h generalizing ls' with
  | nil =>
    generalize hcs : [] = cs at h'
    cases h' with
    | nil => rfl
    | cons h' => exact absurd (append_eq_nil_iff.mp hcs.symm).1 h'.text_ne_nil
  | @cons last l rest ls h hls ih =>
    generalize hcs : l.text ++ rest = cs at h'
    cases h' with
    | nil => exact absurd (append_eq_nil_iff.mp hcs).1 h.text_ne_nil
    | cons h' hls' =>
      rw [← hcs] at h'
      obtain rfl := h.unique h' hcs
      obtain rfl := append_cancel_left hcs
      rw [ih hls']

end Lexemes

end AnalysisServer.Source
