import AnalysisServer.Json.Lenient
import AnalysisServer.Json.Printer
import Mathlib.Data.List.Basic

namespace AnalysisServer

open List

section Digits

variable {c : Char} {n : Nat}

theorem Document.digit?_of_isDigit (h : c.isDigit = true) : digit? c = some (c.toNat - '0'.toNat) := by
  rw [Char.isDigit, Bool.and_eq_true, decide_eq_true_eq, decide_eq_true_eq] at h
  exact if_pos h

theorem eq_zero_of_isDigit (h : c.isDigit = true) (hc : c.toNat - '0'.toNat = 0) : c = '0' := by
  rw [Char.isDigit, Bool.and_eq_true, decide_eq_true_eq, decide_eq_true_eq] at h
  have hle : '0'.toNat ≤ c.toNat := UInt32.le_iff_toNat_le.mp h.1
  exact Char.toNat_inj.mp (by omega)

theorem Document.digits_eq_map {cs : List Char} (h : ∀ c ∈ cs, c.isDigit = true) :
    digits cs = (cs.map fun c ↦ c.toNat - '0'.toNat, []) := by
  induction cs with
  | nil => rfl
  | cons c cs ih =>
    have hrest := ih fun c' hc' ↦ h c' (.tail _ hc')
    rw [digits, digit?_of_isDigit (h c (.head _)), hrest]
    rfl

theorem isDigit_of_mem_toDigits {n : Nat} {c : Char} (h : c ∈ Nat.toDigits 10 n) : c.isDigit = true :=
  Nat.isDigit_of_mem_toDigits (by decide) (by decide) h

theorem head?_toDigits (h : 0 < n) : (Nat.toDigits 10 n).head? ≠ some '0' := by
  induction n using Nat.strongRecOn with
  | ind n ih =>
    by_cases hn : n < 10
    · have hfew : ∀ k < 10, 0 < k → [Nat.digitChar k].head? ≠ some '0' := by decide
      rw [Nat.toDigits_of_lt_base hn]
      exact hfew n hn h
    · rw [Nat.toDigits_of_base_le (by decide) (by omega), List.head?_append_of_ne_nil _ Nat.toDigits_ne_nil]
      exact ih (n / 10) (by omega) (by omega)

theorem Document.wholePart_toDigits (n : Nat) :
    wholePart (Nat.toDigits 10 n) = some ((Nat.toDigits 10 n).map fun c ↦ c.toNat - '0'.toNat, []) := by
  have hdigits := digits_eq_map fun c hc ↦ @isDigit_of_mem_toDigits n c hc
  rw [wholePart, hdigits]
  split
  · rename_i he
    exact absurd (map_eq_nil_iff.mp (Prod.mk.inj he).1) Nat.toDigits_ne_nil
  · rename_i he
    obtain ⟨c, cs, hcs, hc, hrest⟩ := map_eq_cons_iff.mp (Prod.mk.inj he).1
    have hn : n ≠ 0 := by
      rintro rfl
      rw [Nat.toDigits_of_lt_base (by decide)] at hcs
      cases hcs
      cases hrest
    have hdigit := isDigit_of_mem_toDigits (hcs ▸ mem_cons_self)
    refine absurd ?_ (head?_toDigits (Nat.pos_of_ne_zero hn))
    rw [hcs, List.head?_cons, Option.some.injEq]
    exact eq_zero_of_isDigit hdigit hc
  · rfl

end Digits

namespace Decimal

theorem le_foldl_digits (ds : List Nat) (word : Nat) : word ≤ ds.foldl (fun n d ↦ n * 10 + d) word := by
  induction ds generalizing word with
  | nil => exact Nat.le_refl _
  | cons d ds ih => exact Nat.le_trans (by omega) (ih (word * 10 + d))

variable {ds : List Nat}

theorem gather_eq {word : Nat} (taken : Nat) (h : ds.foldl (fun n d ↦ n * 10 + d) word < wordLimit) :
    gather word taken ds = (ds.foldl (fun n d ↦ n * 10 + d) word, taken + ds.length, []) := by
  induction ds generalizing word taken with
  | nil => rfl
  | cons d ds ih =>
    have hd : word * 10 + d < wordLimit := Nat.lt_of_le_of_lt (le_foldl_digits ds _) h
    rw [gather, if_pos hd, ih _ h]
    simp only [foldl_cons, length_cons, Nat.add_assoc, Nat.add_comm 1]

theorem value?_whole (negative : Bool) (h : ofDigits ds < wordLimit) :
    Numeral.value? ⟨negative, ds, none, none⟩ = some (Value.ofWord negative (ofDigits ds)) := by
  rw [Numeral.value?, gather_eq 0 h]
  rfl

end Decimal

theorem Document.number?_toDigits (negative : Bool) (h : n < Decimal.wordLimit) :
    number? ⟨negative, (Nat.toDigits 10 n).map fun c ↦ c.toNat - '0'.toNat, none, none⟩ =
      match Decimal.Value.ofWord negative n with
      | .int i => some (.int i)
      | .float bits => some (.float bits) := by
  have hvalue : Decimal.ofDigits ((Nat.toDigits 10 n).map fun c ↦ c.toNat - '0'.toNat) = n := by
    rw [Decimal.ofDigits, foldl_map]
    refine Eq.trans ?_ (@Nat.ofDigitChars_ten_toDigits n)
    simp only [Nat.ofDigitChars, Nat.mul_comm 10]
  rw [number?, Decimal.value?_whole negative (hvalue.symm ▸ h), hvalue, Option.map_some]
  cases Decimal.Value.ofWord negative n <;> rfl

theorem Document.numeral_toDigits (n : Nat) : numeral (Nat.toDigits 10 n) =
    some (⟨false, (Nat.toDigits 10 n).map fun c ↦ c.toNat - '0'.toNat, none, none⟩, []) := by
  obtain ⟨c, cs, hcs⟩ := exists_cons_of_ne_nil (@Nat.toDigits_ne_nil n 10)
  have hminus : c ≠ '-' := by
    rintro rfl
    exact absurd (isDigit_of_mem_toDigits (hcs ▸ mem_cons_self)) (by decide)
  have hwhole := wholePart_toDigits n
  rw [hcs] at hwhole ⊢
  rw [numeral]
  · simp only [hwhole, Option.bind_eq_bind, Option.bind_some]
    rfl
  · rintro rest he
    exact hminus (List.cons.inj he).1

theorem Document.numeral_negative (n : Nat) : numeral ('-' :: Nat.toDigits 10 n) =
    some (⟨true, (Nat.toDigits 10 n).map fun c ↦ c.toNat - '0'.toNat, none, none⟩, []) := by
  simp only [numeral, wholePart_toDigits, Option.bind_eq_bind, Option.bind_some]
  rfl

namespace Json

def IsWord : Number → Prop
  | .int i => -9223372036854775808 ≤ i ∧ i < 18446744073709551616
  | .float _ => False

variable {n : Number} {rest : List Char}

theorem mem_numberText (h : IsWord n) (hc : c ∈ numberText n) : c = '-' ∨ c.isDigit = true := by
  match n with
  | .int (.ofNat _) => exact .inr (isDigit_of_mem_toDigits hc)
  | .int (.negSucc _) => exact (mem_cons.mp hc).imp_right isDigit_of_mem_toDigits

theorem Lenient.decimalJson_of {m : Decimal.Numeral} {digits : List Char} (text : List Char)
    (hm : Document.numeral digits = some (m, [])) (hn : Document.number? m = some n) :
    decimalJson text digits = .num n := by
  simp [decimalJson, hm, hn]

theorem Lenient.decimalJson_numberText (h : IsWord n) (text : List Char) :
    decimalJson text (numberText n) = .num n := by
  match n with
  | .int (.ofNat k) =>
    have hk : (k : Int) < 18446744073709551616 := h.2
    have hword : k < Decimal.wordLimit := by
      rw [show Decimal.wordLimit = 18446744073709551616 from rfl]
      omega
    exact decimalJson_of text (Document.numeral_toDigits k) (Document.number?_toDigits false hword)
  | .int (.negSucc k) =>
    have hk : k + 1 ≤ 9223372036854775808 := by
      have := h.1
      omega
    have hword : k + 1 < Decimal.wordLimit := Nat.lt_of_le_of_lt hk (by decide)
    have hvalue : Decimal.Value.ofWord true (k + 1) = .int (.negSucc k) := by
      rw [Decimal.Value.ofWord, if_neg (by decide), if_neg (by omega)]
      rfl
    refine decimalJson_of text (Document.numeral_negative (k + 1)) ?_
    rw [Document.number?_toDigits true hword, hvalue]

theorem Lenient.numberJson_numberText (h : IsWord n) : numberJson (numberText n) = .num n := by
  have hchar {c} (hc : c ∈ numberText n) := mem_numberText h hc
  have hx : 'x' ∉ numberText n := fun hc ↦ absurd (hchar hc) (by decide)
  have hX : 'X' ∉ numberText n := fun hc ↦ absurd (hchar hc) (by decide)
  have hplus : '+' ∉ numberText n := fun hc ↦ absurd (hchar hc) (by decide)
  rw [← decimalJson_numberText h (numberText n), numberJson]
  all_goals intros; simp_all

namespace Lenient

def Stops (rest : List Char) : Prop :=
  ∀ c, rest.head? = some c → c = ',' ∨ c = '\n'

theorem Stops.decimal? (h : Stops rest) (whole : List Char) : decimal? whole rest = some (whole, rest) := by
  have hfraction : fraction? rest = some ([], rest) := by
    rw [fraction?]
    rintro cs rfl
    exact (h '.' rfl).elim (by decide) (by decide)
  have hexponent : exponent? rest = some ([], rest) := by
    rw [exponent?]
    · rintro cs rfl
      exact (h 'e' rfl).elim (by decide) (by decide)
    · rintro cs rfl
      exact (h 'E' rfl).elim (by decide) (by decide)
  simp [Lenient.decimal?, hfraction, hexponent]

theorem Stops.someDigits? (h : Stops rest) {ds : List Char} (hds : ∀ c ∈ ds, c.isDigit = true) (hne : ds ≠ []) :
    someDigits? (ds ++ rest) = some (ds, rest) := by
  have hdigits : ∀ c ∈ ds, isDigit c = true := hds
  have hend : rest.takeWhile isDigit = [] ∧ rest.dropWhile isDigit = rest := by
    cases rest with
    | nil => exact ⟨rfl, rfl⟩
    | cons c cs =>
      have hc : ¬ isDigit c = true := by
        obtain rfl | rfl := h c rfl <;> decide
      exact ⟨takeWhile_cons_of_neg hc, dropWhile_cons_of_neg hc⟩
  obtain ⟨c, cs, rfl⟩ := exists_cons_of_ne_nil hne
  rw [Lenient.someDigits?, takeWhile_append_of_pos hdigits, dropWhile_append_of_pos hdigits, hend.1,
    hend.2, append_nil]

theorem Stops.unsigned? (h : Stops rest) (k : Nat) :
    unsigned? (Nat.toDigits 10 k ++ rest) = some (Nat.toDigits 10 k, rest) := by
  by_cases hk : k = 0
  · subst hk
    rw [Nat.toDigits_of_lt_base (by decide), show [Nat.digitChar 0] = ['0'] from rfl, singleton_append,
      Lenient.unsigned?, h.decimal?]
    · rintro cs rfl
      exact (h 'x' rfl).elim (by decide) (by decide)
    · rintro cs rfl
      exact (h 'X' rfl).elim (by decide) (by decide)
  · obtain ⟨c, cs, hcs⟩ := exists_cons_of_ne_nil (@Nat.toDigits_ne_nil k 10)
    have hzero : c ≠ '0' := by
      rintro rfl
      exact head?_toDigits (Nat.pos_of_ne_zero hk) (by rw [hcs, List.head?_cons])
    have hdigits := h.someDigits? (fun c hc ↦ @isDigit_of_mem_toDigits k c hc) Nat.toDigits_ne_nil
    rw [hcs, cons_append] at hdigits ⊢
    rw [Lenient.unsigned?, hdigits, Option.bind_some, h.decimal?]
    all_goals
      intros
      simp_all

theorem number?_numberText (hn : IsWord n) (h : Stops rest) :
    number? (numberText n ++ rest) = some (numberText n, rest) := by
  match n with
  | .int (.ofNat k) =>
    obtain ⟨c, cs, hcs⟩ := exists_cons_of_ne_nil (@Nat.toDigits_ne_nil k 10)
    have hdigit := isDigit_of_mem_toDigits (hcs ▸ mem_cons_self)
    have hunsigned := h.unsigned? k
    rw [numberText, hcs, cons_append] at *
    rw [number?, hunsigned]
    all_goals
      rintro cs he
      rw [(List.cons.inj he).1] at hdigit
      exact absurd hdigit (by decide)
  | .int (.negSucc k) =>
    rw [numberText, cons_append, number?, h.unsigned?]
    rfl

end Lenient

end Json

end AnalysisServer
