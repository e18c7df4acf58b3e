import AnalysisServer.Proofs.Path.Names

namespace AnalysisServer

open List

theorem Component.compare_name (s s' : String) : compare (name s) (name s') = compare s s' :=
  Ordering.then_eq

instance : Std.LawfulEqOrd Component where
  compare_self {c} := by
    cases c with
    | name s => rw [Component.compare_name, Std.compare_self]
    | _ => rfl
  eq_of_compare {c c'} h := by
    cases c with
    | name s =>
      cases c' with
      | name s' =>
        rw [Component.compare_name] at h
        rw [Std.LawfulEqOrd.eq_of_compare h]
      | _ => cases h
    | _ => cases c' <;> first | rfl | cases h

def Component.rank : Component → Nat
  | root => 0
  | current => 1
  | parent => 2
  | name _ => 3

def Component.text : Component → String
  | name s => s
  | _ => ""

theorem Component.compare_eq :
    (compare : Component → Component → Ordering) = compareLex (compareOn rank) (compareOn text) := by
  funext c c'
  cases c with
  | name s =>
    cases c' with
    | name s' => exact compare_name s s'
    | _ => rfl
  | _ => cases c' <;> rfl

instance : Std.TransOrd Component := by
  have htrans : Std.TransCmp (compareLex (compareOn Component.rank) (compareOn Component.text)) := inferInstance
  rwa [← Component.compare_eq] at htrans

instance : Std.TransCmp Path.order :=
  inferInstanceAs (Std.TransCmp (compareOn Path.components))

theorem Path.order_eq_iff {p q : Path} : p.order q = .eq ↔ p.components = q.components :=
  Std.LawfulEqOrd.compare_eq_iff_eq

theorem Path.same_iff {p q : Path} : p.same q = true ↔ p.components = q.components :=
  beq_iff_eq

theorem Path.not_same_iff {p q : Path} : p.same q = false ↔ p.components ≠ q.components :=
  beq_eq_false_iff_ne

theorem Path.not_same_symm {p q : Path} (h : p.same q = false) : q.same p = false :=
  not_same_iff.mpr (not_same_iff.mp h).symm

namespace PathMap

variable {α : Type} {p q : Path} {a : α} {m : PathMap α} {es : List (Path × α)}

theorem keys_insert_subset (h : q ∈ keys (insert p a m)) : q = p ∨ q ∈ keys m := by
  induction m with
  | nil => simpa [keys, insert] using h
  | cons e m ih =>
    obtain ⟨p', b⟩ := e
    simp only [insert] at h
    split at h
    · simpa [keys] using h
    · exact .inr h
    · obtain rfl | h := mem_cons.mp h
      · exact .inr (.head _)
      · exact (ih h).imp_right (mem_cons_of_mem _)

theorem mem_keys_insert (h : q ∈ keys m) : q ∈ keys (insert p a m) := by
  induction m with
  | nil => cases h
  | cons e m ih =>
    obtain ⟨p', b⟩ := e
    simp only [insert]
    split
    · exact .tail _ h
    · exact h
    · obtain rfl | h := mem_cons.mp h
      · exact mem_cons_self
      · exact .tail _ (ih h)

theorem exists_mem_keys_insert (p : Path) (a : α) (m : PathMap α) :
    ∃ q ∈ keys (insert p a m), q.components = p.components := by
  induction m with
  | nil => exact ⟨p, mem_singleton.mpr rfl, rfl⟩
  | cons e m ih =>
    obtain ⟨p', b⟩ := e
    simp only [insert]
    split
    · exact ⟨p, mem_cons_self, rfl⟩
    · rename_i ho
      exact ⟨p', mem_cons_self, (Path.order_eq_iff.mp ho).symm⟩
    · obtain ⟨q, hq, he⟩ := ih
      exact ⟨q, .tail _ hq, he⟩

theorem keys_ofList_subset : q ∈ keys (ofList es) → q ∈ es.map Prod.fst := by
  refine foldlRecOn (motive := fun m ↦ q ∈ keys m → q ∈ es.map Prod.fst) es _ nofun fun m ih e he h ↦ ?_
  obtain rfl | h := keys_insert_subset h
  · exact mem_map_of_mem he
  · exact ih h

theorem exists_mem_keys_ofList (h : p ∈ es.map Prod.fst) : ∃ q ∈ keys (ofList es), q.components = p.components := by
  have hfold (es : List (Path × α)) (m : PathMap α) (h : p ∈ es.map Prod.fst) :
      ∃ q ∈ keys (es.foldl (fun m e ↦ insert e.1 e.2 m) m), q.components = p.components := by
    induction es generalizing m with
    | nil => cases h
    | cons e es ih =>
      obtain rfl | h := mem_cons.mp h
      · obtain ⟨q, hq, he⟩ := exists_mem_keys_insert e.1 e.2 m
        exact ⟨q, foldlRecOn (motive := (q ∈ keys ·)) es _ hq fun _ hq _ _ ↦ mem_keys_insert hq, he⟩
      · exact ih _ h
  exact hfold es [] h

theorem perm_insert (h : ∀ e ∈ m, p.same e.1 = false) : (insert p a m).Perm ((p, a) :: m) := by
  induction m with
  | nil => exact .refl _
  | cons e m ih =>
    obtain ⟨q, b⟩ := e
    simp only [insert]
    split
    · exact .refl _
    · rename_i ho
      exact (Path.not_same_iff.mp (h _ (.head _)) (Path.order_eq_iff.mp ho)).elim
    · exact ((ih fun e he ↦ h e (.tail _ he)).cons _).trans (.swap _ _ _)

theorem perm_ofList (h : es.Pairwise fun e e' ↦ e.1.same e'.1 = false) : (ofList es).Perm es := by
  have hfold (es : List (Path × α)) (m : PathMap α) (h : (m ++ es).Pairwise fun e e' ↦ e.1.same e'.1 = false) :
      (es.foldl (fun m e ↦ insert e.1 e.2 m) m).Perm (m ++ es) := by
    induction es generalizing m with
    | nil => simp
    | cons e es ih =>
      have hmove : (insert e.1 e.2 m ++ es).Perm (m ++ e :: es) := by
        refine ((perm_insert fun e' he' ↦ Path.not_same_symm ?_).append_right es).trans perm_middle.symm
        exact (pairwise_append.mp h).2.2 e' he' e (.head _)
      exact (ih _ ((hmove.pairwise_iff Path.not_same_symm).mpr h)).trans hmove
  exact hfold es [] h

theorem pairwise_ofList (h : es.Pairwise fun e e' ↦ e.1.same e'.1 = false) :
    (ofList es).Pairwise fun e e' ↦ e.1.same e'.1 = false :=
  ((perm_ofList h).pairwise_iff Path.not_same_symm).mpr h

theorem get?_of_mem (h : m.Pairwise fun e e' ↦ e.1.same e'.1 = false) (hmem : (p, a) ∈ m) : get? p m = some a := by
  induction m with
  | nil => cases hmem
  | cons e m ih =>
    obtain ⟨hne, hrest⟩ := pairwise_cons.mp h
    rw [get?, List.find?_cons]
    obtain rfl | hmem := mem_cons.mp hmem
    · rw [Path.same_iff.mpr rfl]
      rfl
    · rw [hne _ hmem]
      exact ih hrest hmem

/-- The paths come in their order, and none of them twice. -/
def Ascending (m : PathMap α) : Prop :=
  m.Pairwise fun e e' ↦ e.1.order e'.1 = .lt

theorem not_same_of_order (h : p.order q = .lt) : p.same q = false := by
  refine Path.not_same_iff.mpr fun he ↦ ?_
  rw [Path.order_eq_iff.mpr he] at h
  cases h

theorem Ascending.insert (h : Ascending m) (p : Path) (a : α) : Ascending (insert p a m) := by
  induction m with
  | nil => exact pairwise_singleton _ _
  | cons e m ih =>
    obtain ⟨q, b⟩ := e
    obtain ⟨hq, hm⟩ := pairwise_cons.mp h
    simp only [PathMap.insert]
    split
    · rename_i hlt
      refine pairwise_cons.mpr ⟨fun e he ↦ ?_, h⟩
      obtain rfl | he := mem_cons.mp he
      · exact hlt
      · exact Std.TransCmp.lt_trans hlt (hq e he)
    · exact pairwise_cons.mpr ⟨hq, hm⟩
    · rename_i hgt
      refine pairwise_cons.mpr ⟨fun e he ↦ ?_, ih hm⟩
      obtain he | he := keys_insert_subset (mem_map_of_mem he)
      · rw [he]
        exact Std.OrientedCmp.lt_of_gt hgt
      · obtain ⟨e', he', heq⟩ := mem_map.mp he
        exact heq ▸ hq e' he'

theorem get?_insert (p q : Path) (a : α) (m : PathMap α) :
    get? q (insert p a m) = if p.same q then some a else get? q m := by
  induction m with
  | nil =>
    simp only [insert, get?, List.find?_cons, List.find?_nil]
    split <;> simp_all
  | cons e rest ih =>
    obtain ⟨q', b⟩ := e
    rw [insert]
    split
    · simp only [get?, List.find?_cons]
      split <;> simp_all
    · rename_i hsame
      have hq : q'.same q = p.same q := by
        rw [Bool.eq_iff_iff, Path.same_iff, Path.same_iff, Path.order_eq_iff.mp hsame]
      simp only [get?, List.find?_cons, hq]
      split <;> simp_all
    · rename_i hgt
      have hne : p.components ≠ q'.components := fun h ↦ by simp [Path.order_eq_iff.mpr h] at hgt
      by_cases hq : q'.same q = true
      · have hp : p.same q = false := by
          rw [Path.not_same_iff]
          exact fun h ↦ hne (h.trans (Path.same_iff.mp hq).symm)
        simp [get?, hq, hp]
      · simpa [get?, List.find?_cons, hq] using ih

theorem keys_insert_of_contains (h : Ascending m) (hp : contains p m = true) : keys (insert p a m) = keys m := by
  induction m with
  | nil => cases hp
  | cons e m ih =>
    obtain ⟨q, b⟩ := e
    obtain ⟨hq, hm⟩ := pairwise_cons.mp h
    obtain ⟨e, he, hsame⟩ := any_eq_true.mp hp
    simp only [insert]
    split
    · rename_i hlt
      have hless : p.order e.1 = .lt := by
        obtain rfl | he := mem_cons.mp he
        · exact hlt
        · exact Std.TransCmp.lt_trans hlt (hq e he)
      cases (Path.not_same_symm (not_same_of_order hless)).symm.trans hsame
    · rfl
    · rename_i hgt
      obtain rfl | he := mem_cons.mp he
      · cases (Path.order_eq_iff.mpr (Path.same_iff.mp hsame).symm).symm.trans hgt
      · exact congrArg (q :: ·) (ih hm (any_eq_true.mpr ⟨e, he, hsame⟩))

theorem ascending_ofList (es : List (Path × α)) : Ascending (ofList es) :=
  foldlRecOn (motive := Ascending) es _ .nil fun _ h e _ ↦ h.insert e.1 e.2

theorem ofList_eq_of_perm (h : Ascending m) (hp : es.Perm m) : ofList es = m := by
  have happart : es.Pairwise fun e e' ↦ e.1.same e'.1 = false :=
    (hp.pairwise_iff Path.not_same_symm).mpr (h.imp not_same_of_order)
  refine List.Perm.eq_of_pairwise (fun e e' _ _ hlt hgt ↦ ?_) (ascending_ofList es) h ((perm_ofList happart).trans hp)
  cases hgt.symm.trans (Std.OrientedCmp.gt_of_lt hlt)

end PathMap

namespace Path

variable {p : Path} {ps : List Path}

theorem eq_of_components {q : Path} (hp : p.normalize = p) (hq : q.normalize = q)
    (h : p.components = q.components) : p = q := by
  obtain ⟨names, hnames, he⟩ := p.exists_normalize
  obtain ⟨names', hnames', he'⟩ := q.exists_normalize
  rw [hp] at he
  rw [hq] at he'
  rw [he, he', components_ofNames hnames, components_ofNames hnames'] at h
  have hinj : Function.Injective Component.name := fun _ _ h ↦ Component.name.inj h
  rw [he, he']
  cases ha : p.isAbsolute <;> cases ha' : q.isAbsolute <;>
    simp only [ha, ha', Bool.false_eq_true, if_true, if_false, nil_append, singleton_append,
      List.cons.injEq, true_and, map_inj_right (fun _ _ ↦ hinj.eq_iff.mp)] at h ⊢
  · rw [h]
  · cases names <;> cases h
  · cases names' <;> cases h
  · rw [h]

theorem mem_of_mem_sorted (h : p ∈ sorted ps) : p ∈ ps := by
  simpa using PathMap.keys_ofList_subset h

theorem exists_mem_sorted (h : p ∈ ps) : ∃ q ∈ sorted ps, q.components = p.components :=
  PathMap.exists_mem_keys_ofList (by simpa using h)

end Path

end AnalysisServer
