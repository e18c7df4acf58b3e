import AnalysisServer.Source.LineMetrics

namespace AnalysisServer.Source

open List

theorem mem_insertLine {n m : Nat} {ns : List Nat} : m ∈ insertLine n ns ↔ m = n ∨ m ∈ ns := by
  fun_induction insertLine n ns <;> simp_all [or_left_comm]

theorem pairwise_insertLine (n : Nat) {ns : List Nat} (h : ns.Pairwise (· < ·)) :
    (insertLine n ns).Pairwise (· < ·) := by
  fun_induction insertLine n ns with
  | case1 => exact pairwise_singleton _ _
  | case2 m ms hlt =>
    refine .cons (fun a ha ↦ ?_) h
    obtain rfl | ha := mem_cons.mp ha
    · exact hlt
    · exact Nat.lt_trans hlt ((pairwise_cons.mp h).1 a ha)
  | case3 => exact h
  | case4 m ms hlt hne ih =>
    obtain ⟨hm, hms⟩ := pairwise_cons.mp h
    refine .cons (fun a ha ↦ ?_) (ih hms)
    obtain rfl | ha := mem_insertLine.mp ha
    · omega
    · exact hm a ha

theorem insertLine_add (n k : Nat) (ns : List Nat) :
    insertLine (n + k) (ns.map (· + k)) = (insertLine n ns).map (· + k) := by
  fun_induction insertLine n ns <;> simp_all [insertLine]

theorem mem_foldl_insertLine {m : Nat} {ns acc : List Nat} :
    m ∈ ns.foldl (fun acc n ↦ insertLine n acc) acc ↔ m ∈ ns ∨ m ∈ acc := by
  induction ns generalizing acc with
  | nil => simp
  | cons n ns ih => rw [foldl_cons, ih, mem_insertLine, mem_cons, or_left_comm, or_assoc]

theorem mem_ascending {m : Nat} {ns : List Nat} : m ∈ ascending ns ↔ m ∈ ns := by
  rw [ascending, mem_foldl_insertLine, or_iff_left not_mem_nil]

theorem pairwise_ascending (ns : List Nat) : (ascending ns).Pairwise (· < ·) :=
  foldlRecOn (motive := List.Pairwise (· < ·)) ns _ .nil fun _ h n _ ↦ pairwise_insertLine n h

theorem ascending_add (k : Nat) (ns : List Nat) : ascending (ns.map (· + k)) = (ascending ns).map (· + k) := by
  have hfold (acc : List Nat) : (ns.map (· + k)).foldl (fun acc n ↦ insertLine n acc) (acc.map (· + k)) =
      (ns.foldl (fun acc n ↦ insertLine n acc) acc).map (· + k) := by
    induction ns generalizing acc with
    | nil => rfl
    | cons n ns ih => rw [map_cons, foldl_cons, insertLine_add, ih, foldl_cons]
  exact hfold []

end AnalysisServer.Source
