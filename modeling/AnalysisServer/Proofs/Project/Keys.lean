import AnalysisServer.Proofs.Disk.Places
import AnalysisServer.Proofs.Project.Transparency

namespace AnalysisServer

open List

open Disk (IsPlace)
open AnalysisServer.Path (IsName ofNames)

def settled (disk : Disk) (path : Path) : Path :=
  match path.parent?.bind disk.canonical?, path.fileName? with
  | some dir, some name => dir.joinName name
  | _, _ => path

def sourcePath (disk : Disk) (t : Path) : Path :=
  (disk.canonical? t).getD t.normalize

section Keys

variable {disk : Disk} {t c : Path} {s : String} {here : Location}

theorem programKey_absent (h : disk.canonical? t = none) : programKey disk t = settled disk t.normalize := by
  simp only [programKey, h]
  rfl

theorem isName_concat {front : Location} (hfront : ∀ s ∈ front, IsName s) (hs : IsName s) :
    ∀ s' ∈ front ++ [s], IsName s' := by
  intro s' hs'
  obtain hs' | hs' := mem_append.mp hs'
  · exact hfront s' hs'
  · exact mem_singleton.mp hs' ▸ hs

theorem settled_concat {absolute : Bool} {front : Location} {s : String} (hfront : ∀ s ∈ front, IsName s)
    (hs : IsName s) : settled disk (ofNames absolute (front ++ [s])) =
      match disk.canonical? (ofNames absolute front) with
      | some dir => dir.joinName s
      | none => ofNames absolute (front ++ [s]) := by
  have hnames := isName_concat hfront hs
  rw [settled, Path.parent?_ofNames hnames, Path.fileName?_ofNames hnames, if_neg (by simp),
    dropLast_concat, List.getLast?_concat, Option.bind_some]
  cases disk.canonical? (ofNames absolute front) <;> rfl

theorem settled_below (h : IsPlace disk.root here) (hs : IsName s) :
    settled disk (ofNames true (here ++ [s])) = ofNames true (here ++ [s]) := by
  rw [settled_concat h.names hs]
  cases hc : disk.canonical? (ofNames true here) with
  | none => rfl
  | some dir =>
    rw [Disk.canonical?_ofNames h hc]
    exact Path.joinName_ofNames h.names hs

theorem settled_place (h : IsPlace disk.root here) : settled disk (ofNames true here) = ofNames true here := by
  rcases eq_nil_or_concat here with rfl | ⟨front, s, rfl⟩
  · simp [settled, Path.parent?_ofNames]
  · rw [concat_eq_append] at h ⊢
    obtain ⟨n, hn, -⟩ := h.node
    rw [Node.get?_append] at hn
    obtain ⟨m, hm, hn⟩ := Option.bind_eq_some_iff.mp hn
    obtain ⟨es, -, rfl, -⟩ := Node.get?_cons hn
    exact settled_below (.of_dir (fun s hs ↦ h.names s (mem_append_left _ hs)) hm) (h.names s (by simp))

theorem settled_settled (hd : disk.Proper) (t : Path) :
    settled disk (settled disk t.normalize) = settled disk t.normalize ∧
      (settled disk t.normalize).normalize = settled disk t.normalize := by
  -- a path that is not moved stays where it is
  have hstays (h : settled disk t.normalize = t.normalize) :
      settled disk (settled disk t.normalize) = settled disk t.normalize ∧
        (settled disk t.normalize).normalize = settled disk t.normalize := by
    rw [h, t.normalize_normalize]
    exact ⟨h, rfl⟩
  obtain ⟨names, hnames, ht⟩ := t.exists_normalize
  rcases eq_nil_or_concat names with rfl | ⟨front, s, rfl⟩
  · exact hstays (by rw [ht, settled, Path.parent?_ofNames hnames]; rfl)
  · rw [concat_eq_append] at hnames ht
    have hfront : ∀ s ∈ front, IsName s := fun s hs ↦ hnames s (mem_append_left _ hs)
    have hs := hnames s (by simp)
    have hsettled := @settled_concat disk t.isAbsolute front s hfront hs
    cases hc : disk.canonical? (ofNames t.isAbsolute front) with
    | none =>
      rw [hc] at hsettled
      exact hstays (by rw [ht, hsettled])
    | some dir =>
      obtain ⟨here, hplace, rfl⟩ := Disk.exists_place_of_canonical? hd hc
      rw [hc] at hsettled
      rw [ht, hsettled]
      dsimp only
      rw [Path.joinName_ofNames hplace.names hs]
      exact ⟨settled_below hplace hs, Path.normalize_ofNames (isName_concat hplace.names hs)⟩

theorem programKey_canonical (hd : disk.Proper) (h : disk.canonical? t = some c) :
    programKey disk c = c ∧ settled disk c = c ∧ c.normalize = c := by
  obtain ⟨here, hplace, rfl⟩ := Disk.exists_place_of_canonical? hd h
  have hnormal := @Path.normalize_ofNames true here hplace.names
  refine ⟨?_, settled_place hplace, hnormal⟩
  cases hc : disk.canonical? (ofNames true here) with
  | some q => rw [Registry.programKey_found hc, Disk.canonical?_ofNames hplace hc]
  | none => rw [programKey_absent hc, hnormal, settled_place hplace]

theorem programKey_programKey (hd : disk.Proper) (t : Path) :
    programKey disk (programKey disk t) = (disk.canonical? (programKey disk t)).getD (programKey disk t) ∧
      (programKey disk t).normalize = programKey disk t := by
  have hsettled : settled disk (programKey disk t) = programKey disk t ∧
      (programKey disk t).normalize = programKey disk t := by
    cases hc : disk.canonical? t with
    | some c =>
      rw [Registry.programKey_found hc]
      exact (programKey_canonical hd hc).2
    | none =>
      rw [programKey_absent hc]
      exact settled_settled hd t
  refine ⟨?_, hsettled.2⟩
  cases hc : disk.canonical? (programKey disk t) with
  | some c => exact Registry.programKey_found hc
  | none => rw [programKey_absent hc, hsettled.2, hsettled.1, Option.getD_none]

end Keys

end AnalysisServer
