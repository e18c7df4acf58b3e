import AnalysisServer.Proofs.Discovery.Entries
import AnalysisServer.Proofs.Discovery.Rounds

namespace AnalysisServer

open List

open AnalysisServer.Path (IsName)

namespace Node

def fileAt? (n : Node) (names : Location) : Option ByteArray :=
  match n.get? names with
  | some (file bytes) => some bytes
  | _ => none

variable {n m : Node} {s : String} {rest names : Location} {es : List (String × Node)} {bytes : ByteArray}

theorem get?_of_fileAt? (h : n.fileAt? names = some bytes) : n.get? names = some (file bytes) := by
  rw [fileAt?] at h
  split at h
  · cases h
    assumption
  · cases h

theorem fileAt?_cons (s' : String) : (dir ((s', m) :: es)).fileAt? (s :: rest) =
    if s = s' then m.fileAt? rest else (dir es).fileAt? (s :: rest) := by
  simp only [fileAt?, get?_dir_cons]
  by_cases h : s = s' <;> simp only [h, if_true, if_false]

theorem isSome_fileAt? : (n.fileAt? names).isSome ↔ n.kindAt? names = some false := by
  rw [fileAt?, kindAt?]
  cases n.get? names with
  | none => simp
  | some m => cases m <;> simp

end Node

namespace Walk

variable (skip : Location → Bool → Bool) (opens : Location → Bool) {es : List (String × Node)}

def Visit.file? : Visit → Option Location
  | .file names => some names
  | _ => none

def filesIn (es : List (String × Node)) : List Location :=
  (inside skip opens [] es).filterMap Visit.file?

variable {names : Location}

theorem mem_filesIn (h : Node.TidyEntries es) : names ∈ filesIn skip opens es ↔ ∃ s rest, names = s :: rest ∧
    isListed skip opens false [s] rest = true ∧ ((Node.dir es).fileAt? names).isSome = true := by
  have hentry : names ∈ filesIn skip opens es ↔ (names, false) ∈ (inside skip opens [] es).filterMap Visit.entry? := by
    rw [filesIn, mem_filterMap, mem_filterMap]
    refine exists_congr fun v ↦ and_congr_right fun _ ↦ ?_
    cases v <;> simp [Visit.file?, Visit.entry?]
  rw [hentry, mem_entries_iff [] h, Node.isSome_fileAt?]
  constructor <;> rintro ⟨s, rest, rfl, h⟩ <;> exact ⟨s, rest, rfl, h⟩

theorem pairwise_filesIn (h : Node.TidyEntries es) : (filesIn skip opens es).Pairwise (· < ·) := by
  refine (pairwise_inside [] es h).filterMap _ fun v v' hlt names hv names' hv' ↦ ?_
  cases v <;> cases hv
  cases v' <;> cases hv'
  exact hlt

theorem filter_filesIn {es' : List (String × Node)} (h : Node.TidyEntries es)
    (h' : Node.TidyEntries es') (p : Location → Bool) (hsame : ∀ names, p names = true →
      ((Node.dir es).fileAt? names).isSome = ((Node.dir es').fileAt? names).isSome) :
    (filesIn skip opens es).filter p = (filesIn skip opens es').filter p := by
  have hsorted {es} (h : Node.TidyEntries es) : ((filesIn skip opens es).filter p).Pairwise (· < ·) :=
    (pairwise_filesIn skip opens h).sublist filter_sublist
  have hnodup {es} (h : Node.TidyEntries es) : ((filesIn skip opens es).filter p).Nodup := by
    refine (hsorted h).imp fun {names names'} hlt (he : names = names') ↦ ?_
    subst he
    exact List.lt_irrefl names hlt
  refine List.Perm.eq_of_pairwise (fun a b _ _ hab hba ↦ ?_) (hsorted h) (hsorted h') ?_
  · exact absurd hba (List.lt_asymm hab)
  · refine (perm_ext_iff_of_nodup (hnodup h) (hnodup h')).mpr fun names ↦ ?_
    rw [mem_filter, mem_filter]
    refine and_congr_left fun hp ↦ ?_
    rw [mem_filesIn skip opens h, mem_filesIn skip opens h', hsame _ hp]

end Walk

section Reported

variable {ctx : DiscoveryContext} {d d' : Disk} {es es' : List (String × Node)}

def DiscoveryContext.reported (ctx : DiscoveryContext) (es : List (String × Node)) : List Location :=
  if ctx.baseDir.same Walk.standardInput then []
  else Walk.filesIn (Walk.Exclusions.ofPatterns ctx.config.exclusionPatterns).skip (Walk.canRead ctx.baseDir) es

theorem walked_eq (h : d.node ctx.baseDir = .ok (.dir es)) (htidy : Node.TidyEntries es) :
    ctx.walked d = (ctx.reported es).map (Walk.pathBelow ctx.baseDir) := by
  have hevent (v : Walk.Visit) : (v.event? ctx.baseDir).bind Walk.Event.file? =
      v.file?.map (Walk.pathBelow ctx.baseDir) := by
    cases v <;> rfl
  rw [DiscoveryContext.walked, DiscoveryContext.reported]
  cases hroot : ctx.baseDir.same Walk.standardInput with
  | true => rw [Walk.walk, Walk.Visitor.walk, if_pos hroot]; rfl
  | false =>
    rw [Walk.walk_eq hroot h htidy, filterMap_filterMap]
    simp only [hevent, Bool.false_eq_true, if_false]
    rw [Walk.filesIn, map_filterMap]

theorem filter_reported (h : Node.TidyEntries es) (h' : Node.TidyEntries es') (p : Location → Bool)
    (hsame : ∀ names, p names = true → ((Node.dir es).fileAt? names).isSome = ((Node.dir es').fileAt? names).isSome) :
    (ctx.reported es).filter p = (ctx.reported es').filter p := by
  rw [DiscoveryContext.reported, DiscoveryContext.reported]
  split
  · rfl
  · exact Walk.filter_filesIn _ _ h h' p hsame

theorem pairwise_reported (h : Node.TidyEntries es) : (ctx.reported es).Pairwise (· < ·) := by
  rw [DiscoveryContext.reported]
  split
  · exact .nil
  · exact Walk.pairwise_filesIn _ _ h

theorem fileAt?_of_mem_reported (h : Node.TidyEntries es)
    (hmem : names ∈ ctx.reported es) : names ≠ [] ∧ ∃ bytes, (Node.dir es).fileAt? names = some bytes := by
  rw [DiscoveryContext.reported] at hmem
  split at hmem
  · cases hmem
  · obtain ⟨s, rest, rfl, -, hfile⟩ := (Walk.mem_filesIn _ _ h).mp hmem
    exact ⟨by simp, Option.isSome_iff_exists.mp hfile⟩

theorem node_reported (hbase : d.node ctx.baseDir = .ok (.dir es)) (h : Node.TidyEntries es) {bytes : ByteArray}
    (hne : names ≠ [])
    (hfile : (Node.dir es).fileAt? names = some bytes) : d.node (Walk.pathBelow ctx.baseDir names) =
      match Disk.fault? ctx.baseDir names with
      | none => .ok (.file bytes)
      | some e => .error e := by
  have hget := Node.get?_of_fileAt? hfile
  exact Disk.node_pathBelow hbase (Node.isName_of_tidy (n := .dir es) h hget) hne hget (fun _ h ↦ by cases h)

end Reported

end AnalysisServer
